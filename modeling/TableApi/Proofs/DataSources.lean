import TableApi.Proofs.Passes
import TableApi.Proofs.TableTypes

/-! Which data sources the resolvers of a finished pass reach. The names of data sources tell tables apart
that stand under one label. Under different labels they may not, for the underscore in one name may be the
point in another. -/
namespace TableApi

/-- The text with underscores for points. -/
def underscored (text : String) : String :=
  String.ofList (text.toList.map fun c => if c = '.' then '_' else c)

/-- The name that stands for `name` in storage. -/
def storageName (label : Option String) (name : String) : String :=
  match label with
  | some label => label ++ "." ++ name
  | none => name

section Names

variable {name other : String} {label mark : Option String}

theorem underscored_append (a b : String) : underscored (a ++ b) = underscored a ++ underscored b := by
  simp [underscored, String.toList_append, String.ofList_append]

theorem point_not_mem_of_legal (h : isLegalName name) : '.' ∉ name.toList := by
  intro hp
  exact absurd (isNameChar_of_legal h '.' hp) (by decide)

theorem underscored_of_legal (h : isLegalName name) : underscored name = name := by
  have hp := point_not_mem_of_legal h
  have hsame : (name.toList.map fun c => if c = '.' then '_' else c) = name.toList.map id := by
    apply List.map_congr_left
    intro c hc
    have hne : c ≠ '.' := fun he => hp (he ▸ hc)
    simp [hne]
  rw [underscored, hsame, List.map_id, String.ofList_toList]

/-- What stands behind the last point, and what before it. -/
theorem eq_of_append_point {xs ys as bs : List Char} (hy : '.' ∉ ys) (hb : '.' ∉ bs)
    (h : xs ++ '.' :: ys = as ++ '.' :: bs) : xs = as ∧ ys = bs := by
  rcases List.append_eq_append_iff.1 h with ⟨cs, rfl, hc⟩ | ⟨cs, rfl, hc⟩
  · cases cs with
    | nil => simpa using hc
    | cons c cs =>
      have hys : ys = cs ++ '.' :: bs := (List.cons.inj hc).2
      exact absurd (hys ▸ by simp) hy
  · cases cs with
    | nil => simpa [eq_comm] using hc
    | cons c cs =>
      have hbs : bs = cs ++ '.' :: ys := (List.cons.inj hc).2
      exact absurd (hbs ▸ by simp) hb

/-- A storage name tells both the label and the name. -/
theorem storageName_inj (hn : isLegalName name) (ho : isLegalName other)
    (h : storageName label name = storageName mark other) : label = mark ∧ name = other := by
  have hname := point_not_mem_of_legal hn
  have hother := point_not_mem_of_legal ho
  have hlist := congrArg String.toList h
  cases label with
  | none =>
    cases mark with
    | none => exact ⟨rfl, h⟩
    | some mark => exact absurd (hlist ▸ by simp [storageName]) hname
  | some label =>
    cases mark with
    | none => exact absurd (hlist ▸ by simp [storageName]) hother
    | some mark =>
      simp only [storageName, String.toList_append, List.append_assoc] at hlist
      obtain ⟨hl, hs⟩ := eq_of_append_point hname hother hlist
      exact ⟨congrArg some (String.toList_inj.1 hl), String.toList_inj.1 hs⟩

/-- Under one label names keep apart, with underscores as well. -/
theorem underscored_storageName_inj (hn : isLegalName name) (ho : isLegalName other)
    (h : underscored (storageName label name) = underscored (storageName label other)) :
    name = other := by
  cases label with
  | none => rwa [storageName, storageName, underscored_of_legal hn, underscored_of_legal ho] at h
  | some label =>
    simp only [storageName, underscored_append] at h
    rw [String.append_right_inj] at h
    rwa [underscored_of_legal hn, underscored_of_legal ho] at h

end Names

namespace Table

variable {table a b : Table}

/-- The table has its name in storage from the label, or from its own name if there is none. -/
def StandsUnder (table : Table) (label : Option String) : Prop :=
  table.displayName = storageName label table.baseName

theorem dataSourceName_eq_iff :
    a.dataSourceName = b.dataSourceName ↔ underscored a.displayName = underscored b.displayName :=
  String.append_left_inj "DataSource"

theorem displayNameOf_eq {label : Option String} {declaration : TableDeclaration} :
    displayNameOf label declaration = storageName (label <|> declaration.namespaceLabel) declaration.name := by
  unfold displayNameOf storageName
  cases label <|> declaration.namespaceLabel <;> rfl

theorem standsUnder_of_declaration {declaration : TableDeclaration} {label : Option String}
    (h : ofDeclaration declaration label = .ok table) :
    table.StandsUnder (label <|> declaration.namespaceLabel) := by
  simp only [ofDeclaration, Except.bind_ok_iff, check_eq_ok_iff, assemble, Except.pure_ok_iff] at h
  obtain ⟨_, ⟨_, _, _, _, _, _, _, _, rfl⟩, _, rfl⟩ := h
  exact displayNameOf_eq

theorem Accepted.exists_label (h : table.Accepted) : ∃ label, table.StandsUnder label := by
  obtain ⟨declaration, label, built, settings, hb, rfl⟩ := h
  have hbuilt : built.StandsUnder (label <|> declaration.namespaceLabel) := standsUnder_of_declaration hb
  exact ⟨_, hbuilt⟩

/-- Tables under one label share a data source only if they have one name. -/
theorem baseName_eq_of_dataSourceName {label : Option String} (ha : a.Accepted) (hb : b.Accepted)
    (hal : a.StandsUnder label) (hbl : b.StandsUnder label)
    (h : a.dataSourceName = b.dataSourceName) : a.baseName = b.baseName := by
  rw [dataSourceName_eq_iff, hal, hbl] at h
  exact underscored_storageName_inj ha.legalName hb.legalName h

end Table

/-- The names of tables under different labels do not differ in points and underscores alone. -/
def SourcesApart (tables : List Table) : Prop :=
  ∀ a ∈ tables, ∀ b ∈ tables, ∀ label mark, a.StandsUnder label → b.StandsUnder mark → label ≠ mark →
    underscored a.displayName ≠ underscored b.displayName

section Sources

variable {tables : List Table}

theorem displayNames_nodup (ha : ∀ table ∈ tables, table.Accepted)
    (hn : (tables.map Table.baseName).Nodup) : (tables.map Table.displayName).Nodup := by
  have hbase := List.pairwise_map.1 hn
  apply List.pairwise_map.2
  apply hbase.imp_of_mem
  intro a b hat hbt hne hsame
  obtain ⟨label, hl⟩ := (ha a hat).exists_label
  obtain ⟨mark, hm⟩ := (ha b hbt).exists_label
  rw [hl, hm] at hsame
  exact hne (storageName_inj (ha a hat).legalName (ha b hbt).legalName hsame).2

theorem dataSourceNames_nodup_iff (ha : ∀ table ∈ tables, table.Accepted)
    (hn : (tables.map Table.baseName).Nodup) :
    (tables.map Table.dataSourceName).Nodup ↔ SourcesApart tables := by
  constructor
  · intro hs a hat b hbt label mark hl hm hne hsame
    have heq : a = b := List.inj_on_of_nodup_map hs hat hbt (Table.dataSourceName_eq_iff.2 hsame)
    subst heq
    have hname : storageName label a.baseName = storageName mark a.baseName := hl.symm.trans hm
    exact hne (storageName_inj (ha a hat).legalName (ha a hat).legalName hname).1
  · intro hs
    have hbase := List.pairwise_map.1 hn
    apply List.pairwise_map.2
    apply hbase.imp_of_mem
    intro a b hat hbt hne hsame
    obtain ⟨label, hl⟩ := (ha a hat).exists_label
    obtain ⟨mark, hm⟩ := (ha b hbt).exists_label
    by_cases hlm : label = mark
    · subst hlm
      exact hne (Table.baseName_eq_of_dataSourceName (ha a hat) (ha b hbt) hl hm hsame)
    · exact hs a hat b hbt label mark hl hm hlm (Table.dataSourceName_eq_iff.1 hsame)

theorem filter_name_eq_singleton {α : Type} {name : α → String} {xs : List α} {x : α}
    (hn : (xs.map name).Nodup) (hx : x ∈ xs) : xs.filter (name · = name x) = [x] := by
  induction xs with
  | nil => cases hx
  | cons y xs ih =>
    obtain ⟨hy, hn⟩ := List.nodup_cons.1 hn
    rcases List.mem_cons.1 hx with rfl | hx
    · have hnone : xs.filter (name · = name x) = [] := by
        apply List.filter_eq_nil_iff.2
        intro z hz he
        exact hy (List.mem_map.2 ⟨z, hz, of_decide_eq_true he⟩)
      simp [hnone]
    · have hne : name y ≠ name x := fun he => hy (he ▸ List.mem_map_of_mem hx)
      simp [hne, ih hn hx]

end Sources

/-- The binding is the resolver of the operation, and the one data source of its name is on the table of
the operation. -/
structure Routed (output : Output) (binding : Binding) (planned : Planned) : Prop where
  serves : Serves binding planned
  source : output.dataSources.filter (·.name = binding.dataSource) =
    [⟨binding.dataSource, planned.1.displayName⟩]

namespace Config

variable {config : Config} {id : String} {label : Option String} {tables : List Table} {output : Output}

/-- The bindings and data sources of a pass are those of its tables, whose names are all different. -/
theorem synthesize_parts (ht : config.buildTables label = .ok tables)
    (h : synthesize id config label = .ok output) :
    output.bindings = (tables.flatMap Planned.ofTable).map Planned.binding ∧
      output.dataSources = tables.map DataSource.ofTable ∧ (tables.map Table.baseName).Nodup := by
  obtain ⟨last, hp, hf⟩ := synthesize_ok_iff.1 h
  obtain ⟨built, hbuilt, hrun⟩ := pass_ok_iff.1 hp
  obtain rfl : built = tables := Except.ok.inj (hbuilt.symm.trans ht)
  obtain ⟨_, _, hbindings, _, hsources, _⟩ := Synthesis.finish_ok_iff.1 hf
  have hsound := hrun.sound Synthesis.sound_start
  have hfollows := follows_of_run hrun
  have htables := tables_of_run hrun
  have hdistinct := hsound.distinct
  rw [hsound.tables, htables] at hdistinct
  exact ⟨hbindings.trans hfollows.bindings, htables ▸ hsources, hdistinct⟩

end Config

/-- There is one data source for each table, in order, on the table of that name in storage, and no two
tables share such a name. The names of data sources are all different, and every binding finds exactly the
data source of its table, if and only if no two tables under different labels have names that differ in
points and underscores alone. -/
theorem synthesize_routed_iff {config : Config} {id : String} {label : Option String} {tables : List Table}
    {output : Output} (hb : config.BuiltAccepted) (ht : config.buildTables label = .ok tables)
    (h : synthesize id config label = .ok output) :
    output.dataSources.map DataSource.table = tables.map Table.displayName ∧
      (tables.map Table.displayName).Nodup ∧
      (((output.dataSources.map DataSource.name).Nodup ∧
        List.Forall₂ (Routed output) output.bindings (tables.flatMap Planned.ofTable)) ↔
          SourcesApart tables) := by
  have ha := Config.buildTables_accepted hb ht
  obtain ⟨hbindings, hsources, hdistinct⟩ := Config.synthesize_parts ht h
  have hnames : output.dataSources.map DataSource.name = tables.map Table.dataSourceName := by
    rw [hsources, List.map_map]
    rfl
  refine ⟨?_, displayNames_nodup ha hdistinct, ?_⟩
  · rw [hsources, List.map_map]
    rfl
  rw [hnames, dataSourceNames_nodup_iff ha hdistinct]
  refine and_iff_left_of_imp ?_
  intro hapart
  have hnodup : (output.dataSources.map DataSource.name).Nodup := by
    rw [hnames, dataSourceNames_nodup_iff ha hdistinct]
    exact hapart
  rw [hbindings, List.forall₂_map_left_iff, List.forall₂_same]
  intro planned hp
  have hmem : DataSource.ofTable planned.1 ∈ output.dataSources :=
    hsources ▸ List.mem_map_of_mem (Planned.mem_tables_iff.1 hp).1
  exact ⟨planned.serves, filter_name_eq_singleton hnodup hmem⟩

/-- A table of dogs under a label of its own, beside one without a label. -/
def labelledDogs (label other : String) : Config :=
  { Config.empty with
    tables := [.declared { TableDeclaration.ofName "Dog" (.named "dogId") with
        attributes := some (.typed (.ofList [("dogId", "ID!"), ("breed", "String")]))
        namespaceLabel := some label },
      declared other "id" [("id", "ID!"), ("breed", "String")]] }

theorem labelledDogs_builtAccepted (label other : String) : (labelledDogs label other).BuiltAccepted := by
  intro table hm
  simp [labelledDogs, declared] at hm

/-- Points within a label do no harm by themselves. -/
theorem labelledDogs_routed : ∃ tables output,
    (labelledDogs "pets.a" "pets_Dog").buildTables none = .ok tables ∧
      synthesize "Pets" (labelledDogs "pets.a" "pets_Dog") none = .ok output ∧
      tables.map Table.displayName = ["pets.a.Dog", "pets_Dog"] ∧
      (output.dataSources.map DataSource.name).Nodup ∧
      List.Forall₂ (Routed output) output.bindings (tables.flatMap Planned.ofTable) := by
  have hb := labelledDogs_builtAccepted "pets.a" "pets_Dog"
  obtain ⟨tables, ht, hnames, hbase, hsources⟩ :=
    Except.exists_ok_of_decide (x := (labelledDogs "pets.a" "pets_Dog").buildTables none)
      (p := fun tables => tables.map Table.displayName = ["pets.a.Dog", "pets_Dog"] ∧
        (tables.map Table.baseName).Nodup ∧ (tables.map Table.dataSourceName).Nodup) (by decide +kernel)
  obtain ⟨output, ho, _⟩ :=
    Except.exists_ok_of_decide (x := synthesize "Pets" (labelledDogs "pets.a" "pets_Dog") none)
      (p := fun _ => True) (by decide +kernel)
  have hapart := (dataSourceNames_nodup_iff (Config.buildTables_accepted hb ht) hbase).1 hsources
  have hrouted := (synthesize_routed_iff hb ht ho).2.2.2 hapart
  exact ⟨tables, output, ht, ho, hnames, hrouted.1, hrouted.2⟩

/-- The resolvers of two tables reach for data sources of one name. -/
theorem labelledDogs_share_source : ∃ output,
    synthesize "Pets" (labelledDogs "a" "a_Dog") none = .ok output ∧
      ¬ (output.dataSources.map DataSource.name).Nodup ∧
      ∃ binding ∈ output.bindings, binding.operation = "getDogByDogId" ∧
        output.dataSources.filter (·.name = binding.dataSource) =
          [⟨"a_DogDataSource", "a.Dog"⟩, ⟨"a_DogDataSource", "a_Dog"⟩] :=
  Except.exists_ok_of_decide (by decide +kernel)

end TableApi
