import TableApi.Proofs.Agreement

/-! The pass over a configuration as a run, and what holds after every run. -/
namespace TableApi

namespace Schema

variable {s t : Schema} {root : RootType} {field : FieldDefinition} {v : Unit}

theorem useRoot_frame (h : Gives (useRoot root) s v t) :
    t.tables = s.tables ∧ (s.registry.Keyed → t.registry.Keyed) := by
  rcases gives_useRoot.1 h with ⟨_, rfl⟩ | ⟨_, e, r, hr, rfl⟩
  · exact ⟨rfl, id⟩
  · exact ⟨rfl, fun hk => hk.register hr⟩

theorem addRootField_frame (h : Gives (addRootField root field) s v t) :
    t.tables = s.tables ∧ (s.registry.Keyed → t.registry.Keyed) := by
  obtain ⟨u, d, hu, _, _, _, rfl⟩ := gives_addRootField.1 h
  obtain ⟨ht, hk⟩ := useRoot_frame hu
  exact ⟨ht, fun hs => (hk hs).addField⟩

theorem addRootFields_frame {base : String} {operations : List Operation}
    (h : Gives (forM operations fun operation =>
      addRootField operation.root (operation.toField base)) s v t) :
    t.tables = s.tables ∧ (s.registry.Keyed → t.registry.Keyed) := by
  induction operations generalizing s with
  | nil =>
    obtain rfl := gives_forM_nil.1 h
    exact ⟨rfl, id⟩
  | cons operation operations ih =>
    obtain ⟨u, hu, h⟩ := gives_forM_cons.1 h
    obtain ⟨hut, huk⟩ := addRootField_frame hu
    obtain ⟨ht, hk⟩ := ih h
    exact ⟨ht.trans hut, hk ∘ huk⟩

theorem addTable_frame {table : Table} {operations : List Operation}
    (h : Gives (addTable table operations) s v t) :
    table.baseName ∉ s.tables ∧ t.tables = s.tables ++ [table.baseName] ∧
      (s.registry.Keyed → t.registry.Keyed) := by
  obtain ⟨hb, types, r, u, _, hr, hu, rfl⟩ := gives_addTable.1 h
  obtain ⟨ht, hk⟩ := addRootFields_frame hu
  exact ⟨hb, congrArg (· ++ [table.baseName]) ht, fun hs => hk (hr.keyed hs)⟩

end Schema

/-- The pass keeps its types under the keys of their names, and its tables under names of their own. -/
structure Synthesis.Sound (pass : Synthesis) : Prop where
  keyed : pass.schema.registry.Keyed
  tables : pass.schema.tables = pass.tables.map Table.baseName
  distinct : pass.schema.tables.Nodup

namespace Synthesis

variable {pass next : Synthesis}

theorem sound_start {id : String} {authorization : Option Authorization} {settings : Settings} :
    (start id authorization settings).Sound :=
  ⟨Registry.keyed_empty, rfl, .nil⟩

theorem Sound.addTable {table : Table} (h : pass.Sound) (hg : Gives (addTable table) pass () next) :
    next.Sound := by
  obtain ⟨t, ht, rfl⟩ := gives_addTable.1 hg
  obtain ⟨hb, htables, hk⟩ := Schema.addTable_frame ht
  refine ⟨hk h.keyed, ?_, ?_⟩
  · rw [htables, List.map_append, h.tables]
    rfl
  · rw [htables, List.nodup_append]
    refine ⟨h.distinct, by simp, ?_⟩
    rintro a ha b hm rfl
    exact hb (List.mem_singleton.1 hm ▸ ha)

theorem Sound.addTypes {types : AuxiliaryTypes} (h : pass.Sound)
    (hg : Gives (addTypes types) pass () next) : next.Sound := by
  obtain ⟨t, ht, rfl⟩ := gives_addTypes.1 hg
  obtain ⟨_, r, hr, rfl⟩ := AuxiliaryTypes.register_registers ht
  exact ⟨hr.keyed h.keyed, h.tables, h.distinct⟩

theorem Sound.addText {text : String} (h : pass.Sound) : (outcome (addText text) pass).2.Sound := by
  rw [addText_leaves]
  exact ⟨h.keyed, h.tables, h.distinct⟩

end Synthesis

namespace Run

variable {pass last : Synthesis} {calls later : List Call}

theorem sound (h : Run pass calls last) (hs : pass.Sound) : last.Sound := by
  induction h with
  | nil => exact hs
  | table hg _ ih => exact ih (hs.addTable hg)
  | types hg _ ih => exact ih (hs.addTypes hg)
  | text _ ih => exact ih hs.addText

theorem append_iff : Run pass (calls ++ later) last ↔ ∃ mid, Run pass calls mid ∧ Run mid later last := by
  constructor
  · intro h
    induction calls generalizing pass with
    | nil => exact ⟨pass, .nil pass, h⟩
    | cons call calls ih =>
      cases h with
      | table hg h =>
        obtain ⟨mid, hm, hl⟩ := ih h
        exact ⟨mid, .table hg hm, hl⟩
      | types hg h =>
        obtain ⟨mid, hm, hl⟩ := ih h
        exact ⟨mid, .types hg hm, hl⟩
      | text h =>
        obtain ⟨mid, hm, hl⟩ := ih h
        exact ⟨mid, .text hm, hl⟩
  · rintro ⟨mid, hm, hl⟩
    induction hm with
    | nil => exact hl
    | table hg _ ih => exact .table hg (ih hl)
    | types hg _ ih => exact .types hg (ih hl)
    | text _ ih => exact .text (ih hl)

theorem types_iff {types : AuxiliaryTypes} :
    Run pass [.types types] last ↔ Gives (Synthesis.addTypes types) pass () last := by
  constructor
  · rintro (_ | _ | ⟨hg, ⟨⟩⟩)
    exact hg
  · intro hg
    exact .types hg (.nil last)

theorem tables_iff {tables : List Table} :
    Run pass (tables.map .table) last ↔ Gives (forM tables Synthesis.addTable) pass () last := by
  induction tables generalizing pass with
  | nil =>
    rw [gives_forM_nil]
    constructor
    · rintro ⟨⟩
      rfl
    · rintro rfl
      exact .nil last
  | cons table tables ih =>
    rw [gives_forM_cons]
    constructor
    · rintro (_ | ⟨hg, h⟩)
      exact ⟨_, hg, ih.1 h⟩
    · rintro ⟨mid, hg, h⟩
      exact .table hg (ih.2 h)

/-- Types that are declared at the end change nothing but the registry. -/
theorem types_last_iff {declared : AuxiliaryTypes} :
    Run pass (calls ++ [.types declared]) last ↔ ∃ mid types r, Run pass calls mid ∧
      declared.definitions = .ok types ∧ Registry.Registers mid.schema.registry types r ∧
      last = { mid with schema := { mid.schema with registry := r } } := by
  simp only [append_iff, types_iff, Synthesis.gives_addTypes, AuxiliaryTypes.gives_register]
  constructor
  · rintro ⟨mid, hm, _, ⟨types, r, hd, hr, rfl⟩, rfl⟩
    exact ⟨mid, types, r, hm, hd, hr, rfl⟩
  · rintro ⟨mid, types, r, hm, hd, hr, rfl⟩
    exact ⟨mid, hm, _, ⟨types, r, hd, hr, rfl⟩, rfl⟩

theorem tables_eq {tables : List Table} (h : Run pass (tables.map .table) last) :
    last.tables = pass.tables ++ tables := by
  induction tables generalizing pass with
  | nil =>
    cases h
    simp
  | cons table tables ih =>
    cases h with
    | table hg h =>
      obtain ⟨t, _, rfl⟩ := Synthesis.gives_addTable.1 hg
      simpa using ih h

end Run

namespace Config

variable {config : Config} {id : String} {label : Option String} {last : Synthesis} {output : Output}

def start (config : Config) (id : String) : Synthesis :=
  .start id (some (config.authorization id)) config.apiSettings

/-- The pass over a configuration before it is finished. -/
def pass (config : Config) (id : String) (label : Option String) : Except Error Synthesis := do
  let tables ← config.buildTables label
  let build : Updating Synthesis Unit := do
    tables.forM Synthesis.addTable
    Synthesis.addTypes config.types
  match outcome build (config.start id) with
  | (.ok (), last) => .ok last
  | (.error error, _) => .error error

theorem synthesize_eq : synthesize id config label = config.pass id label >>= Synthesis.finish := by
  have h : ∀ result : Except Error Unit × Synthesis,
      (match result with
        | (.ok (), last) => last.finish
        | (.error error, _) => .error error) =
      (match result with
        | (.ok (), last) => .ok last
        | (.error error, _) => .error error) >>= Synthesis.finish := by
    rintro ⟨_ | _, _⟩ <;> rfl
  rw [pass, bind_assoc]
  exact bind_congr fun tables => h _

theorem synthesize_ok_iff : synthesize id config label = .ok output ↔
    ∃ last, config.pass id label = .ok last ∧ last.finish = .ok output := by
  rw [synthesize_eq, Except.bind_ok_iff]

theorem pass_ok_iff : config.pass id label = .ok last ↔ ∃ tables,
    config.buildTables label = .ok tables ∧
      Run (config.start id) (tables.map .table ++ [.types config.types]) last := by
  simp only [pass, Except.bind_ok_iff, Run.append_iff, Run.tables_iff, Run.types_iff]
  refine exists_congr fun tables => and_congr_right fun _ => ?_
  have h : Gives (do tables.forM Synthesis.addTable; Synthesis.addTypes config.types) (config.start id) () last ↔
      ∃ mid, Gives (forM tables Synthesis.addTable) (config.start id) () mid ∧
        Gives (Synthesis.addTypes config.types) mid () last := by
    rw [gives_bind]
    constructor
    · rintro ⟨_, mid, hm, hl⟩
      exact ⟨mid, hm, hl⟩
    · rintro ⟨mid, hm, hl⟩
      exact ⟨⟨⟩, mid, hm, hl⟩
  rw [← h, Gives]
  rcases outcome _ (config.start id) with ⟨_ | _, _⟩ <;> simp

/-- Auxiliary types plan no operations. -/
theorem planned_of_calls {tables : List Table} :
    (tables.map Call.table ++ [Call.types config.types]).flatMap Call.planned =
      tables.flatMap Planned.ofTable := by
  simp [List.flatMap_map, Call.planned]

theorem follows_of_run {tables : List Table}
    (h : Run (config.start id) (tables.map .table ++ [.types config.types]) last) :
    last.Follows (tables.flatMap Planned.ofTable) := by
  have hfollows := h.follows Synthesis.follows_start
  rwa [List.nil_append, planned_of_calls] at hfollows

theorem follows_of_pass {tables : List Table} (h : config.pass id label = .ok last)
    (ht : config.buildTables label = .ok tables) : last.Follows (tables.flatMap Planned.ofTable) := by
  obtain ⟨built, hbuilt, hrun⟩ := pass_ok_iff.1 h
  obtain rfl : built = tables := Except.ok.inj (hbuilt.symm.trans ht)
  exact follows_of_run hrun

theorem tables_of_run {tables : List Table}
    (h : Run (config.start id) (tables.map .table ++ [.types config.types]) last) : last.tables = tables := by
  obtain ⟨_, _, _, hmid, _, _, rfl⟩ := Run.types_last_iff.1 h
  exact hmid.tables_eq

end Config

/-- A table for examples, declared by its key and its attributes. -/
def declared (name key : String) (attributes : List (String × String)) : TableEntry :=
  .declared { TableDeclaration.ofName name (.named key) with
    attributes := some (.typed (.ofList attributes)) }

def dogsAndCats : Config :=
  { Config.empty with
    tables := [declared "Dog" "dogId" [("dogId", "ID!"), ("breed", "String")],
      declared "Cat" "catId" [("catId", "ID!"), ("enemy", "Dog")]] }

end TableApi
