import Mathlib.Data.List.Nodup
import TableApi.Proofs.KeyConditions
import TableApi.Proofs.KeyTypes

/-! Under which names the indexes of a table stand in storage. A name that is not given is put together from the
names of the table and of the keys with nothing between them, and no name is compared with another. -/
namespace TableApi

/-- What is there comes first, then what stands in for the rest. -/
theorem map_getD_perm {α β : Type} (f : α → Option β) (g : α → β) (xs : List α) :
    (xs.map fun x => (f x).getD (g x)).Perm (xs.filterMap f ++ (xs.filter fun x => (f x).isNone).map g) := by
  induction xs with
  | nil => exact .refl _
  | cons x xs ih =>
    cases hx : f x with
    | none =>
      have hmoved := (ih.cons (g x)).trans List.perm_middle.symm
      simpa [hx] using hmoved
    | some y => simpa [hx] using ih

/-- The names one after another, each with a capital and nothing between. -/
def glued (keys : List String) : String :=
  String.join (keys.map Text.capitalize)

section Defaults

variable {attributes : Attributes} {table : String}

theorem GlobalIndex.defaultName_eq {partition : Key} {sort : Option Key} :
    defaultName table partition.name (sort.map Key.name) =
      "global" ++ Text.capitalize table ++ glued ((partition :: sort.toList).map Key.name) := by
  cases sort <;> simp [defaultName, glued, String.join, String.append_assoc]

namespace GlobalIndexDeclaration

def keyNames (declaration : GlobalIndexDeclaration) : List String :=
  declaration.keys.map KeyDeclaration.name

def defaultName (table : String) (declaration : GlobalIndexDeclaration) : String :=
  "global" ++ Text.capitalize table ++ glued declaration.keyNames

def indexName (table : String) (declaration : GlobalIndexDeclaration) : String :=
  declaration.givenName.getD (declaration.defaultName table)

theorem name_of_toIndex {declaration : GlobalIndexDeclaration} {index : GlobalIndex}
    (h : declaration.toIndex table attributes = .ok index) : index.name = declaration.indexName table := by
  have hnames := KeyDeclaration.names_of_reads (toIndex_reads h)
  simp only [toIndex_eq, Except.bind_ok_iff, Except.pure_ok_iff] at h
  obtain ⟨partition, _, sort, _, rfl⟩ := h
  dsimp only
  rw [GlobalIndex.defaultName_eq, indexName, defaultName, keyNames, ← hnames]
  rfl

end GlobalIndexDeclaration

namespace LocalIndexDeclaration

def defaultName (table : String) (declaration : LocalIndexDeclaration) : String :=
  LocalIndex.defaultName table declaration.sort.name

def indexName (table : String) (declaration : LocalIndexDeclaration) : String :=
  declaration.givenName.getD (declaration.defaultName table)

theorem name_of_toIndex {declaration : LocalIndexDeclaration} {index : LocalIndex}
    (h : declaration.toIndex table attributes = .ok index) : index.name = declaration.indexName table := by
  have hname := (toIndex_reads h).1
  simp only [toIndex_eq, Except.bind_ok_iff, Except.pure_ok_iff] at h
  obtain ⟨sort, _, rfl⟩ := h
  dsimp only at hname ⊢
  rw [hname]
  rfl

end LocalIndexDeclaration

end Defaults

namespace TableDeclaration

variable {declaration : TableDeclaration}

/-- The names of all indexes, those of global ones first. -/
def indexNames (declaration : TableDeclaration) : List String :=
  declaration.globalIndexes.map (·.indexName declaration.name) ++
    declaration.localIndexes.map (·.indexName declaration.name)

def givenIndexNames (declaration : TableDeclaration) : List String :=
  declaration.globalIndexes.filterMap GlobalIndexDeclaration.givenName ++
    declaration.localIndexes.filterMap LocalIndexDeclaration.givenName

def unnamedGlobals (declaration : TableDeclaration) : List GlobalIndexDeclaration :=
  declaration.globalIndexes.filter (·.givenName.isNone)

def unnamedLocals (declaration : TableDeclaration) : List LocalIndexDeclaration :=
  declaration.localIndexes.filter (·.givenName.isNone)

def defaultIndexNames (declaration : TableDeclaration) : List String :=
  declaration.unnamedGlobals.map (·.defaultName declaration.name) ++
    declaration.unnamedLocals.map (·.defaultName declaration.name)

/-- Given names are different, the keys of unnamed indexes of one kind are glued together differently, and no
given name is the default of another index. -/
structure IndexesApart (declaration : TableDeclaration) : Prop where
  given : declaration.givenIndexNames.Nodup
  globals : (declaration.unnamedGlobals.map fun index => glued index.keyNames).Nodup
  locals : (declaration.unnamedLocals.map fun index => Text.capitalize index.sort.name).Nodup
  defaults : ∀ name ∈ declaration.givenIndexNames, name ∉ declaration.defaultIndexNames

theorem indexNames_perm (declaration : TableDeclaration) :
    declaration.indexNames.Perm (declaration.givenIndexNames ++ declaration.defaultIndexNames) := by
  have hglobals := map_getD_perm GlobalIndexDeclaration.givenName
    (GlobalIndexDeclaration.defaultName declaration.name) declaration.globalIndexes
  have hlocals := map_getD_perm LocalIndexDeclaration.givenName
    (LocalIndexDeclaration.defaultName declaration.name) declaration.localIndexes
  refine (hglobals.append hlocals).trans ?_
  rw [givenIndexNames, defaultIndexNames, List.append_assoc, List.append_assoc]
  exact (List.perm_append_comm_assoc _ _ _).append_left _

/-- Default names of the two kinds differ in their first letters. -/
theorem defaultIndexNames_nodup_iff : declaration.defaultIndexNames.Nodup ↔
    (declaration.unnamedGlobals.map fun index => glued index.keyNames).Nodup ∧
      (declaration.unnamedLocals.map fun index => Text.capitalize index.sort.name).Nodup := by
  have hprefixed : ∀ (start : String) (names : List String),
      (names.map (start ++ ·)).Nodup ↔ names.Nodup :=
    fun start names => List.nodup_map_iff fun _ _ he => (String.append_right_inj start).1 he
  have hglobals : declaration.unnamedGlobals.map (·.defaultName declaration.name) =
      (declaration.unnamedGlobals.map fun index => glued index.keyNames).map
        ("global" ++ Text.capitalize declaration.name ++ ·) := by
    rw [List.map_map]
    rfl
  have hlocals : declaration.unnamedLocals.map (·.defaultName declaration.name) =
      (declaration.unnamedLocals.map fun index => Text.capitalize index.sort.name).map
        ("local" ++ Text.capitalize declaration.name ++ ·) := by
    rw [List.map_map]
    rfl
  have hapart : ∀ a b : String, "global" ++ Text.capitalize declaration.name ++ a ≠
      "local" ++ Text.capitalize declaration.name ++ b := by
    intro a b he
    have hfirst := congrArg (fun name => name.toList.head?) he
    simp [String.toList_append] at hfirst
  rw [defaultIndexNames, hglobals, hlocals, List.nodup_append, hprefixed, hprefixed]
  refine and_congr_right fun _ => and_iff_left ?_
  intro a ha b hb
  obtain ⟨first, _, rfl⟩ := List.mem_map.1 ha
  obtain ⟨second, _, rfl⟩ := List.mem_map.1 hb
  exact hapart first second

theorem indexNames_nodup_iff : declaration.indexNames.Nodup ↔ declaration.IndexesApart := by
  rw [declaration.indexNames_perm.nodup_iff, List.nodup_append, defaultIndexNames_nodup_iff]
  constructor
  · intro ⟨hgiven, ⟨hglobals, hlocals⟩, hdefaults⟩
    exact ⟨hgiven, hglobals, hlocals, fun name hn hd => hdefaults name hn name hd rfl⟩
  · intro h
    refine ⟨h.given, ⟨h.globals, h.locals⟩, ?_⟩
    intro a ha b hb he
    exact h.defaults a ha (he ▸ hb)

end TableDeclaration

/-- The names of all indexes of a descriptor. -/
def TableDescriptor.indexNames (descriptor : TableDescriptor) : List String :=
  descriptor.globalIndexes.map GlobalIndexDescriptor.name ++ descriptor.localIndexes.map LocalIndexDescriptor.name

theorem TableDescriptor.Targets.mem_indexNames {descriptor : TableDescriptor} {name : String}
    {keys : List KeyAttribute} (h : descriptor.Targets (some name) keys) : name ∈ descriptor.indexNames := by
  cases h with
  | globalIndex hi => exact List.mem_append_left _ (List.mem_map_of_mem hi)
  | localIndex hi => exact List.mem_append_right _ (List.mem_map_of_mem hi)

namespace Table

variable {table : Table} {declaration : TableDeclaration} {label : Option String} {o : Operation}

theorem Assembled.indexNames (h : Assembled declaration table) :
    table.globalIndexes.map GlobalIndex.name ++ table.localIndexes.map LocalIndex.name =
      declaration.indexNames := by
  have hglobals : table.globalIndexes.map GlobalIndex.name =
      declaration.globalIndexes.map (·.indexName declaration.name) :=
    Except.map_eq_of_mapM_ok (Except.mapM_ok_iff.2 h.globalIndexes)
      fun _ _ => GlobalIndexDeclaration.name_of_toIndex
  have hlocals : table.localIndexes.map LocalIndex.name =
      declaration.localIndexes.map (·.indexName declaration.name) :=
    Except.map_eq_of_mapM_ok (Except.mapM_ok_iff.2 h.localIndexes)
      fun _ _ => LocalIndexDeclaration.name_of_toIndex
  rw [hglobals, hlocals, TableDeclaration.indexNames]

theorem describe_indexNames (h : ofDeclaration declaration label = .ok table) :
    table.describe.indexNames = declaration.indexNames := by
  have hassembled := assembled_of_declaration h
  rw [TableDescriptor.indexNames, ← hassembled.indexNames, describe, List.map_map, List.map_map]
  rfl

/-- An index is named by queries alone. -/
theorem kind_of_index {name : String} (h : Candidate table o) (hi : o.index = some name) : o.kind = .query := by
  cases h with
  | globalPartition | globalSort | localSort => rfl
  | _ => cases hi

/-- The indexes of a table are named as they are declared, and the names are different exactly if the
declarations keep them apart. The index that a binding names holds the keys of its operation; the request names
the same index, and where all names are different there is no other. -/
theorem index_names_nodup_iff (h : ofDeclaration declaration label = .ok table) :
    table.describe.indexNames = declaration.indexNames ∧
    (table.describe.indexNames.Nodup ↔ declaration.IndexesApart) ∧
    ∀ binding ∈ table.bindings table.plan, ∀ name, binding.index = some name →
      (∃ condition, binding.request = (RequestTemplate.query (some name) condition).render) ∧
      table.describe.Targets (some name) (binding.keys.map KeyArgument.toAttribute) ∧
      (table.describe.indexNames.Nodup → table.describe.indexNames.count name = 1) := by
  have hnames := describe_indexNames h
  refine ⟨hnames, hnames ▸ TableDeclaration.indexNames_nodup_iff, ?_⟩
  intro binding hb name hname
  obtain ⟨o, ho, rfl⟩ := mem_bindings_iff.1 hb
  have hc := candidate_of_mem_plan ho
  have hindex : o.index = some name := hname
  have hk := kind_of_index hc hindex
  obtain ⟨condition, _, hrequest⟩ := table.exists_condition hk (hc.keys_ne_nil hk)
  have htargets := hc.targets hk
  rw [hindex] at hrequest htargets
  refine ⟨⟨condition, hrequest⟩, htargets, fun hnodup => ?_⟩
  exact List.count_eq_one_of_mem hnodup htargets.mem_indexNames

theorem ratedEvents_indexes_apart : ∃ table, ofDeclaration ratedEvents none = .ok table ∧
    table.describe.indexNames = ["globalEventTitle", "localEventRating"] ∧ table.describe.indexNames.Nodup ∧
    ∃ binding ∈ table.bindings table.plan, binding.operation = "getEventByPlaceAndRating" ∧
      binding.index = some "localEventRating" ∧ table.describe.indexNames.count "localEventRating" = 1 := by
  obtain ⟨table, ht, hnames, binding, hb, hoperation, hindex⟩ :=
    Except.exists_ok_of_decide (x := ofDeclaration ratedEvents none)
      (p := fun table => table.describe.indexNames = ["globalEventTitle", "localEventRating"] ∧
        ∃ binding ∈ table.bindings table.plan, binding.operation = "getEventByPlaceAndRating" ∧
          binding.index = some "localEventRating") (by decide +kernel)
  have hapart : ratedEvents.IndexesApart :=
    ⟨by decide +kernel, by decide +kernel, by decide +kernel, by decide +kernel⟩
  obtain ⟨_, hiff, hbindings⟩ := index_names_nodup_iff ht
  have hnodup := hiff.2 hapart
  exact ⟨table, ht, hnames, hnodup, binding, hb, hoperation, hindex, (hbindings binding hb _ hindex).2.2 hnodup⟩

/-- Dogs by their names and ages, and by an attribute that is called after both. -/
def gluedDogs : TableDeclaration :=
  { TableDeclaration.ofName "Dog" (.named "dogId") with
    attributes := some (.typed (.ofList [("dogId", "ID!"), ("name", "String"), ("age", "Int"),
      ("nameAge", "String")]))
    globalIndexes := [.declared { GlobalIndexForm.ofPartition "name" with sort := some (.named "age") },
      .named "nameAge"] }

/-- The two indexes have one name, so that a query does not tell which of them it asks. -/
theorem gluedDogs_share_name : ∃ table, ofDeclaration gluedDogs none = .ok table ∧
    table.describe.indexNames = ["globalDogNameAge", "globalDogNameAge"] ∧
    ¬ table.describe.indexNames.Nodup ∧
    ∃ binding ∈ table.bindings table.plan, binding.operation = "getDogByNameAge" ∧
      binding.index = some "globalDogNameAge" ∧ table.describe.indexNames.count "globalDogNameAge" = 2 :=
  Except.exists_ok_of_decide (by decide +kernel)

end Table

end TableApi
