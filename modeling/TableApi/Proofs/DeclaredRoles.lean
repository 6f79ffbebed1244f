import TableApi.Proofs.ArgumentTypes
import TableApi.Proofs.TwinTables
import TableApi.Storage

/-! The roles that are written on keys. A table is built with them, but what it is planned, bound and described as
does not tell them: everywhere the place of a key decides whether it is a partition key or a sort key. -/
namespace TableApi

section Roleless

/-- The key in the one role that stands for all. -/
def Key.roleless (key : Key) : Key :=
  key.withRole .partition

/-- The key without what is written about its role. -/
def KeyDeclaration.roleless : KeyDeclaration → KeyDeclaration
  | named name => named name
  | reference name type _ => reference name type none
  | built key => built key.roleless

def GlobalIndex.roleless (index : GlobalIndex) : GlobalIndex :=
  { index with partition := index.partition.roleless, sort := index.sort.map Key.roleless }

def LocalIndex.roleless (index : LocalIndex) : LocalIndex :=
  { index with sort := index.sort.roleless }

def GlobalIndexDeclaration.roleless : GlobalIndexDeclaration → GlobalIndexDeclaration
  | named partition => named partition
  | declared form => declared { form with
      partition := form.partition.roleless
      sort := form.sort.map KeyDeclaration.roleless }
  | built index => built index.roleless

def LocalIndexDeclaration.roleless : LocalIndexDeclaration → LocalIndexDeclaration
  | named sort => named sort
  | declared form => declared { form with sort := form.sort.roleless }
  | built index => built index.roleless

/-- The declaration without the roles that are written on its keys. -/
def TableDeclaration.roleless (declaration : TableDeclaration) : TableDeclaration :=
  { declaration with
    partition := declaration.partition.roleless
    sort := declaration.sort.map KeyDeclaration.roleless
    globalIndexes := declaration.globalIndexes.map GlobalIndexDeclaration.roleless
    localIndexes := declaration.localIndexes.map LocalIndexDeclaration.roleless }

/-- The table with all keys in one role. -/
def Table.roleless (table : Table) : Table :=
  { table with
    primary := ⟨table.primary.partition.roleless, table.primary.sort.map Key.roleless⟩
    localIndexes := table.localIndexes.map LocalIndex.roleless
    globalIndexes := table.globalIndexes.map GlobalIndex.roleless }

theorem GlobalIndex.keys_roleless (index : GlobalIndex) : index.roleless.keys = index.keys.map Key.roleless :=
  congrArg (index.partition.roleless :: ·) Option.toList_map

end Roleless

section Building

variable {attributes : Attributes} {table : String} {role : KeyRole}

namespace KeyDeclaration

variable {a b : KeyDeclaration}

/-- The role of a key is no matter of its name and of its type. -/
theorem sameResult_toKey (h : a.roleless = b.roleless) :
    SameResult (fun p q => p.roleless = q.roleless) (a.toKey role attributes) (b.toKey role attributes) := by
  have hname : ∀ declaration : KeyDeclaration, declaration.roleless.name = declaration.name := by
    rintro (_ | _ | _) <;> rfl
  have htext : ∀ declaration : KeyDeclaration,
      declaration.roleless.typeText attributes = declaration.typeText attributes := by
    rintro (_ | _ | _) <;> rfl
  have huntyped : ∀ declaration : KeyDeclaration, declaration.roleless.untyped = declaration.untyped := by
    rintro (_ | _ | _) <;> rfl
  rw [toKey_eq, toKey_eq, ← hname a, ← hname b, ← htext a, ← htext b, ← huntyped a, ← huntyped b, h]
  cases b.roleless.typeText attributes with
  | none => exact .given rfl
  | some text =>
    dsimp only
    cases Key.parseType text with
    | error e => exact .refused e
    | ok type => exact .given rfl

theorem sameResult_mapM_toKey {a b : Option KeyDeclaration} (h : a.map roleless = b.map roleless) :
    SameResult (fun p q => p.map Key.roleless = q.map Key.roleless) (a.mapM (·.toKey role attributes))
      (b.mapM (·.toKey role attributes)) := by
  cases a with
  | none =>
    cases b with
    | none => exact .given rfl
    | some b => cases h
  | some a =>
    cases b with
    | none => cases h
    | some b =>
      rw [Option.mapM_some, Option.mapM_some]
      exact (sameResult_toKey (Option.some.inj h)).bind fun p q hpq => .given (congrArg some hpq)

end KeyDeclaration

namespace GlobalIndexDeclaration

variable {a b : GlobalIndexDeclaration}

theorem roleless_partition (declaration : GlobalIndexDeclaration) :
    declaration.roleless.partition = declaration.partition.roleless := by
  cases declaration <;> rfl

theorem roleless_sort (declaration : GlobalIndexDeclaration) :
    declaration.roleless.sort = declaration.sort.map KeyDeclaration.roleless := by
  cases declaration with
  | named _ | declared _ => rfl
  | built index => cases hs : index.sort <;> simp [roleless, sort, GlobalIndex.roleless, KeyDeclaration.roleless, hs]

/-- An index that is named for its keys is named the same in whatever roles they are. -/
theorem sameResult_toIndex (h : a.roleless = b.roleless) :
    SameResult (fun i j => i.roleless = j.roleless) (a.toIndex table attributes) (b.toIndex table attributes) := by
  have hrest : ∀ declaration : GlobalIndexDeclaration, declaration.roleless.givenName = declaration.givenName ∧
      declaration.roleless.list = declaration.list ∧ declaration.roleless.projection = declaration.projection ∧
      declaration.roleless.capacity = declaration.capacity := by
    rintro (_ | _ | _) <;> exact ⟨rfl, rfl, rfl, rfl⟩
  obtain ⟨haname, halist, haprojection, hacapacity⟩ := hrest a
  obtain ⟨hbname, hblist, hbprojection, hbcapacity⟩ := hrest b
  have hpartition : a.partition.roleless = b.partition.roleless := by
    rw [← roleless_partition, ← roleless_partition, h]
  have hsort : a.sort.map KeyDeclaration.roleless = b.sort.map KeyDeclaration.roleless := by
    rw [← roleless_sort, ← roleless_sort, h]
  rw [toIndex_eq, toIndex_eq, ← haname, ← halist, ← haprojection, ← hacapacity, ← hbname, ← hblist, ← hbprojection,
    ← hbcapacity, h]
  refine (KeyDeclaration.sameResult_toKey hpartition).bind fun p q hpq => ?_
  refine (KeyDeclaration.sameResult_mapM_toKey hsort).bind fun s t hst => .given ?_
  have hpname : p.name = q.name := (congrArg Key.name hpq :)
  have hsnames : s.map Key.name = t.map Key.name := by
    have hmapped := congrArg (Option.map Key.name) hst
    rwa [Option.map_map, Option.map_map] at hmapped
  simp only [GlobalIndex.roleless, hpname, hsnames, hpq, hst]

end GlobalIndexDeclaration

namespace LocalIndexDeclaration

variable {a b : LocalIndexDeclaration}

theorem roleless_sort (declaration : LocalIndexDeclaration) :
    declaration.roleless.sort = declaration.sort.roleless := by
  cases declaration <;> rfl

theorem sameResult_toIndex (h : a.roleless = b.roleless) :
    SameResult (fun i j => i.roleless = j.roleless) (a.toIndex table attributes) (b.toIndex table attributes) := by
  have hrest : ∀ declaration : LocalIndexDeclaration, declaration.roleless.givenName = declaration.givenName ∧
      declaration.roleless.projection = declaration.projection := by
    rintro (_ | _ | _) <;> exact ⟨rfl, rfl⟩
  obtain ⟨haname, haprojection⟩ := hrest a
  obtain ⟨hbname, hbprojection⟩ := hrest b
  have hsort : a.sort.roleless = b.sort.roleless := by
    rw [← roleless_sort, ← roleless_sort, h]
  rw [toIndex_eq, toIndex_eq, ← haname, ← haprojection, ← hbname, ← hbprojection, h]
  refine (KeyDeclaration.sameResult_toKey hsort).bind fun s t hst => .given ?_
  have hname : s.name = t.name := (congrArg Key.name hst :)
  simp only [LocalIndex.roleless, hname, hst]

end LocalIndexDeclaration

end Building

namespace Table

variable {a b : TableDeclaration} {label : Option String}

/-- Whatever else is declared is the same, so the tables differ at most in the roles of their keys. -/
theorem sameResult_assemble (h : a.roleless = b.roleless) :
    SameResult (fun s t => s.roleless = t.roleless) (assemble a label) (assemble b label) := by
  have hname : a.name = b.name := (congrArg TableDeclaration.name h :)
  have hdisplay : displayNameOf label a = displayNameOf label b := (congrArg (displayNameOf label) h :)
  have hattributes : a.attributes = b.attributes := (congrArg TableDeclaration.attributes h :)
  have hsettings : a.settings = b.settings := (congrArg TableDeclaration.settings h :)
  have hflags : TableFlags.resolve a.scan a.auto a.query a.mutation a.subscription =
      TableFlags.resolve b.scan b.auto b.query b.mutation b.subscription :=
    (congrArg (fun d : TableDeclaration => TableFlags.resolve d.scan d.auto d.query d.mutation d.subscription) h :)
  have hglobals := map_eq_map_iff.1 (congrArg TableDeclaration.globalIndexes h)
  have hlocals := map_eq_map_iff.1 (congrArg TableDeclaration.localIndexes h)
  simp only [assemble, hname, hdisplay, hattributes, hsettings, hflags]
  refine (KeyDeclaration.sameResult_toKey (congrArg TableDeclaration.partition h)).bind fun p q hpq => ?_
  refine (KeyDeclaration.sameResult_mapM_toKey (congrArg TableDeclaration.sort h)).bind fun s t hst => ?_
  refine (SameResult.mapM (hlocals.imp fun _ _ => LocalIndexDeclaration.sameResult_toIndex)).bind fun ls ms hl => ?_
  refine (SameResult.mapM (hglobals.imp fun _ _ => GlobalIndexDeclaration.sameResult_toIndex)).bind fun gs ks hg => ?_
  refine .given ?_
  simp only [roleless, hpq, hst, map_eq_map_iff.2 hl, map_eq_map_iff.2 hg]

section Invariance

theorem primaryKeys_roleless (table : Table) :
    table.roleless.primary.keys = table.primary.keys.map Key.roleless :=
  congrArg (table.primary.partition.roleless :: ·) Option.toList_map

theorem allKeys_roleless (table : Table) : table.roleless.allKeys = table.allKeys.map Key.roleless := by
  have hglobals : table.roleless.globalIndexes.flatMap GlobalIndex.keys =
      (table.globalIndexes.flatMap GlobalIndex.keys).map Key.roleless := by
    simp only [roleless, List.flatMap_map, List.map_flatMap, GlobalIndex.keys_roleless]
  have hlocals : table.roleless.localIndexes.map LocalIndex.sort =
      (table.localIndexes.map LocalIndex.sort).map Key.roleless := by
    rw [List.map_map]
    exact List.map_map
  rw [allKeys, primaryKeys_roleless, hglobals, hlocals, allKeys, List.map_append, List.map_append]

theorem complaints_roleless (table : Table) : table.roleless.complaints = table.complaints := by
  have hkey : ∀ (use : KeyUse) (key : Key),
      keyComplaints table.attributes use key.roleless = keyComplaints table.attributes use key := fun _ _ => rfl
  have hglobal : ∀ index : GlobalIndex, indexComplaints table.attributes index.roleless.name index.roleless.keys =
      indexComplaints table.attributes index.name index.keys := by
    intro index
    rw [GlobalIndex.keys_roleless, indexComplaints, List.flatMap_map]
    rfl
  have hlocal : ∀ index : LocalIndex, indexComplaints table.attributes index.roleless.name [index.roleless.sort] =
      indexComplaints table.attributes index.name [index.sort] := fun _ => rfl
  simp only [complaints, roleless, Option.toList_map, List.flatMap_map, hkey, hglobal, hlocal]

theorem sortName_roleless (table : Table) :
    table.roleless.primary.sort.map Key.name = table.primary.sort.map Key.name :=
  Option.map_map _ _ _

/-- An argument has the name and the type of its key, and the role of the place. -/
theorem primaryArguments_roleless (table : Table) : table.roleless.primaryArguments = table.primaryArguments :=
  congrArg (fun sort => KeyArgument.partition table.primary.partition :: Option.toList sort)
    (Option.map_map KeyArgument.sort Key.roleless table.primary.sort)

theorem globalOperations_roleless (table : Table) (index : GlobalIndex) :
    table.roleless.globalOperations index.roleless = table.globalOperations index := by
  have hpartition : table.roleless.globalPartitionOperation index.roleless = table.globalPartitionOperation index := by
    cases hs : index.sort <;> simp only [globalPartitionOperation, GlobalIndex.roleless, hs] <;> rfl
  have hsort : index.roleless.sort.map (table.roleless.globalSortOperation index.roleless) =
    index.sort.map (table.globalSortOperation index) := Option.map_map _ _ _
  rw [globalOperations, hpartition, hsort]
  rfl

theorem queryCandidates_roleless (table : Table) : table.roleless.queryCandidates = table.queryCandidates := by
  have hget : table.roleless.getOperation = table.getOperation := by
    rw [getOperation, sortName_roleless, primaryArguments_roleless]
    rfl
  have hglobals : table.roleless.globalIndexes.flatMap table.roleless.globalOperations =
      table.globalIndexes.flatMap table.globalOperations :=
    (List.flatMap_map _ _ _).trans (List.flatMap_congr fun index _ => globalOperations_roleless table index)
  have hlocals : table.roleless.localIndexes.map table.roleless.localOperation =
    table.localIndexes.map table.localOperation := List.map_map
  have hlists : table.roleless.primary.sort.isSome = table.primary.sort.isSome := Option.isSome_map
  have hempty : table.roleless.globalIndexes.isEmpty = table.globalIndexes.isEmpty := List.isEmpty_map
  rw [queryCandidates, hget, hglobals, hlocals, hlists, hempty]
  rfl

theorem mutationCandidates_roleless (table : Table) :
    table.roleless.mutationCandidates = table.mutationCandidates := by
  have hnames : table.roleless.primary.names = table.primary.names := by
    rw [PrimaryKey.names, primaryKeys_roleless, List.map_map]
    rfl
  have hinput : table.roleless.inputTypeName = table.inputTypeName := by
    simp only [inputTypeName, inputAttributes, hnames]
    rfl
  rw [mutationCandidates, createOperation, putOperation, deleteOperation, primaryArguments_roleless, hinput]
  rfl

theorem plan_roleless (table : Table) : table.roleless.plan = table.plan := by
  have hchange : table.roleless.changeOperation = table.changeOperation := by
    rw [changeOperation, primaryArguments_roleless]
    rfl
  rw [plan, candidates, queryCandidates_roleless, mutationCandidates_roleless, hchange]
  rfl

theorem bindings_roleless (table : Table) (operations : List Operation) :
    table.roleless.bindings operations = table.bindings operations := rfl

theorem describe_roleless (table : Table) : table.roleless.describe = table.describe := by
  have hattributes : table.roleless.allKeys.map Key.toAttribute = table.allKeys.map Key.toAttribute := by
    rw [allKeys_roleless, List.map_map]
    rfl
  have hsort : table.roleless.primary.sort.map Key.toAttribute = table.primary.sort.map Key.toAttribute :=
    Option.map_map _ _ _
  have hglobals : table.roleless.globalIndexes.map GlobalIndex.describe =
      table.globalIndexes.map GlobalIndex.describe := by
    refine List.map_map.trans (List.map_congr_left fun index _ => ?_)
    simp only [Function.comp_apply, GlobalIndex.describe, GlobalIndex.roleless, Option.map_map]
    rfl
  have hlocals : table.roleless.localIndexes.map LocalIndex.describe =
    table.localIndexes.map LocalIndex.describe := List.map_map
  rw [describe, hsort, hattributes, hglobals, hlocals]
  rfl

end Invariance

/-- What keeps a declaration from becoming a table does not tell its roles, and neither does the table. -/
theorem sameResult_roles (h : a.roleless = b.roleless) :
    SameResult (fun s t => s.roleless = t.roleless) (ofDeclaration a label) (ofDeclaration b label) := by
  refine (sameResult_assemble h).bind fun s t hst => ?_
  have hcomplaints : s.complaints = t.complaints := by
    rw [← complaints_roleless, hst, complaints_roleless]
  rw [check, check, hcomplaints]
  cases t.complaints with
  | nil => exact .given hst
  | cons e _ => exact .refused e

end Table

section Places

/-- A partition key always comes first, with at most a sort key after it. -/
theorem Candidate.roles_in_order {table : Table} {o : Operation} (h : Candidate table o) :
    o.keys.map KeyArgument.role <+: [.partition, .sort] := by
  have hprimary : table.primaryArguments.map KeyArgument.role <+: [.partition, .sort] := by
    unfold Table.primaryArguments
    cases table.primary.sort with
    | none => exact List.prefix_append _ _
    | some sort => exact List.prefix_rfl
  cases h with
  | scan | create => exact List.nil_prefix
  | get | put | delete | change => exact hprimary
  | list | globalPartition => exact List.prefix_append _ _
  | globalSort | localSort => exact List.prefix_rfl

namespace GlobalIndexDeclaration

/-- The names of the keys, each in its place. -/
def places (declaration : GlobalIndexDeclaration) : String × Option String :=
  (declaration.partition.name, declaration.sort.map KeyDeclaration.name)

theorem places_of_toIndex {declaration : GlobalIndexDeclaration} {index : GlobalIndex} {table : String}
    {attributes : Attributes} (h : declaration.toIndex table attributes = .ok index) :
    (index.partition.name, index.sort.map Key.name) = declaration.places := by
  have hnames := KeyDeclaration.names_of_reads (toIndex_reads h)
  rw [keys_eq, GlobalIndex.keys, List.map_cons, List.map_cons, ← Option.toList_map, ← Option.toList_map] at hnames
  obtain ⟨hpartition, hsort⟩ := List.cons.inj hnames
  have hsortName : index.sort.map Key.name = declaration.sort.map KeyDeclaration.name := by
    simpa using congrArg List.head? hsort
  rw [places, hpartition, hsortName]

end GlobalIndexDeclaration

/-- The keys that are declared in the place of a role, for the table or for an index. -/
def TableDeclaration.keysAt (declaration : TableDeclaration) : KeyRole → List KeyDeclaration
  | .partition => declaration.partition :: declaration.globalIndexes.map GlobalIndexDeclaration.partition
  | .sort => declaration.sort.toList ++ declaration.globalIndexes.flatMap (·.sort.toList) ++
      declaration.localIndexes.map LocalIndexDeclaration.sort

namespace Table

variable {declaration : TableDeclaration} {table : Table}

/-- Every key is used in the place in which it is declared, by storage and by the operations. -/
structure KeysInPlace (declaration : TableDeclaration) (table : Table) : Prop where
  partition : table.describe.partition.name = declaration.partition.name
  sort : table.describe.sort.map KeyAttribute.name = declaration.sort.map KeyDeclaration.name
  globalIndexes : table.describe.globalIndexes.map (fun index => (index.partition.name,
    index.sort.map KeyAttribute.name)) = declaration.globalIndexes.map GlobalIndexDeclaration.places
  localIndexes : table.describe.localIndexes.map (·.sort.name) = declaration.localIndexes.map (·.sort.name)
  roles : ∀ o ∈ table.plan, o.keys.map KeyArgument.role <+: [.partition, .sort]
  arguments : ∀ o ∈ table.plan, ∀ argument ∈ o.keys,
    ∃ key ∈ declaration.keysAt argument.role, key.name = argument.name

namespace Assembled

theorem sortName (h : Assembled declaration table) :
    table.primary.sort.map Key.name = declaration.sort.map KeyDeclaration.name := by
  have hnames := KeyDeclaration.names_of_reads
    ((Except.mapM_toList_ok_iff.1 h.sort).imp fun _ _ => KeyDeclaration.toKey_reads)
  rw [← Option.toList_map, ← Option.toList_map] at hnames
  simpa using congrArg List.head? hnames

theorem globalPlaces (h : Assembled declaration table) :
    table.globalIndexes.map (fun index => (index.partition.name, index.sort.map Key.name)) =
      declaration.globalIndexes.map GlobalIndexDeclaration.places :=
  Except.map_eq_of_mapM_ok (Except.mapM_ok_iff.2 h.globalIndexes)
    fun _ _ => GlobalIndexDeclaration.places_of_toIndex

theorem localNames (h : Assembled declaration table) :
    table.localIndexes.map (·.sort.name) = declaration.localIndexes.map (·.sort.name) :=
  Except.map_eq_of_mapM_ok (Except.mapM_ok_iff.2 h.localIndexes)
    fun _ _ hi => (LocalIndexDeclaration.toIndex_reads hi).1

theorem names_at (h : Assembled declaration table) (role : KeyRole) :
    (table.keysAt role).map Key.name = (declaration.keysAt role).map KeyDeclaration.name := by
  cases role with
  | partition =>
    have hglobals := congrArg (List.map Prod.fst) h.globalPlaces
    have hpartition := (KeyDeclaration.toKey_reads h.partition).1
    simp only [List.map_map, Function.comp_def, GlobalIndexDeclaration.places] at hglobals
    simp only [keysAt, TableDeclaration.keysAt, List.map_cons, List.map_map, Function.comp_def, hpartition, hglobals]
  | sort =>
    have hglobals := congrArg (List.flatMap fun places => places.2.toList) h.globalPlaces
    simp only [List.flatMap_map, GlobalIndexDeclaration.places] at hglobals
    simp only [keysAt, TableDeclaration.keysAt, List.map_append, List.map_flatMap, List.map_map, Function.comp_def,
      ← Option.toList_map, h.sortName, hglobals, h.localNames]

/-- The place alone decides what a key is used as. -/
theorem keysInPlace (h : Assembled declaration table) : KeysInPlace declaration table where
  partition := (KeyDeclaration.toKey_reads h.partition).1
  sort := by
    rw [← h.sortName]
    exact Option.map_map _ _ _
  globalIndexes := by
    rw [← h.globalPlaces]
    refine List.map_map.trans (List.map_congr_left fun index _ => ?_)
    simp only [Function.comp_apply, GlobalIndex.describe, Option.map_map]
    rfl
  localIndexes := by
    rw [← h.localNames]
    exact List.map_map
  roles := fun o ho => (candidate_of_mem_plan ho).roles_in_order
  arguments := by
    intro o ho argument ha
    obtain ⟨key, hk, hsame⟩ := (candidate_of_mem_plan ho).exists_ofKey ha
    have hname : key.name ∈ (declaration.keysAt argument.role).map KeyDeclaration.name := by
      rw [← h.names_at]
      exact List.mem_map_of_mem hk
    rw [← hsame]
    exact List.mem_map.1 hname

end Assembled

/-- Declarations that differ in no more than the roles written on their keys are refused for one reason, or both become
tables, of one plan, with the same resolvers and the same storage. In these a key is used in the place in which it is
declared. -/
theorem ofDeclaration_roles {a b : TableDeclaration} (h : a.roleless = b.roleless) (label : Option String) :
    SameResult (fun s t => s.plan = t.plan ∧ s.bindings s.plan = t.bindings t.plan ∧ s.describe = t.describe)
      (ofDeclaration a label) (ofDeclaration b label) ∧
    ∀ table, ofDeclaration a label = .ok table → KeysInPlace a table := by
  refine ⟨(sameResult_roles h).imp fun s t hst => ?_, fun table ht => (assembled_of_declaration ht).keysInPlace⟩
  have hplan : s.plan = t.plan := by
    rw [← plan_roleless, hst, plan_roleless]
  have hdescribe : s.describe = t.describe := by
    rw [← describe_roleless, hst, describe_roleless]
  refine ⟨hplan, ?_, hdescribe⟩
  rw [hplan, ← bindings_roleless, hst, bindings_roleless]

end Table

end Places

/-- With the roles the wrong way round on all keys the events are planned, bound and stored as with the right ones. -/
theorem builtEvents_roles : ∃ s t, Table.ofDeclaration (builtEvents .sort .partition) none = .ok s ∧
    Table.ofDeclaration (builtEvents .partition .sort) none = .ok t ∧ s ≠ t ∧
    s.plan = t.plan ∧ s.bindings s.plan = t.bindings t.plan ∧ s.describe = t.describe ∧
    Table.KeysInPlace (builtEvents .sort .partition) s := by
  have hroles : (builtEvents .sort .partition).roleless = (builtEvents .partition .sort).roleless := rfl
  obtain ⟨hsame, hplaces⟩ := Table.ofDeclaration_roles hroles none
  obtain ⟨s, hs, hdeclared⟩ :=
    Except.exists_ok_of_decide (x := Table.ofDeclaration (builtEvents .sort .partition) none)
      (p := fun table => table.primary.partition.role = .sort) (by decide +kernel)
  obtain ⟨t, ht, hother⟩ :=
    Except.exists_ok_of_decide (x := Table.ofDeclaration (builtEvents .partition .sort) none)
      (p := fun table => table.primary.partition.role = .partition) (by decide +kernel)
  rw [hs, ht] at hsame
  obtain ⟨hplan, hbindings, hdescribe⟩ : s.plan = t.plan ∧ s.bindings s.plan = t.bindings t.plan ∧
      s.describe = t.describe := by
    cases hsame with
    | given h => exact h
  have hne : s ≠ t := by
    rintro rfl
    cases hdeclared.symm.trans hother
  exact ⟨s, t, hs, ht, hne, hplan, hbindings, hdescribe, hplaces s hs⟩

end TableApi
