import TableApi.Proofs.IndexReach

/-! Which names the operations of a table have. Every name that is called for is taken, by the first operation
that is called for under it. Of two operations with one name the later runs against an index; those of the table
itself are all there. -/
namespace TableApi

/-- The names that flags, keys and indexes call for. -/
inductive CalledFor (table : Table) : String → Prop
  | scan : table.flags.query → table.flags.scan → CalledFor table ("scan" ++ table.baseName)
  | get : table.flags.query →
      CalledFor table ("get" ++ table.baseName ++ "By" ++ spelling table.primary.names)
  | list : table.flags.query → table.primary.sort.isSome →
      CalledFor table ("list" ++ table.baseName ++ "By" ++ spelling [table.primary.partition.name])
  | globalPartition {index : GlobalIndex} : table.flags.query → index ∈ table.globalIndexes →
      CalledFor table ((if index.sort.isSome || index.list then "list" else "get") ++ table.baseName ++ "By" ++
        spelling [index.partition.name])
  | globalSort {index : GlobalIndex} {sort : Key} : table.flags.query → index ∈ table.globalIndexes →
      index.sort = some sort →
      CalledFor table ("get" ++ table.baseName ++ "By" ++ spelling [index.partition.name, sort.name])
  | localSort {index : LocalIndex} : table.flags.query → table.globalIndexes ≠ [] →
      index ∈ table.localIndexes →
      CalledFor table ("get" ++ table.baseName ++ "By" ++
        spelling [table.primary.partition.name, index.sort.name])
  | create : table.flags.mutation → table.flags.auto → CalledFor table ("create" ++ table.baseName)
  | put : table.flags.mutation → CalledFor table ("put" ++ table.baseName)
  | delete : table.flags.mutation → CalledFor table ("delete" ++ table.baseName)
  | change : table.flags.subscription → CalledFor table ("on" ++ table.baseName ++ "Change")

/-- The operations that run against the table itself and not against one of its indexes. -/
def Table.ownOperations (table : Table) : List Operation :=
  [table.scanOperation, table.getOperation, table.listOperation, table.createOperation, table.putOperation,
    table.deleteOperation, table.changeOperation]

theorem Table.index_of_mem_own {table : Table} {o : Operation} (h : o ∈ table.ownOperations) :
    o.index = none := by
  simp only [ownOperations, List.mem_cons, List.not_mem_nil, or_false] at h
  rcases h with rfl | rfl | rfl | rfl | rfl | rfl | rfl <;> rfl

theorem calledFor_iff {table : Table} {name : String} :
    CalledFor table name ↔ ∃ o, Candidate table o ∧ o.name = name := by
  constructor
  · intro h
    cases h with
    | scan hq hs => exact ⟨_, .scan hq hs, rfl⟩
    | get hq => exact ⟨_, .get hq, table.getOperation_name⟩
    | list hq hs => exact ⟨_, .list hq hs, table.listOperation_name⟩
    | globalPartition hq hi => exact ⟨_, .globalPartition hq hi, table.globalPartitionOperation_name _⟩
    | globalSort hq hi hs => exact ⟨_, .globalSort hq hi hs, table.globalSortOperation_name _ _⟩
    | localSort hq hg hi => exact ⟨_, .localSort hq hg hi, table.localOperation_name _⟩
    | create hm ha => exact ⟨_, .create hm ha, rfl⟩
    | put hm => exact ⟨_, .put hm, rfl⟩
    | delete hm => exact ⟨_, .delete hm, rfl⟩
    | change hs => exact ⟨_, .change hs, rfl⟩
  · rintro ⟨o, h, rfl⟩
    cases h with
    | scan hq hs => exact .scan hq hs
    | get hq => exact table.getOperation_name ▸ .get hq
    | list hq hs => exact table.listOperation_name ▸ .list hq hs
    | globalPartition hq hi => exact table.globalPartitionOperation_name _ ▸ .globalPartition hq hi
    | globalSort hq hi hs => exact table.globalSortOperation_name _ _ ▸ .globalSort hq hi hs
    | localSort hq hg hi => exact table.localOperation_name _ ▸ .localSort hq hg hi
    | create hm ha => exact .create hm ha
    | put hm => exact .put hm
    | delete hm => exact .delete hm
    | change hs => exact .change hs

namespace Table

variable {table : Table} {o : Operation}

theorem kind_of_mem_queries (h : o ∈ table.queryCandidates) : o.kind.root = .query := by
  simp only [mem_queryCandidates_iff, mem_globalOperations_iff] at h
  obtain ⟨_, rfl⟩ | rfl | ⟨_, rfl⟩ | ⟨_, _, rfl | ⟨_, _, rfl⟩⟩ | ⟨_, _, _, rfl⟩ := h <;> rfl

/-- A verb that is not one of a query is looked for after the queries. -/
theorem find?_candidates_of_verb {verb : String} (h : verb ∉ ["scan", "get", "list"]) :
    table.candidates.find? (·.verb = verb) =
      ((if table.flags.mutation then table.mutationCandidates else []) ++
        if table.flags.subscription then [table.changeOperation] else []).find? (·.verb = verb) := by
  have hqueries : (if table.flags.query then table.queryCandidates else []).find? (·.verb = verb) = none := by
    rw [List.find?_eq_none]
    intro o ho hv
    have hquery := Operation.verb_of_query (kind_of_mem_queries (List.mem_ite_nil_right.1 ho).2)
    exact h (of_decide_eq_true hv ▸ hquery)
  rw [candidates, List.append_assoc, List.find?_append, hqueries, Option.none_or]

/-- An operation on the table itself is the first of its verb. -/
theorem first_of_verb (h : Candidate table o) (hi : o.index = none) :
    table.candidates.find? (·.verb = o.verb) = some o := by
  cases h with
  | globalPartition | globalSort | localSort => cases hi
  | scan hq hs => simp [candidates, queryCandidates, hq, hs]
  | get hq => cases hs : table.flags.scan <;> simp [candidates, queryCandidates, hq, hs]
  | list hq hsort => cases hs : table.flags.scan <;> simp [candidates, queryCandidates, hq, hs, hsort]
  | create hm ha =>
    rw [find?_candidates_of_verb (by simp)]
    simp [mutationCandidates, hm, ha]
  | put hm =>
    rw [find?_candidates_of_verb (by simp)]
    cases ha : table.flags.auto <;> simp [mutationCandidates, hm, ha]
  | delete hm =>
    rw [find?_candidates_of_verb (by simp)]
    cases ha : table.flags.auto <;> simp [mutationCandidates, hm, ha]
  | change hs =>
    rw [find?_candidates_of_verb (by simp)]
    cases table.flags.mutation <;> cases ha : table.flags.auto <;> simp [mutationCandidates, hs, ha]

/-- As operations of one name have one verb, nothing can take the name of an operation on the table itself. -/
theorem mem_plan_of_own (h : Candidate table o) (hi : o.index = none) : o ∈ table.plan := by
  refine mem_firstByName_of_first (first_of_verb h hi) ?_
  intro p hp hname
  exact decide_eq_true ((mem_candidates_iff.1 hp).verb_eq_of_name h hname)

/-- The names of the planned operations are different, and they are all those that are called for. The
plan keeps the order of the candidates and of each name the first. It always keeps those that run against
no index. -/
theorem planned_names (table : Table) :
    (table.plan.map Operation.name).Nodup ∧
    (∀ name, name ∈ table.plan.map Operation.name ↔ CalledFor table name) ∧
    table.plan.Sublist table.candidates ∧
    (∀ o, o ∈ table.plan ↔ table.candidates.find? (·.name = o.name) = some o) ∧
    ∀ o ∈ table.ownOperations, (o ∈ table.plan ↔ Candidate table o) := by
  have hnames : ∀ name, name ∈ table.plan.map Operation.name ↔ CalledFor table name := by
    intro name
    rw [plan, mem_names_firstByName, calledFor_iff, List.mem_map]
    simp only [mem_candidates_iff]
  refine ⟨table.plan_names_nodup, hnames, firstByName_sublist _ _, fun o => mem_firstByName_iff, ?_⟩
  intro o ho
  exact ⟨candidate_of_mem_plan, fun hc => mem_plan_of_own hc (index_of_mem_own ho)⟩

end Table

/-- Dogs by their breed, and once more by the key of the table. -/
def rekeyedDogs : TableDeclaration :=
  { TableDeclaration.ofName "Dog" (.named "dogId") with
    attributes := some (.typed (.ofList [("dogId", "ID!"), ("breed", "String")]))
    globalIndexes := [.named "breed", .named "dogId"] }

/-- The query of the second index would have the name of the look-up by key, which the plan keeps. -/
theorem rekeyedDogs_planned : ∃ table, Table.ofDeclaration rekeyedDogs none = .ok table ∧
    table.candidates.map Operation.name =
      ["getDogByDogId", "getDogByBreed", "getDogByDogId", "putDog", "deleteDog"] ∧
    table.plan.map Operation.name = ["getDogByDogId", "getDogByBreed", "putDog", "deleteDog"] ∧
    table.getOperation ∈ table.plan := by
  obtain ⟨table, ht, hcandidates, hplan, hquery⟩ :=
    Except.exists_ok_of_decide (x := Table.ofDeclaration rekeyedDogs none)
      (p := fun table => table.candidates.map Operation.name =
          ["getDogByDogId", "getDogByBreed", "getDogByDogId", "putDog", "deleteDog"] ∧
        table.plan.map Operation.name = ["getDogByDogId", "getDogByBreed", "putDog", "deleteDog"] ∧
        table.flags.query) (by decide +kernel)
  have hown := table.planned_names.2.2.2.2 table.getOperation (by simp [Table.ownOperations])
  exact ⟨table, ht, hcandidates, hplan, hown.2 (.get hquery)⟩

end TableApi
