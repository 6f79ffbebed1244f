import TableApi.Proofs.FirstOfName
import TableApi.Proofs.Plan
import TableApi.Proofs.Updating

/-! By which keys of its indexes a table can be queried. The name of an operation spells the names of its
keys, and other keys may spell the same; of such operations the plan takes the first. -/
namespace TableApi

/-- How keys stand in the name of an operation. -/
def spelling (keys : List String) : String :=
  String.intercalate "And" (keys.map Text.capitalize)

/-- No keys that spell the same stand before. -/
def FirstSpelt (asked : List (List String)) (keys : List String) : Prop :=
  asked.find? (spelling · = spelling keys) = some keys

def SpeltApart (asked : List (List String)) : Prop :=
  ∀ keys ∈ asked, ∀ others ∈ asked, spelling keys = spelling others → keys = others

instance (asked : List (List String)) (keys : List String) : Decidable (FirstSpelt asked keys) := by
  unfold FirstSpelt
  infer_instance

instance (asked : List (List String)) : Decidable (SpeltApart asked) := by
  unfold SpeltApart
  infer_instance

theorem SpeltApart.first {asked : List (List String)} {keys : List String} (h : SpeltApart asked)
    (hk : keys ∈ asked) : FirstSpelt asked keys :=
  mem_firstByName_iff.1 (forall_mem_firstByName_iff.2 h keys hk)

namespace Operation

variable {operation : Operation}

def keyNames (operation : Operation) : List String :=
  operation.keys.map KeyArgument.name

/-- The operation asks for an item or for items by their keys. -/
def ByKeys (operation : Operation) : Prop :=
  operation.kind = .getItem ∨ operation.kind = .query

theorem byKeys_iff_verb : operation.ByKeys ↔ operation.verb ∈ ["get", "list"] := by
  unfold verb ByKeys
  cases hk : operation.kind <;> cases hc : operation.cardinality <;> simp

end Operation

namespace Table

variable {table : Table}

theorem names_primaryArguments (table : Table) :
    table.primaryArguments.map KeyArgument.name = table.primary.names := by
  unfold primaryArguments PrimaryKey.names PrimaryKey.keys
  cases table.primary.sort <;> rfl

theorem operationName_spelt (table : Table) (verb partition : String) (sort : Option String) :
    table.operationName verb partition sort =
      verb ++ table.baseName ++ "By" ++ spelling (partition :: sort.toList) := by
  cases sort <;> simp [operationName, spelling, String.intercalate_cons_cons, String.append_assoc]

theorem getOperation_name (table : Table) :
    table.getOperation.name = "get" ++ table.baseName ++ "By" ++ spelling table.primary.names := by
  have hnames : table.primary.names =
      table.primary.partition.name :: (table.primary.sort.map Key.name).toList := by
    unfold PrimaryKey.names PrimaryKey.keys
    cases table.primary.sort <;> rfl
  rw [hnames]
  exact table.operationName_spelt _ _ _

theorem listOperation_name (table : Table) : table.listOperation.name =
    "list" ++ table.baseName ++ "By" ++ spelling [table.primary.partition.name] :=
  table.operationName_spelt _ _ none

theorem globalPartitionOperation_name (table : Table) (index : GlobalIndex) :
    (table.globalPartitionOperation index).name =
      (if index.sort.isSome || index.list then "list" else "get") ++ table.baseName ++ "By" ++
        spelling [index.partition.name] :=
  table.operationName_spelt _ _ none

theorem globalSortOperation_name (table : Table) (index : GlobalIndex) (sort : Key) :
    (table.globalSortOperation index sort).name =
      "get" ++ table.baseName ++ "By" ++ spelling [index.partition.name, sort.name] :=
  table.operationName_spelt _ _ (some _)

theorem localOperation_name (table : Table) (index : LocalIndex) : (table.localOperation index).name =
    "get" ++ table.baseName ++ "By" ++ spelling [table.primary.partition.name, index.sort.name] :=
  table.operationName_spelt _ _ (some _)

end Table

namespace Candidate

variable {table : Table} {o p : Operation}

theorem byKeys_iff (h : Candidate table o) : o.ByKeys ↔ o.root = .query ∧ o.keys ≠ [] := by
  rw [h.root_eq, ne_eq, h.keys_eq_nil_iff, Operation.ByKeys]
  cases o.kind <;> simp [OperationKind.root]

theorem name_spelt (h : Candidate table o) (hk : o.ByKeys) :
    o.name = o.verb ++ table.baseName ++ "By" ++ spelling o.keyNames := by
  cases h with
  | scan | create | put | delete | change => rcases hk with hk | hk <;> cases hk
  | get =>
    have hkeys : table.getOperation.keyNames = table.primary.names := table.names_primaryArguments
    rw [hkeys]
    exact table.getOperation_name
  | list => exact table.listOperation_name
  | globalPartition =>
    rw [Table.verb_globalPartition]
    exact table.globalPartitionOperation_name _
  | globalSort => exact table.globalSortOperation_name _ _
  | localSort => exact table.localOperation_name _

theorem byKeys_of_verb_eq (h : Candidate table o) (g : Candidate table p) (hv : o.verb = p.verb)
    (hk : p.ByKeys) : o.ByKeys := by
  obtain ⟨hroot, hkind⟩ := Operation.root_of_verb hv
  rw [h.byKeys_iff, h.root_eq, ne_eq, h.keys_eq_nil_iff, hroot, hkind, ← g.root_eq, ← g.keys_eq_nil_iff]
  exact g.byKeys_iff.1 hk

/-- The name tells the verb and the spelling, and nothing more. -/
theorem name_eq_iff (h : Candidate table o) (g : Candidate table p) (hk : p.ByKeys) :
    o.name = p.name ↔ o.verb = p.verb ∧ spelling o.keyNames = spelling p.keyNames := by
  have hspelt : o.verb = p.verb → (o.name = p.name ↔ spelling o.keyNames = spelling p.keyNames) := by
    intro hv
    rw [h.name_spelt (h.byKeys_of_verb_eq g hv hk), g.name_spelt hk, hv]
    exact String.append_right_inj _
  constructor
  · intro hn
    have hv := h.verb_eq_of_name g hn
    exact ⟨hv, (hspelt hv).1 hn⟩
  · intro hboth
    exact (hspelt hboth.1).2 hboth.2

end Candidate

namespace Table

variable {table : Table} {o : Operation} {keys : List String}

/-- The keys that candidates with a verb ask for, in order. -/
def askedUnder (table : Table) (verb : String) : List (List String) :=
  (table.queryCandidates.filter (·.verb = verb)).map Operation.keyNames

/-- The keys of the indexes; those of local indexes count only beside a global index. -/
def indexKeys (table : Table) : List (List String) :=
  table.globalIndexes.flatMap (fun index =>
    [index.partition.name] :: (index.sort.map fun sort => [index.partition.name, sort.name]).toList) ++
  if table.globalIndexes.isEmpty then []
  else table.localIndexes.map fun index => [table.primary.partition.name, index.sort.name]

/-- A query of the plan asks for exactly these keys. -/
def Reaches (table : Table) (keys : List String) : Prop :=
  ∃ o ∈ table.plan, o.root = .query ∧ o.keyNames = keys

theorem mem_queryCandidates_of_root (hc : Candidate table o) (hr : o.root = .query) :
    table.flags.query ∧ o ∈ table.queryCandidates := by
  have hm := mem_candidates_iff.2 hc
  simp only [candidates, List.mem_append, List.mem_ite_nil_right, List.mem_singleton,
    mem_mutationCandidates_iff] at hm
  rcases hm with (hm | ⟨_, ⟨_, rfl⟩ | rfl | rfl⟩) | ⟨_, rfl⟩
  · exact hm
  all_goals cases hr

theorem candidate_of_mem_queries (hq : table.flags.query) (ho : o ∈ table.queryCandidates) :
    Candidate table o := by
  apply mem_candidates_iff.1
  simp [candidates, hq, ho]

/-- Of the candidates with a name the first is the first that asks under its verb for keys so spelt. -/
theorem find?_candidates (hq : table.flags.query) (ho : o ∈ table.queryCandidates) (hk : o.ByKeys) :
    table.candidates.find? (·.name = o.name) =
      (table.queryCandidates.filter (·.verb = o.verb)).find?
        fun p => spelling p.keyNames = spelling o.keyNames := by
  have hfound : (table.queryCandidates.find? (·.name = o.name)).isSome :=
    List.find?_isSome.2 ⟨o, ho, decide_eq_true rfl⟩
  -- queries stand before all other candidates
  have hfirst : table.candidates.find? (·.name = o.name) =
      table.queryCandidates.find? (·.name = o.name) := by
    rw [candidates, if_pos hq, List.append_assoc, List.find?_append, Option.or_of_isSome hfound]
  rw [hfirst, List.find?_filter]
  apply List.find?_congr
  intro p hp
  simp [(candidate_of_mem_queries hq hp).name_eq_iff (candidate_of_mem_queries hq ho) hk]

/-- The keys that a table can be queried by are those that come first of their spelling under a verb. -/
theorem reaches_iff (hq : table.flags.query) (hne : keys ≠ []) :
    table.Reaches keys ↔ ∃ verb ∈ ["get", "list"], FirstSpelt (table.askedUnder verb) keys := by
  have hasked : ∀ verb, FirstSpelt (table.askedUnder verb) keys ↔
      ∃ o, (table.queryCandidates.filter (·.verb = verb)).find?
        (fun p => spelling p.keyNames = spelling keys) = some o ∧ o.keyNames = keys := by
    intro verb
    rw [FirstSpelt, askedUnder, List.find?_map, Option.map_eq_some_iff]
    rfl
  constructor
  · rintro ⟨o, ho, hroot, rfl⟩
    have hc := candidate_of_mem_plan ho
    have hk : o.ByKeys := hc.byKeys_iff.2 ⟨hroot, fun hnil => hne (by simp [Operation.keyNames, hnil])⟩
    have hfirst := mem_firstByName_iff.1 ho
    rw [find?_candidates hq (mem_queryCandidates_of_root hc hroot).2 hk] at hfirst
    exact ⟨o.verb, Operation.byKeys_iff_verb.1 hk, (hasked _).2 ⟨o, hfirst, rfl⟩⟩
  · rintro ⟨verb, hverb, hfirst⟩
    obtain ⟨o, ho, rfl⟩ := (hasked verb).1 hfirst
    obtain ⟨hmem, hv⟩ := List.mem_filter.1 (List.mem_of_find?_eq_some ho)
    obtain rfl : o.verb = verb := by simpa using hv
    have hk := Operation.byKeys_iff_verb.2 hverb
    have hplan : o ∈ table.plan := by
      rw [plan, mem_firstByName_iff, find?_candidates hq hmem hk]
      exact ho
    exact ⟨o, hplan, ((candidate_of_mem_plan hplan).byKeys_iff.1 hk).1, rfl⟩

/-- The keys of every index are asked for by a candidate. -/
theorem exists_candidate (hk : keys ∈ table.indexKeys) :
    ∃ o ∈ table.queryCandidates, o.ByKeys ∧ o.keyNames = keys := by
  simp only [indexKeys, List.mem_append, List.mem_flatMap, List.mem_cons, Option.mem_toList,
    Option.map_eq_some_iff] at hk
  simp only [mem_queryCandidates_iff, mem_globalOperations_iff]
  rcases hk with ⟨index, hi, rfl | ⟨sort, hs, rfl⟩⟩ | hk
  · refine ⟨table.globalPartitionOperation index, ?_, .inr rfl, rfl⟩
    exact .inr (.inr (.inr (.inl ⟨index, hi, .inl rfl⟩)))
  · refine ⟨table.globalSortOperation index sort, ?_, .inr rfl, rfl⟩
    exact .inr (.inr (.inr (.inl ⟨index, hi, .inr ⟨sort, hs, rfl⟩⟩)))
  · split at hk
    · cases hk
    · next hg =>
      obtain ⟨index, hi, rfl⟩ := List.mem_map.1 hk
      refine ⟨table.localOperation index, ?_, .inr rfl, rfl⟩
      exact .inr (.inr (.inr (.inr ⟨by simpa using hg, index, hi, rfl⟩)))

/-- For the keys of every index the plan has a query whose name spells them. A query asks for those very keys
if and only if they come first of their spelling under a verb. So all can be queried by where no two lists of
keys are spelt alike under one verb. -/
theorem index_keys_reached_iff (hq : table.flags.query) :
    (∀ keys ∈ table.indexKeys,
      (∃ o ∈ table.plan, o.root = .query ∧ spelling o.keyNames = spelling keys) ∧
      (table.Reaches keys ↔ ∃ verb ∈ ["get", "list"], FirstSpelt (table.askedUnder verb) keys)) ∧
    ((∀ verb ∈ ["get", "list"], SpeltApart (table.askedUnder verb)) →
      ∀ keys ∈ table.indexKeys, table.Reaches keys) := by
  have hne : ∀ keys ∈ table.indexKeys, keys ≠ [] := by
    intro keys hkeys
    obtain ⟨o, ho, hk, rfl⟩ := exists_candidate hkeys
    have hnonempty := ((candidate_of_mem_queries hq ho).byKeys_iff.1 hk).2
    simpa [Operation.keyNames] using hnonempty
  refine ⟨fun keys hkeys => ⟨?_, reaches_iff hq (hne keys hkeys)⟩, ?_⟩
  · obtain ⟨o, ho, hk, rfl⟩ := exists_candidate hkeys
    have hc := candidate_of_mem_queries hq ho
    obtain ⟨p, hp, hname⟩ := exists_mem_plan hc
    have hcp := candidate_of_mem_plan hp
    obtain ⟨hverb, hspelt⟩ := (hcp.name_eq_iff hc hk).1 hname
    have hkp := hcp.byKeys_of_verb_eq hc hverb hk
    exact ⟨p, hp, (hcp.byKeys_iff.1 hkp).1, hspelt⟩
  · intro hapart keys hkeys
    obtain ⟨o, ho, hk, rfl⟩ := exists_candidate hkeys
    have hverb := Operation.byKeys_iff_verb.1 hk
    have hasked : o.keyNames ∈ table.askedUnder o.verb :=
      List.mem_map_of_mem (List.mem_filter.2 ⟨ho, decide_eq_true rfl⟩)
    exact (reaches_iff hq (hne _ hkeys)).2 ⟨o.verb, hverb, (hapart _ hverb).first hasked⟩

end Table

/-- Dogs by their names and ages, and by an attribute whose own name holds the two. -/
def namedDogs : TableDeclaration :=
  { TableDeclaration.ofName "Dog" (.named "dogId") with
    attributes := some (.typed (.ofList [("dogId", "ID!"), ("name", "String"), ("age", "Int"),
      ("nameAndAge", "String")]))
    globalIndexes := [.declared { GlobalIndexForm.ofPartition "name" with sort := some (.named "age") },
      .named "nameAndAge"] }

theorem namedDogs_reached : ∃ table, Table.ofDeclaration namedDogs none = .ok table ∧
    table.indexKeys = [["name"], ["name", "age"], ["nameAndAge"]] ∧
    ∀ keys ∈ table.indexKeys, (table.Reaches keys ↔ keys ≠ ["nameAndAge"]) := by
  obtain ⟨table, ht, hq, hindexes, hfirst⟩ :=
    Except.exists_ok_of_decide (x := Table.ofDeclaration namedDogs none)
      (p := fun table => table.flags.query ∧
        table.indexKeys = [["name"], ["name", "age"], ["nameAndAge"]] ∧
        ∀ keys ∈ table.indexKeys,
          ((∃ verb ∈ ["get", "list"], FirstSpelt (table.askedUnder verb) keys) ↔ keys ≠ ["nameAndAge"]))
      (by decide +kernel)
  have hreached := (Table.index_keys_reached_iff hq).1
  exact ⟨table, ht, hindexes, fun keys hk => (hreached keys hk).2.trans (hfirst keys hk)⟩

/-- The second index cannot be queried: the plan takes the name for the two keys of the first. -/
theorem namedDogs_unreached : ∃ table, Table.ofDeclaration namedDogs none = .ok table ∧ table.flags.query ∧
    ∃ index ∈ table.globalIndexes, index.partition.name = "nameAndAge" ∧
      ∀ o ∈ table.plan, o.keyNames ≠ [index.partition.name] :=
  Except.exists_ok_of_decide (by decide +kernel)

end TableApi
