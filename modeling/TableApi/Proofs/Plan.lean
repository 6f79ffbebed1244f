import Mathlib.Data.List.Basic
import TableApi.Binding

/-! Which operations a table calls for, and what the name of one tells about it. -/
namespace TableApi

/-- The ways in which flags, keys and indexes call for an operation. -/
inductive Candidate (table : Table) : Operation → Prop
  | scan : table.flags.query → table.flags.scan → Candidate table table.scanOperation
  | get : table.flags.query → Candidate table table.getOperation
  | list : table.flags.query → table.primary.sort.isSome → Candidate table table.listOperation
  | globalPartition {index : GlobalIndex} : table.flags.query → index ∈ table.globalIndexes →
      Candidate table (table.globalPartitionOperation index)
  | globalSort {index : GlobalIndex} {sort : Key} : table.flags.query → index ∈ table.globalIndexes →
      index.sort = some sort → Candidate table (table.globalSortOperation index sort)
  | localSort {index : LocalIndex} : table.flags.query → table.globalIndexes ≠ [] →
      index ∈ table.localIndexes → Candidate table (table.localOperation index)
  | create : table.flags.mutation → table.flags.auto → Candidate table table.createOperation
  | put : table.flags.mutation → Candidate table table.putOperation
  | delete : table.flags.mutation → Candidate table table.deleteOperation
  | change : table.flags.subscription → Candidate table table.changeOperation

namespace OperationKind

/-- The root under which the operations of a kind stand. -/
def root : OperationKind → RootType
  | scan | getItem | query => .query
  | create | put | delete => .mutation
  | subscribe => .subscription

end OperationKind

/-- The word that the name of an operation starts with. -/
def Operation.verb (operation : Operation) : String :=
  match operation.kind, operation.cardinality with
  | .scan, _ => "scan"
  | .getItem, _ => "get"
  | .query, .single => "get"
  | .query, .list => "list"
  | .create, _ => "create"
  | .put, _ => "put"
  | .delete, _ => "delete"
  | .subscribe, _ => "on"

def verbs : List String := ["scan", "get", "list", "create", "put", "delete", "on"]

theorem verbs_apart : ∀ a ∈ verbs, ∀ b ∈ verbs, a.toList <+: b.toList → a = b := by
  decide

theorem Operation.verb_mem (operation : Operation) : operation.verb ∈ verbs := by
  unfold Operation.verb
  split <;> decide

theorem Operation.verb_of_query {o : Operation} (h : o.kind.root = .query) :
    o.verb ∈ ["scan", "get", "list"] := by
  unfold Operation.verb
  cases hk : o.kind <;> simp [hk, OperationKind.root] at h ⊢
  cases o.cardinality <;> simp

/-- The verb tells the root, and whether there are keys to ask for. -/
theorem Operation.root_of_verb {o p : Operation} (h : o.verb = p.verb) :
    o.kind.root = p.kind.root ∧
      (o.kind = .scan ∨ o.kind = .create ↔ p.kind = .scan ∨ p.kind = .create) := by
  unfold Operation.verb at h
  cases ho : o.kind <;> cases hp : p.kind <;> cases hoc : o.cardinality <;>
    cases hpc : p.cardinality <;> simp [ho, hp, hoc, hpc] at h <;> simp [OperationKind.root]

namespace Table

variable {table : Table} {o p : Operation}

@[simp] theorem verb_scan (table : Table) : table.scanOperation.verb = "scan" := rfl

@[simp] theorem verb_get (table : Table) : table.getOperation.verb = "get" := rfl

@[simp] theorem verb_list (table : Table) : table.listOperation.verb = "list" := rfl

@[simp] theorem verb_globalPartition (table : Table) (index : GlobalIndex) :
    (table.globalPartitionOperation index).verb = if index.sort.isSome || index.list then "list" else "get" := by
  cases hl : index.sort.isSome || index.list <;> simp [Operation.verb, globalPartitionOperation, hl]

@[simp] theorem verb_globalSort (table : Table) (index : GlobalIndex) (sort : Key) :
    (table.globalSortOperation index sort).verb = "get" := rfl

@[simp] theorem verb_local (table : Table) (index : LocalIndex) : (table.localOperation index).verb = "get" := rfl

@[simp] theorem verb_create (table : Table) : table.createOperation.verb = "create" := rfl

@[simp] theorem verb_put (table : Table) : table.putOperation.verb = "put" := rfl

@[simp] theorem verb_delete (table : Table) : table.deleteOperation.verb = "delete" := rfl

@[simp] theorem verb_change (table : Table) : table.changeOperation.verb = "on" := rfl

/-- The resolver of an operation on the table. -/
def bindingOf (table : Table) (operation : Operation) : Binding :=
  operation.bind table.primary.partition.name table.dataSourceName

theorem mem_bindings_iff {binding : Binding} {operations : List Operation} :
    binding ∈ table.bindings operations ↔ ∃ operation ∈ operations, table.bindingOf operation = binding :=
  List.mem_map

theorem mem_globalOperations_iff {index : GlobalIndex} :
    o ∈ table.globalOperations index ↔ o = table.globalPartitionOperation index ∨
      ∃ sort, index.sort = some sort ∧ o = table.globalSortOperation index sort := by
  rw [globalOperations, List.mem_cons, Option.mem_toList, Option.map_eq_some_iff]
  simp only [eq_comm]

theorem mem_queryCandidates_iff :
    o ∈ table.queryCandidates ↔ (table.flags.scan ∧ o = table.scanOperation) ∨
      o = table.getOperation ∨ (table.primary.sort.isSome ∧ o = table.listOperation) ∨
      (∃ index ∈ table.globalIndexes, o ∈ table.globalOperations index) ∨
      (table.globalIndexes ≠ [] ∧ ∃ index ∈ table.localIndexes, o = table.localOperation index) := by
  have hl : o ∈ (if table.globalIndexes.isEmpty then [] else table.localIndexes.map table.localOperation) ↔
      table.globalIndexes ≠ [] ∧ ∃ index ∈ table.localIndexes, o = table.localOperation index := by
    cases table.globalIndexes <;> simp [eq_comm]
  rw [queryCandidates, List.mem_append, hl]
  simp only [List.mem_append, List.mem_ite_nil_right, List.mem_singleton, List.mem_flatMap, or_assoc]

theorem mem_mutationCandidates_iff :
    o ∈ table.mutationCandidates ↔ (table.flags.auto ∧ o = table.createOperation) ∨
      o = table.putOperation ∨ o = table.deleteOperation := by
  simp [mutationCandidates]

theorem mem_candidates_iff : o ∈ table.candidates ↔ Candidate table o := by
  simp only [candidates, List.mem_append, List.mem_ite_nil_right, List.mem_singleton,
    mem_queryCandidates_iff, mem_mutationCandidates_iff, mem_globalOperations_iff]
  constructor
  · rintro ((⟨hq, ⟨hs, rfl⟩ | rfl | ⟨hs, rfl⟩ | ⟨index, hi, rfl | ⟨sort, hs, rfl⟩⟩ | ⟨hg, index, hi, rfl⟩⟩ |
      ⟨hm, ⟨ha, rfl⟩ | rfl | rfl⟩) | ⟨hs, rfl⟩)
    · exact .scan hq hs
    · exact .get hq
    · exact .list hq hs
    · exact .globalPartition hq hi
    · exact .globalSort hq hi hs
    · exact .localSort hq hg hi
    · exact .create hm ha
    · exact .put hm
    · exact .delete hm
    · exact .change hs
  · intro h
    cases h with
    | scan hq hs => exact .inl (.inl ⟨hq, .inl ⟨hs, rfl⟩⟩)
    | get hq => exact .inl (.inl ⟨hq, .inr (.inl rfl)⟩)
    | list hq hs => exact .inl (.inl ⟨hq, .inr (.inr (.inl ⟨hs, rfl⟩))⟩)
    | globalPartition hq hi => exact .inl (.inl ⟨hq, .inr (.inr (.inr (.inl ⟨_, hi, .inl rfl⟩)))⟩)
    | globalSort hq hi hs =>
      exact .inl (.inl ⟨hq, .inr (.inr (.inr (.inl ⟨_, hi, .inr ⟨_, hs, rfl⟩⟩)))⟩)
    | localSort hq hg hi => exact .inl (.inl ⟨hq, .inr (.inr (.inr (.inr ⟨hg, _, hi, rfl⟩)))⟩)
    | create hm ha => exact .inl (.inr ⟨hm, .inl ⟨ha, rfl⟩⟩)
    | put hm => exact .inl (.inr ⟨hm, .inr (.inl rfl)⟩)
    | delete hm => exact .inl (.inr ⟨hm, .inr (.inr rfl)⟩)
    | change hs => exact .inr ⟨hs, rfl⟩

theorem candidate_of_mem_plan (h : o ∈ table.plan) : Candidate table o :=
  mem_candidates_iff.1 ((firstByName_sublist _ _).subset h)

theorem plan_names_nodup (table : Table) : (table.plan.map Operation.name).Nodup :=
  firstByName_nodup _ _

/-- Of an operation that is called for there is at least one of its name. -/
theorem exists_mem_plan (h : Candidate table o) : ∃ p ∈ table.plan, p.name = o.name := by
  have hn : o.name ∈ table.plan.map Operation.name :=
    (mem_names_firstByName _ _ _).2 (List.mem_map.2 ⟨o, mem_candidates_iff.2 h, rfl⟩)
  exact List.mem_map.1 hn

end Table

namespace Candidate

variable {table other : Table} {o p : Operation}

theorem name_starts (h : Candidate table o) : o.verb.toList <+: o.name.toList := by
  cases h with
  | globalPartition =>
    rw [Table.verb_globalPartition]
    simp [Table.globalPartitionOperation, Table.operationName]
  | _ =>
    simp [Operation.verb, Table.scanOperation, Table.getOperation, Table.listOperation,
      Table.globalSortOperation, Table.localOperation, Table.createOperation, Table.putOperation,
      Table.deleteOperation, Table.changeOperation, Table.operationName, String.toList_append]

theorem root_eq (h : Candidate table o) : o.root = o.kind.root := by
  cases h <;> rfl

theorem keys_eq_nil_iff (h : Candidate table o) : o.keys = [] ↔ o.kind = .scan ∨ o.kind = .create := by
  cases h <;> simp [Table.scanOperation, Table.getOperation, Table.listOperation,
    Table.globalPartitionOperation, Table.globalSortOperation, Table.localOperation,
    Table.createOperation, Table.putOperation, Table.deleteOperation, Table.changeOperation,
    Table.primaryArguments]

theorem input_eq (h : Candidate table o) : o.input = none ∨ o.input = table.inputTypeName := by
  cases h
  case create | put => exact .inr rfl
  all_goals exact .inl rfl

/-- Operations of one name, of whatever tables, have one verb. -/
theorem verb_eq_of_name (h : Candidate table o) (g : Candidate other p) (hn : o.name = p.name) :
    o.verb = p.verb := by
  have hp := g.name_starts
  rw [← hn] at hp
  rcases List.prefix_or_prefix_of_prefix h.name_starts hp with he | he
  · exact verbs_apart _ o.verb_mem _ p.verb_mem he
  · exact (verbs_apart _ p.verb_mem _ o.verb_mem he).symm

theorem root_eq_of_name (h : Candidate table o) (g : Candidate other p) (hn : o.name = p.name) :
    o.root = p.root := by
  rw [h.root_eq, g.root_eq]
  exact (Operation.root_of_verb (h.verb_eq_of_name g hn)).1

theorem keys_ne_nil_of_name (h : Candidate table o) (g : Candidate other p) (hn : o.name = p.name)
    (hk : o.keys ≠ []) : p.keys ≠ [] := by
  rw [ne_eq, g.keys_eq_nil_iff, ← (Operation.root_of_verb (h.verb_eq_of_name g hn)).2,
    ← h.keys_eq_nil_iff]
  exact hk

/-- Beside every operation there is one of the same root that asks for keys. -/
theorem exists_keyed (h : Candidate table o) :
    ∃ p, Candidate table p ∧ p.root = o.root ∧ p.keys ≠ [] := by
  have hkeys : table.primaryArguments ≠ [] := List.cons_ne_nil _ _
  cases h with
  | scan hq | get hq | list hq | globalPartition hq | globalSort hq | localSort hq =>
    exact ⟨_, .get hq, rfl, hkeys⟩
  | create hm | put hm | delete hm => exact ⟨_, .put hm, rfl, hkeys⟩
  | change hs => exact ⟨_, .change hs, rfl, hkeys⟩

end Candidate

theorem Table.exists_keyed_in_plan {table : Table} {o : Operation} (h : o ∈ table.plan) :
    ∃ p ∈ table.plan, p.root = o.root ∧ p.keys ≠ [] := by
  obtain ⟨q, hq, hroot, hkeys⟩ := (candidate_of_mem_plan h).exists_keyed
  -- the plan may hold another candidate of the name, which starts with the same verb
  obtain ⟨p, hp, hname⟩ := exists_mem_plan hq
  have hc := candidate_of_mem_plan hp
  exact ⟨p, hp, (hc.root_eq_of_name hq hname).trans hroot, hq.keys_ne_nil_of_name hc hname.symm hkeys⟩

end TableApi
