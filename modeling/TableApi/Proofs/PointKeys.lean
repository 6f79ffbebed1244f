import TableApi.Proofs.Plan
import TableApi.Proofs.Updating

/-! Which of the requests for one item address it by its whole primary key. -/
namespace TableApi

namespace StorageAction

/-- The action is on a single item, which its key has to tell. -/
def OnItem (action : StorageAction) : Prop :=
  action = getItem ∨ action = putItem ∨ action = deleteItem

instance (action : StorageAction) : Decidable action.OnItem := by
  unfold OnItem
  infer_instance

end StorageAction

/-- The shape gives values to the attributes of the primary key, the partition key first, and to no
others. -/
def KeyShape.Complete (shape : KeyShape) (primary : PrimaryKey) : Prop :=
  shape.assignments.map KeyAssignment.name = primary.names

instance (shape : KeyShape) (primary : PrimaryKey) : Decidable (shape.Complete primary) := by
  unfold KeyShape.Complete
  infer_instance

namespace Table

variable {table : Table} {o : Operation}

theorem complete_primaryArguments (table : Table) :
    (KeyShape.ofArguments table.primaryArguments).Complete table.primary := by
  unfold KeyShape.Complete primaryArguments PrimaryKey.names PrimaryKey.keys
  cases table.primary.sort <;> rfl

/-- A generated key is a partition key alone. -/
theorem complete_create_iff (table : Table) :
    (table.bindingOf table.createOperation).shape.Complete table.primary ↔ table.primary.sort = none := by
  change [table.primary.partition.name] = table.primary.names ↔ _
  unfold PrimaryKey.names PrimaryKey.keys
  cases table.primary.sort <;> simp

theorem kind_of_verb (h : o.verb = "create") : o.kind = .create := by
  unfold Operation.verb at h
  cases hk : o.kind <;> cases hc : o.cardinality <;> simp [hk, hc] at h ⊢

end Table

namespace Candidate

variable {table : Table} {o : Operation}

/-- Of the operations on one item only the creation may leave a part of the key open. -/
theorem complete_iff (h : Candidate table o) (ha : (table.bindingOf o).action.OnItem) :
    (table.bindingOf o).shape.Complete table.primary ↔ (o.kind = .create → table.primary.sort = none) := by
  have hprimary := table.complete_primaryArguments
  cases h with
  | scan | list | globalPartition | globalSort | localSort =>
    rcases ha with ha | ha | ha <;> cases ha
  | get | put | delete | change =>
    exact iff_of_true hprimary fun hk => by cases hk
  | create =>
    rw [table.complete_create_iff]
    exact ⟨fun hs _ => hs, fun hs => hs rfl⟩

theorem eq_create (h : Candidate table o) (hk : o.kind = .create) :
    o = table.createOperation ∧ table.flags.mutation ∧ table.flags.auto := by
  cases h with
  | create hm ha => exact ⟨rfl, hm, ha⟩
  | _ => cases hk

end Candidate

/-- A request for one item has the whole key, unless it creates an item in a table with a sort key. So all
of a table's requests have, unless it has a sort key and plans the creation of items. -/
theorem Table.point_keys_complete_iff (table : Table) :
    (∀ o ∈ table.plan, (table.bindingOf o).action.OnItem →
      ((table.bindingOf o).shape.Complete table.primary ↔
        (o.kind = .create → table.primary.sort = none))) ∧
    ((∀ binding ∈ table.bindings table.plan, binding.action.OnItem → binding.shape.Complete table.primary) ↔
      ¬ (table.flags.mutation ∧ table.flags.auto ∧ table.primary.sort.isSome)) := by
  have heach : ∀ o ∈ table.plan, (table.bindingOf o).action.OnItem →
      ((table.bindingOf o).shape.Complete table.primary ↔
        (o.kind = .create → table.primary.sort = none)) :=
    fun o ho => (candidate_of_mem_plan ho).complete_iff
  refine ⟨heach, ?_, ?_⟩
  · rintro hall ⟨hm, ha, hs⟩
    have hcreate : Candidate table table.createOperation := .create hm ha
    obtain ⟨o, ho, hname⟩ := exists_mem_plan hcreate
    have hc := candidate_of_mem_plan ho
    obtain ⟨rfl, _⟩ := hc.eq_create (kind_of_verb (hc.verb_eq_of_name hcreate hname))
    have hcomplete := hall _ (mem_bindings_iff.2 ⟨_, ho, rfl⟩) (.inr (.inl rfl))
    rw [table.complete_create_iff.1 hcomplete] at hs
    cases hs
  · intro hno binding hb hitem
    obtain ⟨o, ho, rfl⟩ := mem_bindings_iff.1 hb
    refine (heach o ho hitem).2 ?_
    intro hk
    obtain ⟨_, hm, ha⟩ := (candidate_of_mem_plan ho).eq_create hk
    cases hs : table.primary.sort with
    | none => rfl
    | some sort => exact absurd ⟨hm, ha, by simp [hs]⟩ hno

/-- Events that are told apart by their place and time, with places that are generated. -/
def eventDeclaration : TableDeclaration :=
  { TableDeclaration.ofName "Event" (.named "place") with
    sort := some (.named "time")
    attributes := some (.typed (.ofList [("place", "ID!"), ("time", "Int"), ("title", "String")]))
    auto := true }

/-- Items are created by their partition key alone. -/
theorem event_creation_incomplete : ∃ table, Table.ofDeclaration eventDeclaration none = .ok table ∧
    ∃ binding ∈ table.bindings table.plan, binding.operation = "createEvent" ∧ binding.action = .putItem ∧
      ¬ binding.shape.Complete table.primary :=
  Except.exists_ok_of_decide (by decide +kernel)

end TableApi
