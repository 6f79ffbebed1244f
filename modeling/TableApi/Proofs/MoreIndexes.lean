import Mathlib.Data.List.Nodup
import TableApi.Proofs.PlannedNames
import TableApi.Proofs.TableTypes

/-! Another index takes no operation from a table. It may stand before others and take over their names, and the first
global index brings the operations of all local ones; whatever has a name then is of the same kind as before. -/
namespace TableApi

/-- The second declaration has one more index, at any place among those of its kind, and is else the first. -/
inductive TableDeclaration.AddsIndex : TableDeclaration → TableDeclaration → Prop
  | atGlobal {declaration : TableDeclaration} (before after : List GlobalIndexDeclaration)
      (index : GlobalIndexDeclaration) : declaration.globalIndexes = before ++ after →
      AddsIndex declaration { declaration with globalIndexes := before ++ index :: after }
  | atLocal {declaration : TableDeclaration} (before after : List LocalIndexDeclaration)
      (index : LocalIndexDeclaration) : declaration.localIndexes = before ++ after →
      AddsIndex declaration { declaration with localIndexes := before ++ index :: after }

section Kinds

variable {o p : Operation}

/-- The verb tells the kind, but for items that are got by their own key and items that are got by an index. -/
theorem Operation.kind_eq_of_verb (hv : o.verb = p.verb) (hg : o.kind = .getItem ↔ p.kind = .getItem) :
    o.kind = p.kind := by
  unfold Operation.verb at hv
  cases ho : o.kind <;> cases hp : p.kind <;> cases hoc : o.cardinality <;> cases hpc : p.cardinality <;>
    simp [ho, hp, hoc, hpc] at hv hg ⊢

theorem Candidate.cardinality_eq {table : Table} (h : Candidate table o) :
    o.cardinality = if o.verb ∈ ["scan", "list"] then .list else .single := by
  cases h with
  | globalPartition =>
    rw [Table.verb_globalPartition, Table.globalPartitionOperation]
    split <;> simp
  | _ => rfl

/-- The look-up by the own key is the one planned operation of its kind, and the one of its name. -/
theorem Table.getItem_iff_of_mem_plan {table : Table} (h : o ∈ table.plan) :
    o.kind = .getItem ↔ table.flags.query ∧ o.name = table.getOperation.name := by
  constructor
  · intro hk
    have hc := candidate_of_mem_plan h
    cases hc with
    | get hq => exact ⟨hq, rfl⟩
    | _ => cases hk
  · rintro ⟨hq, hname⟩
    have hget : table.getOperation ∈ table.plan := mem_plan_of_own (.get hq) rfl
    rw [List.inj_on_of_nodup_map table.plan_names_nodup h hget hname]
    rfl

end Kinds

namespace Table

variable {declaration other : TableDeclaration} {label : Option String} {table wider : Table} {o : Operation}

/-- The second table has the indexes of the first and maybe others, and is else the first. -/
def Widened (table wider : Table) : Prop :=
  ∃ globalIndexes localIndexes, wider = { table with globalIndexes, localIndexes } ∧
    table.globalIndexes ⊆ globalIndexes ∧ table.localIndexes ⊆ localIndexes

/-- Indexes are built one by one, from what else is declared. -/
theorem assemble_widened {globalIndexes : List GlobalIndexDeclaration} {localIndexes : List LocalIndexDeclaration}
    (hglobal : declaration.globalIndexes ⊆ globalIndexes) (hlocal : declaration.localIndexes ⊆ localIndexes)
    (h : assemble declaration label = .ok table)
    (g : assemble { declaration with globalIndexes, localIndexes } label = .ok wider) : Widened table wider := by
  simp only [assemble, Except.bind_ok_iff, Except.pure_ok_iff] at h g
  obtain ⟨partition, hp, sort, hs, localBuilt, hl, globalBuilt, hg, rfl⟩ := h
  obtain ⟨partition', hp', sort', hs', localWider, hl', globalWider, hg', rfl⟩ := g
  obtain rfl : partition = partition' := Except.ok.inj (hp.symm.trans hp')
  obtain rfl : sort = sort' := Except.ok.inj (hs.symm.trans hs')
  exact ⟨globalWider, localWider, rfl, Except.subset_of_mapM_ok hglobal hg hg',
    Except.subset_of_mapM_ok hlocal hl hl'⟩

theorem widened_of_addsIndex (hadds : declaration.AddsIndex other)
    (h : ofDeclaration declaration label = .ok table) (g : ofDeclaration other label = .ok wider) :
    Widened table wider := by
  have hfirst := (ofDeclaration_ok_iff.1 h).1
  have hsecond := (ofDeclaration_ok_iff.1 g).1
  cases hadds with
  | atGlobal before after index hindexes =>
    refine assemble_widened ?_ (List.Subset.refl _) hfirst hsecond
    rw [hindexes]
    exact ((List.sublist_cons_self index after).append_left before).subset
  | atLocal before after index hindexes =>
    refine assemble_widened (List.Subset.refl _) ?_ hfirst hsecond
    rw [hindexes]
    exact ((List.sublist_cons_self index after).append_left before).subset

/-- What flags, keys and indexes call for they call for beside other indexes too. -/
theorem Widened.candidate (h : Widened table wider) (hc : Candidate table o) : Candidate wider o := by
  obtain ⟨globalIndexes, localIndexes, rfl, hglobal, hlocal⟩ := h
  cases hc with
  | scan hq hs => exact .scan hq hs
  | get hq => exact .get hq
  | list hq hs => exact .list hq hs
  | globalPartition hq hi => exact .globalPartition hq (hglobal hi)
  | globalSort hq hi hs => exact .globalSort hq (hglobal hi) hs
  | localSort hq hg hi =>
    have hne : globalIndexes ≠ [] := fun hnil => hg (List.eq_nil_of_subset_nil (hnil ▸ hglobal))
    exact .localSort hq hne (hlocal hi)
  | create hm ha => exact .create hm ha
  | put hm => exact .put hm
  | delete hm => exact .delete hm
  | change hs => exact .change hs

/-- Neither the look-up by key nor the group of queries is a matter of indexes. -/
theorem Widened.getItem_iff {p : Operation} (h : Widened table wider) (ho : o ∈ table.plan) (hp : p ∈ wider.plan)
    (hname : p.name = o.name) : p.kind = .getItem ↔ o.kind = .getItem := by
  rw [getItem_iff_of_mem_plan hp, getItem_iff_of_mem_plan ho, hname]
  obtain ⟨globalIndexes, localIndexes, rfl, _, _⟩ := h
  rfl

/-- With one more index every name that is planned is still planned, for an operation of the same root, kind and
cardinality. -/
theorem planned_of_addsIndex (hadds : declaration.AddsIndex other)
    (h : ofDeclaration declaration label = .ok table) (g : ofDeclaration other label = .ok wider) :
    ∀ o ∈ table.plan, ∃ p ∈ wider.plan,
      p.name = o.name ∧ p.root = o.root ∧ p.kind = o.kind ∧ p.cardinality = o.cardinality := by
  have hwider := widened_of_addsIndex hadds h g
  intro o ho
  have hc := hwider.candidate (candidate_of_mem_plan ho)
  -- the operation itself may have lost its name to that of the new index
  obtain ⟨p, hp, hname⟩ := exists_mem_plan hc
  have hcp := candidate_of_mem_plan hp
  have hverb := hcp.verb_eq_of_name hc hname
  refine ⟨p, hp, hname, hcp.root_eq_of_name hc hname, ?_, ?_⟩
  · exact Operation.kind_eq_of_verb hverb (hwider.getItem_iff ho hp hname)
  · rw [hcp.cardinality_eq, hc.cardinality_eq, hverb]

end Table

/-- Dogs of a home, by their names beside it. -/
def homeDogs (globalIndexes : List GlobalIndexDeclaration) : TableDeclaration :=
  { TableDeclaration.ofName "Dog" (.named "home") with
    sort := some (.named "dogId")
    attributes := some (.typed (.ofList [("home", "ID!"), ("dogId", "ID!"), ("name", "String"), ("age", "Int"),
      ("nameAndAge", "String")]))
    globalIndexes
    localIndexes := [.named "name"] }

/-- An index by name and age. -/
def byNameAndAge : GlobalIndexDeclaration :=
  .declared { GlobalIndexForm.ofPartition "name" with sort := some (.named "age") }

/-- The index that is put in front takes over a name that another index had, for a query by another key. -/
theorem homeDogs_planned :
    ∃ table wider, Table.ofDeclaration (homeDogs [byNameAndAge]) none = .ok table ∧
      Table.ofDeclaration (homeDogs [.named "nameAndAge", byNameAndAge]) none = .ok wider ∧
      (∃ o ∈ table.plan, o.name = "getDogByNameAndAge" ∧ o.keyNames = ["name", "age"]) ∧
      (∃ p ∈ wider.plan, p.name = "getDogByNameAndAge" ∧ p.keyNames = ["nameAndAge"]) ∧
      ∀ o ∈ table.plan, ∃ p ∈ wider.plan,
        p.name = o.name ∧ p.root = o.root ∧ p.kind = o.kind ∧ p.cardinality = o.cardinality := by
  obtain ⟨table, ht, hbefore⟩ :=
    Except.exists_ok_of_decide (x := Table.ofDeclaration (homeDogs [byNameAndAge]) none)
      (p := fun table => ∃ o ∈ table.plan, o.name = "getDogByNameAndAge" ∧ o.keyNames = ["name", "age"])
      (by decide +kernel)
  obtain ⟨wider, hw, hafter⟩ :=
    Except.exists_ok_of_decide (x := Table.ofDeclaration (homeDogs [.named "nameAndAge", byNameAndAge]) none)
      (p := fun wider => ∃ p ∈ wider.plan, p.name = "getDogByNameAndAge" ∧ p.keyNames = ["nameAndAge"])
      (by decide +kernel)
  have hadds : TableDeclaration.AddsIndex (homeDogs [byNameAndAge])
      (homeDogs [.named "nameAndAge", byNameAndAge]) :=
    .atGlobal [] [byNameAndAge] (.named "nameAndAge") rfl
  exact ⟨table, wider, ht, hw, hbefore, hafter, Table.planned_of_addsIndex hadds ht hw⟩

end TableApi
