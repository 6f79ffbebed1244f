import Mathlib.Data.List.Basic
import Mathlib.Data.List.Find
import TableApi.Operation

/-! Lists of which only the first element of each name is kept. -/
namespace TableApi

variable {α : Type} {name : α → String} {xs ys : List α} {a b : α}

theorem mem_firstByName_iff : a ∈ firstByName name xs ↔ xs.find? (name · = name a) = some a := by
  induction xs with
  | nil => simp [firstByName]
  | cons x xs ih =>
    by_cases hx : name x = name a
    · simp [firstByName, hx, eq_comm]
    · have hne : a ≠ x := fun he => hx (he ▸ rfl)
      simp [firstByName, hx, hne, ih, Ne.symm hx]

/-- The first element of a class is kept if all that have its name are of the class. -/
theorem mem_firstByName_of_first {p : α → Bool} (h : xs.find? p = some a)
    (hclass : ∀ x ∈ xs, name x = name a → p x) : a ∈ firstByName name xs := by
  obtain ⟨_, before, after, rfl, hbefore⟩ := List.find?_eq_some_iff_append.1 h
  refine mem_firstByName_iff.2 (List.find?_eq_some_iff_append.2 ⟨decide_eq_true rfl, before, after, rfl, ?_⟩)
  intro x hx
  have hother : ¬ p x := by simpa using hbefore x hx
  have hne : name x ≠ name a := mt (hclass x (List.mem_append_left _ hx)) hother
  simpa using hne

/-- All elements are kept where no two different ones have one name. -/
theorem forall_mem_firstByName_iff : (∀ x ∈ xs, x ∈ firstByName name xs) ↔
    ∀ x ∈ xs, ∀ y ∈ xs, name x = name y → x = y := by
  constructor
  · intro h x hx y hy hname
    have hfirst := mem_firstByName_iff.1 (h x hx)
    rw [hname, mem_firstByName_iff.1 (h y hy)] at hfirst
    exact (Option.some.inj hfirst).symm
  · intro h x hx
    have hsome : (xs.find? (name · = name x)).isSome :=
      List.find?_isSome.2 ⟨x, hx, decide_eq_true rfl⟩
    obtain ⟨first, hfirst⟩ := Option.isSome_iff_exists.1 hsome
    have hname : name first = name x := by simpa using List.find?_some hfirst
    rw [mem_firstByName_iff, hfirst, h first (List.mem_of_find?_eq_some hfirst) x hx hname]

/-- An element that comes last is kept if its name is new. -/
theorem firstByName_concat : firstByName name (xs ++ [a]) =
    if name a ∈ xs.map name then firstByName name xs else firstByName name xs ++ [a] := by
  induction xs with
  | nil => simp [firstByName]
  | cons x xs ih =>
    rw [List.cons_append, firstByName, ih]
    by_cases ha : name a ∈ xs.map name
    · have hm : name a ∈ (x :: xs).map name := List.mem_cons_of_mem _ ha
      rw [if_pos ha, if_pos hm, firstByName]
    · rw [if_neg ha, List.filter_append]
      by_cases hx : name a = name x
      · simp [firstByName, hx]
      · have hm : name a ∉ (x :: xs).map name := List.not_mem_cons_of_ne_of_not_mem hx ha
        have hkept : [a].filter (name · ≠ name x) = [a] := List.filter_eq_self.2 (by simpa using hx)
        rw [if_neg hm, hkept, firstByName, List.cons_append]

theorem map_firstByName : (firstByName name xs).map name = firstByName id (xs.map name) := by
  induction xs with
  | nil => rfl
  | cons x xs ih =>
    rw [firstByName, List.map_cons, List.map_cons, firstByName, ← ih, List.filter_map]
    rfl

/-- What is kept stands in the order in which it first came. -/
theorem firstByName_pairwise_idxOf (names : List String) :
    (firstByName id names).Pairwise fun a b => names.idxOf a < names.idxOf b := by
  induction names with
  | nil => exact .nil
  | cons n names ih =>
    have hlater : ∀ m ∈ (firstByName id names).filter (id · ≠ id n), (n :: names).idxOf m = names.idxOf m + 1 := by
      intro m hm
      have hne : m ≠ n := by simpa using (List.mem_filter.1 hm).2
      exact List.idxOf_cons_ne names hne.symm
    refine List.pairwise_cons.2 ⟨fun m hm => ?_, ?_⟩
    · rw [hlater m hm, List.idxOf_cons_self]
      exact Nat.succ_pos _
    · refine (ih.filter _).imp_of_mem fun ha hb hab => ?_
      rw [hlater _ ha, hlater _ hb]
      exact Nat.succ_lt_succ hab

end TableApi
