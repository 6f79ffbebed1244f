import Mathlib.Data.String.Basic
import TableApi.Proofs.JsonTexts
import TableApi.Json.Settings

/-! The form in which free values are kept. The members of every object are sorted by name. What is in that form is
kept as it is, and is read in that form from its text. -/
namespace TableApi

namespace Settings

variable {name : String} {value : Json} {entry : String × Json} {settings members : List (String × Json)}

/-- Sorted by name, and each name once. -/
def Sorted (settings : List (String × Json)) : Prop :=
  settings.Pairwise fun a b => a.1 < b.1

theorem mem_put (h : entry ∈ put name value settings) : entry = (name, value) ∨ entry ∈ settings := by
  induction settings with
  | nil => exact .inl (List.mem_singleton.1 h)
  | cons first rest ih =>
    rw [put] at h
    split_ifs at h
    · exact List.mem_cons.1 h
    · exact (List.mem_cons.1 h).imp_right (List.mem_cons_of_mem _)
    · rcases List.mem_cons.1 h with rfl | hrest
      · exact .inr List.mem_cons_self
      · exact (ih hrest).imp_right (List.mem_cons_of_mem _)

theorem Sorted.put (h : Sorted settings) (name : String) (value : Json) : Sorted (put name value settings) := by
  induction settings with
  | nil => exact List.pairwise_singleton _ _
  | cons first rest ih =>
    obtain ⟨hfirst, hrest⟩ := List.pairwise_cons.1 h
    rw [Settings.put]
    split_ifs with hless hsame
    · refine List.pairwise_cons.2 ⟨?_, h⟩
      rw [List.forall_mem_cons]
      exact ⟨hless, fun entry hm => lt_trans hless (hfirst entry hm)⟩
    · exact List.pairwise_cons.2 ⟨fun entry hm => hsame ▸ hfirst entry hm, hrest⟩
    · refine List.pairwise_cons.2 ⟨fun entry hm => ?_, ih hrest⟩
      rcases mem_put hm with rfl | hmem
      · exact lt_of_le_of_ne (not_lt.1 hless) hsame
      · exact hfirst entry hmem

theorem sorted_ofMembers (members : List (String × Json)) : Sorted (ofMembers members) := by
  have hfold : ∀ settings, Sorted settings →
      Sorted (members.foldl (fun settings member => Settings.put member.1 member.2 settings) settings) := by
    induction members with
    | nil => exact fun _ h => h
    | cons member members ih => exact fun settings h => ih _ (h.put _ _)
  exact hfold [] .nil

theorem mem_ofMembers (h : entry ∈ ofMembers members) : entry ∈ members := by
  have hfold : ∀ settings, entry ∈ members.foldl (fun settings member => put member.1 member.2 settings) settings →
      entry ∈ settings ∨ entry ∈ members := by
    clear h
    induction members with
    | nil => exact fun _ hm => .inl hm
    | cons member members ih =>
      intro settings hm
      rcases ih (put member.1 member.2 settings) hm with hput | hmem
      · rcases mem_put hput with rfl | hold
        · exact .inr List.mem_cons_self
        · exact .inl hold
      · exact .inr (List.mem_cons_of_mem _ hmem)
  exact (hfold [] h).resolve_left List.not_mem_nil

/-- A name behind all others is put at the end. -/
theorem put_last (h : ∀ entry ∈ settings, entry.1 < name) : put name value settings = settings ++ [(name, value)] := by
  induction settings with
  | nil => rfl
  | cons first rest ih =>
    obtain ⟨hfirst, hrest⟩ := List.forall_mem_cons.1 h
    rw [put, if_neg (lt_asymm hfirst), if_neg (ne_of_lt hfirst), ih hrest, List.cons_append]

theorem ofMembers_eq_self (h : Sorted members) : ofMembers members = members := by
  have hfold : ∀ settings, Sorted (settings ++ members) →
      members.foldl (fun settings member => put member.1 member.2 settings) settings = settings ++ members := by
    clear h
    induction members with
    | nil => simp
    | cons member members ih =>
      intro settings hsorted
      have hlast : ∀ entry ∈ settings, entry.1 < member.1 := fun entry hm =>
        (List.pairwise_append.1 hsorted).2.2 entry hm member List.mem_cons_self
      rw [List.foldl_cons, put_last hlast, ih _ (by simpa using hsorted)]
      simp
  exact hfold [] h

end Settings

namespace Json

mutual

/-- The members of every object in the value are sorted by name. -/
def Sorted : Json → Prop
  | .array items => SortedItems items
  | .object members => Settings.Sorted members ∧ SortedMembers members
  | _ => True

def SortedItems : List Json → Prop
  | [] => True
  | item :: items => item.Sorted ∧ SortedItems items

def SortedMembers : List (String × Json) → Prop
  | [] => True
  | (_, value) :: members => value.Sorted ∧ SortedMembers members

end

theorem sortedMembers_iff {members : List (String × Json)} :
    SortedMembers members ↔ ∀ member ∈ members, member.2.Sorted := by
  induction members with
  | nil => simp [SortedMembers]
  | cons member members ih => rw [SortedMembers, ih, List.forall_mem_cons]

theorem readableMembers_iff {members : List (String × Json)} :
    readableMembers members = true ↔ ∀ member ∈ members, member.2.readable = true := by
  induction members with
  | nil => simp [readableMembers]
  | cons member members ih => rw [readableMembers, Bool.and_eq_true, ih, List.forall_mem_cons]

mutual

/-- What is kept of a value is sorted and has no unreadable piece. -/
theorem kept_form (value : Json) {kept : Json} (h : value.kept = some kept) :
    kept.Sorted ∧ kept.readable = true := by
  match value with
  | .unreadable => cases h
  | .null | .bool _ | .int _ | .double _ | .string _ =>
    cases h
    exact ⟨trivial, rfl⟩
  | .array items =>
    obtain ⟨kept, hitems, rfl⟩ := Option.map_eq_some_iff.1 h
    exact keptItems_form items hitems
  | .object members =>
    obtain ⟨kept, hmembers, rfl⟩ := Option.map_eq_some_iff.1 h
    have hform := keptMembers_form members hmembers
    rw [Sorted, readable, sortedMembers_iff, readableMembers_iff]
    refine ⟨⟨Settings.sorted_ofMembers kept, fun member hm => ?_⟩, fun member hm => ?_⟩
    · exact (hform member (Settings.mem_ofMembers hm)).1
    · exact (hform member (Settings.mem_ofMembers hm)).2

theorem keptItems_form (items : List Json) {kept : List Json} (h : keptItems items = some kept) :
    SortedItems kept ∧ readableItems kept = true := by
  match items with
  | [] =>
    cases h
    exact ⟨trivial, rfl⟩
  | item :: items =>
    obtain ⟨first, hfirst, hrest⟩ := Option.bind_eq_some_iff.1 h
    obtain ⟨others, hothers, ⟨⟩⟩ := Option.bind_eq_some_iff.1 hrest
    rw [SortedItems, readableItems, Bool.and_eq_true]
    exact ⟨⟨(kept_form item hfirst).1, (keptItems_form items hothers).1⟩,
      (kept_form item hfirst).2, (keptItems_form items hothers).2⟩

theorem keptMembers_form (members : List (String × Json)) {kept : List (String × Json)}
    (h : keptMembers members = some kept) : ∀ member ∈ kept, member.2.Sorted ∧ member.2.readable = true := by
  match members with
  | [] =>
    cases h
    exact List.forall_mem_nil _
  | (name, value) :: members =>
    obtain ⟨first, hfirst, hrest⟩ := Option.bind_eq_some_iff.1 h
    obtain ⟨others, hothers, ⟨⟩⟩ := Option.bind_eq_some_iff.1 hrest
    exact List.forall_mem_cons.2 ⟨kept_form value hfirst, keptMembers_form members hothers⟩

end

theorem names_keptMembers {members kept : List (String × Json)} (h : keptMembers members = some kept) :
    kept.map Prod.fst = members.map Prod.fst := by
  induction members generalizing kept with
  | nil =>
    cases h
    rfl
  | cons member members ih =>
    obtain ⟨first, -, hrest⟩ := Option.bind_eq_some_iff.1 h
    obtain ⟨others, hothers, ⟨⟩⟩ := Option.bind_eq_some_iff.1 hrest
    rw [List.map_cons, List.map_cons, ih hothers]

mutual

/-- A sorted value is kept as it is, if at all. -/
theorem kept_of_sorted (value : Json) (h : value.Sorted) :
    value.kept = if value.readable then some value else none := by
  match value with
  | .unreadable | .null | .bool _ | .int _ | .double _ | .string _ => rfl
  | .array items =>
    rw [kept, keptItems_of_sorted items h, readable]
    split <;> rfl
  | .object members =>
    rw [kept, keptMembers_of_sorted members h.2, readable]
    split
    · rw [Option.map_some, Settings.ofMembers_eq_self h.1]
    · rfl

theorem keptItems_of_sorted (items : List Json) (h : SortedItems items) :
    keptItems items = if readableItems items then some items else none := by
  match items with
  | [] => rfl
  | item :: items =>
    rw [keptItems, kept_of_sorted item h.1, keptItems_of_sorted items h.2, readableItems]
    cases item.readable <;> cases readableItems items <;> rfl

theorem keptMembers_of_sorted (members : List (String × Json)) (h : SortedMembers members) :
    keptMembers members = if readableMembers members then some members else none := by
  match members with
  | [] => rfl
  | (name, value) :: members =>
    rw [keptMembers, kept_of_sorted value h.1, keptMembers_of_sorted members h.2, readableMembers]
    cases value.readable <;> cases readableMembers members <;> rfl

end

section Told

variable {level : Nat} {members : List (String × Json)}

theorem sorted_numeral (n : Numeral) : n.toJson.Sorted := by
  unfold Numeral.toJson
  extract_lets
  cases n.toDouble <;> split_ifs <;> trivial

theorem names_toldMembers (level : Nat) (members : List (String × Json)) :
    (toldMembers level members).map Prod.fst = members.map Prod.fst := by
  induction members with
  | nil => rfl
  | cons member members ih => rw [toldMembers, List.map_cons, List.map_cons, ih]

theorem toldItems_eq_map (level : Nat) (items : List Json) : toldItems level items = items.map (told level) := by
  induction items with
  | nil => rfl
  | cons item items ih => rw [toldItems, List.map_cons, ih]

theorem sorted_toldNames (h : Settings.Sorted members) : Settings.Sorted (toldMembers level members) := by
  have hnames : ((toldMembers level members).map Prod.fst).Pairwise (· < ·) := by
    rw [names_toldMembers]
    exact List.pairwise_map.2 h
  exact List.pairwise_map.1 hnames

mutual

theorem sorted_told (value : Json) (level : Nat) (h : value.Sorted) : (value.told level).Sorted := by
  match value with
  | .null | .bool _ | .string _ | .unreadable => trivial
  | .int n => exact sorted_numeral _
  | .double x => exact sorted_numeral _
  | .array items =>
    rw [told, arrayAt]
    split
    · exact sorted_toldItems items (level + 1) h
    · trivial
  | .object members =>
    rw [told, objectAt]
    split
    · exact ⟨sorted_toldNames h.1, sorted_toldMembers members (level + 1) h.2⟩
    · trivial

theorem sorted_toldItems (items : List Json) (level : Nat) (h : SortedItems items) :
    SortedItems (toldItems level items) := by
  match items with
  | [] => trivial
  | item :: items => exact ⟨sorted_told item level h.1, sorted_toldItems items level h.2⟩

theorem sorted_toldMembers (members : List (String × Json)) (level : Nat) (h : SortedMembers members) :
    SortedMembers (toldMembers level members) := by
  match members with
  | [] => trivial
  | (name, value) :: members => exact ⟨sorted_told value level h.1, sorted_toldMembers members level h.2⟩

end

end Told

end Json

end TableApi
