import Mathlib.Data.List.Perm.Basic
import TableApi.Proofs.BuiltTypes
import TableApi.Proofs.WrittenTypes

/-! Types that are the same but for the order of the fields of object types. Registries that hold such types
under the same names answer alike, take up further types alike and are written alike. -/
namespace TableApi

theorem Except.mapM_perm {ε α β : Type} {f : α → Except ε β} {xs others : List α} {ys : List β}
    (h : xs.mapM f = .ok ys) (hp : others.Perm xs) : ∃ zs, others.mapM f = .ok zs ∧ zs.Perm ys := by
  obtain ⟨zs, hz, hperm⟩ := List.perm_comp_forall₂ hp (mapM_ok_iff.1 h)
  exact ⟨zs, mapM_ok_iff.2 hz, hperm⟩

/-- The definitions differ at most in the order of the fields of an object type. -/
inductive TypeDefinition.Alike : TypeDefinition → TypeDefinition → Prop
  | refl (d : TypeDefinition) : Alike d d
  | object {name : String} {interfaces : List String} {fields others : List FieldDefinition} :
      fields.Perm others → Alike ⟨name, interfaces, .object fields⟩ ⟨name, interfaces, .object others⟩

namespace TypeDefinition

variable {d e : TypeDefinition}

theorem Alike.symm (h : d.Alike e) : e.Alike d := by
  cases h with
  | refl => exact .refl _
  | object order => exact .object order.symm

theorem Alike.name (h : d.Alike e) : d.name = e.name := by
  cases h <;> rfl

theorem Alike.category (h : d.Alike e) : d.category = e.category := by
  cases h <;> rfl

end TypeDefinition

namespace Registry

variable {a b after : Registry} {d e result : TypeDefinition} {name text : String}

/-- Under each name both registries hold alike types, or none. -/
def Alike (a b : Registry) : Prop :=
  ∀ name, (a.get? name = none ∧ b.get? name = none) ∨
    ∃ d e, a.get? name = some d ∧ b.get? name = some e ∧ d.Alike e

theorem Alike.symm (h : a.Alike b) : b.Alike a := by
  intro name
  rcases h name with ⟨ha, hb⟩ | ⟨d, e, ha, hb, hde⟩
  · exact .inl ⟨hb, ha⟩
  · exact .inr ⟨e, d, hb, ha, hde.symm⟩

/-- What the one holds the other holds alike, and under no further names. -/
theorem alike_of_subset (hab : ∀ name d, a.get? name = some d → ∃ e, b.get? name = some e ∧ d.Alike e)
    (hba : ∀ name e, b.get? name = some e → ∃ d, a.get? name = some d) : a.Alike b := by
  intro name
  cases ha : a.get? name with
  | some d =>
    obtain ⟨e, he, hde⟩ := hab name d ha
    exact .inr ⟨d, e, rfl, he, hde⟩
  | none =>
    refine .inl ⟨rfl, Option.eq_none_iff_forall_ne_some.2 fun e he => ?_⟩
    obtain ⟨d, hd⟩ := hba name e he
    rw [ha] at hd
    cases hd

theorem Alike.get? (h : a.Alike b) (hd : a.get? name = some d) : ∃ e, b.get? name = some e ∧ d.Alike e := by
  rcases h name with ⟨ha, _⟩ | ⟨_, e, ha, hb, hde⟩
  · rw [ha] at hd
    cases hd
  · rw [ha] at hd
    exact ⟨e, hb, Option.some.inj hd ▸ hde⟩

theorem Alike.resolve_eq (h : a.Alike b) : a.resolve name = b.resolve name := by
  unfold resolve
  rcases h name with ⟨ha, hb⟩ | ⟨d, e, ha, hb, hde⟩
  · rw [ha, hb]
  · simp only [ha, hb, hde.name]

theorem Alike.resolveMember_eq {expected : TypeCategory} (h : a.Alike b) (hde : d.Alike e) :
    d.resolveMember expected a name = e.resolveMember expected b name := by
  unfold TypeDefinition.resolveMember
  rw [hde.name, hde.category]
  rcases h name with ⟨ha, hb⟩ | ⟨member, other, ha, hb, hmember⟩
  · rw [ha, hb]
  · simp only [ha, hb, hmember.name, hmember.category]

theorem Alike.register (h : a.Alike b) (hr : a.register d = .ok (result, after)) :
    ∃ other later, b.register d = .ok (other, later) ∧ after.Alike later := by
  obtain ⟨hs, ⟨hn, rfl, rfl⟩ | ⟨hg, hc, rfl⟩⟩ := register_ok_iff.1 hr
  · have hnone : b.get? result.name = none := by
      rcases h result.name with ⟨_, hb⟩ | ⟨_, _, ha, _⟩
      · exact hb
      · rw [hn] at ha
        cases ha
    refine ⟨result, b.enter result, register_ok_iff.2 ⟨hs, .inl ⟨hnone, rfl, rfl⟩⟩, fun name => ?_⟩
    rw [get?_enter, get?_enter]
    split
    · exact .inr ⟨_, _, rfl, rfl, .refl _⟩
    · exact h name
  · obtain ⟨e, he, hde⟩ := h.get? hg
    exact ⟨e, b, register_ok_iff.2 ⟨hs, .inr ⟨he, hde.category.symm.trans hc, rfl⟩⟩, h⟩

theorem Alike.registers {types : List TypeDefinition} (h : a.Alike b) (hr : Registers a types after) :
    ∃ later, Registers b types later ∧ after.Alike later := by
  induction hr generalizing b with
  | nil => exact ⟨b, .nil b, h⟩
  | cons hr _ ih =>
    obtain ⟨_, mid, hmid, halike⟩ := h.register hr
    obtain ⟨later, hlater, halike⟩ := ih halike
    exact ⟨later, .cons hmid hlater, halike⟩

end Registry

section Written

variable {a b : Registry} {d e : TypeDefinition} {types : List TypeDefinition}

theorem Registry.Alike.resolved_eq (h : a.Alike b) (field : FieldDefinition) :
    field.resolved a = field.resolved b := by
  have href : ∀ ref : TypeRef, ref.resolved a = ref.resolved b := by
    intro ref
    rw [TypeRef.resolved, TypeRef.resolved, h.resolve_eq]
  simp only [FieldDefinition.resolved, ArgumentDefinition.resolved, href]

theorem TypeDefinition.Alike.resolved {written : TypeDefinition} (hde : d.Alike e) (h : a.Alike b)
    (hd : d.resolved a = .ok written) :
    ∃ other, e.resolved b = .ok other ∧ written.Alike other := by
  have hmember : ∀ (owner : TypeDefinition) expected,
      owner.resolveMember expected a = owner.resolveMember expected b :=
    fun owner expected => funext fun name => h.resolveMember_eq (.refl owner)
  cases hde with
  | refl =>
    refine ⟨written, ?_, .refl _⟩
    rw [← hd]
    simp only [TypeDefinition.resolved, resolvedFields, hmember, h.resolved_eq]
  | @object name interfaces fields others order =>
    have hinterface : TypeDefinition.resolveMember ⟨name, interfaces, .object fields⟩ .interface a =
        TypeDefinition.resolveMember ⟨name, interfaces, .object others⟩ .interface b :=
      funext fun member => h.resolveMember_eq (.object order)
    simp only [TypeDefinition.resolved, resolvedFields, hinterface, h.resolved_eq, Except.bind_ok_iff,
      Except.pure_ok_iff] at hd ⊢
    obtain ⟨names, hi, resolved, hf, rfl⟩ := hd
    obtain ⟨arranged, harranged, hperm⟩ := Except.mapM_perm hf order.symm
    exact ⟨_, ⟨names, hi, arranged, harranged, rfl⟩, .object hperm.symm⟩

/-- Every type of the one is there in the other, up to the order of its fields. -/
def SameTypes (types others : List TypeDefinition) : Prop :=
  (∀ d ∈ types, ∃ e ∈ others, d.Alike e) ∧ ∀ e ∈ others, ∃ d ∈ types, d.Alike e

theorem Registry.Alike.written (h : a.Alike b) (ha : a.Keyed) (hb : b.Keyed) (ht : a.written = .ok types) :
    ∃ others, b.written = .ok others ∧ SameTypes types others := by
  have hdefinition : ∀ e ∈ b.definitions, ∃ d ∈ a.definitions, d.Alike e := by
    intro e he
    obtain ⟨d, hd, hed⟩ := h.symm.get? (hb.mem_definitions_iff.1 he)
    exact ⟨d, ha.get?_mem hd, hed.symm⟩
  have hresolved : ∀ e ∈ b.definitions, ∃ other, e.resolved b = .ok other := by
    intro e he
    obtain ⟨d, hd, hde⟩ := hdefinition e he
    obtain ⟨written, _, hwritten⟩ := forall₂_exists_right (Except.mapM_ok_iff.1 ht) hd
    obtain ⟨other, hother, _⟩ := hde.resolved h hwritten
    exact ⟨other, hother⟩
  obtain ⟨others, ho⟩ := Except.exists_mapM_ok_iff.2 hresolved
  refine ⟨others, ho, ?_, ?_⟩
  · intro written hw
    obtain ⟨d, hd, hwritten⟩ := Except.exists_of_mapM_ok ht hw
    obtain ⟨e, he, hde⟩ := h.get? (ha.mem_definitions_iff.1 hd)
    obtain ⟨other, hother, halike⟩ := hde.resolved h hwritten
    obtain ⟨same, hsame, heq⟩ := forall₂_exists_right (Except.mapM_ok_iff.1 ho) (hb.get?_mem he)
    obtain rfl := Except.ok.inj (heq.symm.trans hother)
    exact ⟨same, hsame, halike⟩
  · intro other hm
    obtain ⟨e, he, hother⟩ := Except.exists_of_mapM_ok ho hm
    obtain ⟨d, hd, hde⟩ := hdefinition e he
    obtain ⟨written, hw, hwritten⟩ := forall₂_exists_right (Except.mapM_ok_iff.1 ht) hd
    obtain ⟨same, hsame, halike⟩ := hde.resolved h hwritten
    obtain rfl := Except.ok.inj (hsame.symm.trans hother)
    exact ⟨written, hw, halike⟩

end Written

theorem plannedFields_perm {tables others : List Table} (h : tables.Perm others) :
    (plannedFields tables).Perm (plannedFields others) :=
  (h.flatMap_right _).map _

theorem rootsOf_perm {tables others : List Table} (h : tables.Perm others) : rootsOf tables = rootsOf others := by
  refine List.filter_congr fun root _ => ?_
  rw [Bool.eq_iff_iff, List.any_eq_true, List.any_eq_true]
  exact exists_congr fun table => and_congr_left fun _ => h.mem_iff

theorem registeredNames_perm {tables others : List Table} (h : tables.Perm others) :
    (registeredNames tables).Perm (registeredNames others) := by
  rw [registeredNames, registeredNames, rootsOf_perm h]
  exact (h.flatMap_right _).append_right _

namespace Schema

variable {s t : Schema} {tables others : List Table}

theorem Built.get?_alike {name : String} {d : TypeDefinition} (hs : s.Built tables (plannedFields tables))
    (ht : t.Built others (plannedFields others)) (hp : tables.Perm others)
    (hd : s.registry.get? name = some d) : ∃ e, t.registry.get? name = some e ∧ d.Alike e := by
  have hkey := hs.keyed.key_of_get? hd
  rcases (hs.definitions d).1 (hs.keyed.get?_mem hd) with ⟨table, hm, types, htypes, hdef⟩ | ⟨root, hr, rfl⟩
  · have hsame : d ∈ t.registry.definitions :=
      (ht.definitions d).2 (.inl ⟨table, hp.mem_iff.1 hm, types, htypes, hdef⟩)
    rw [ht.keyed.mem_definitions_iff, Registry.get?_congr hkey] at hsame
    exact ⟨d, hsame, .refl d⟩
  · have hroot : root ∈ t.roots := by
      obtain ⟨field, hf⟩ := (hs.roots root).1 hr
      exact (ht.roots root).2 ⟨field, (plannedFields_perm hp).mem_iff.1 hf⟩
    refine ⟨rootType (plannedFields others) root, ?_, ?_⟩
    · rw [← Registry.get?_congr hkey]
      exact ht.get?_root hroot
    · exact .object (((plannedFields_perm hp).filter _).map _)

/-- Tables whose types are all there bring the same types in any order. -/
theorem Built.alike (hs : s.Built tables (plannedFields tables)) (ht : t.Built others (plannedFields others))
    (hp : tables.Perm others) : s.registry.Alike t.registry := by
  refine Registry.alike_of_subset (fun name d hd => hs.get?_alike ht hp hd) fun name e he => ?_
  obtain ⟨d, hd, _⟩ := ht.get?_alike hs hp.symm he
  exact ⟨d, hd⟩

end Schema

end TableApi
