import TableApi.Proofs.SchemaUpdates

/-! The fields of a root are the added ones, after what a type of the root's name had before. -/
namespace TableApi

theorem RootType.key_eq_iff {a b : RootType} : lookupKey a.typeName = lookupKey b.typeName ↔ a = b := by
  constructor
  · intro h
    revert h
    cases a <;> cases b <;> decide
  · rintro rfl
    rfl

/-- The fields that were added to a root, in order. -/
def fieldsOf (root : RootType) (added : List (RootType × FieldDefinition)) : List FieldDefinition :=
  (added.filter (·.1 = root)).map Prod.snd

section FieldsOf

variable {root : RootType} {added : List (RootType × FieldDefinition)} {field : FieldDefinition}

theorem mem_fieldsOf_iff : field ∈ fieldsOf root added ↔ (root, field) ∈ added := by
  simp [fieldsOf]

theorem fieldsOf_append {later : List (RootType × FieldDefinition)} :
    fieldsOf root (added ++ later) = fieldsOf root added ++ fieldsOf root later := by
  simp [fieldsOf]

theorem fieldsOf_singleton {other : RootType} :
    fieldsOf root [(other, field)] = if other = root then [field] else [] := by
  by_cases h : other = root <;> simp [fieldsOf, h]

theorem fieldsOf_sublist {more : List (RootType × FieldDefinition)} (h : added.Sublist more) :
    (fieldsOf root added).Sublist (fieldsOf root more) :=
  (h.filter _).map _

end FieldsOf

namespace Schema

variable {s t : Schema} {root : RootType} {added : List (RootType × FieldDefinition)} {v : Unit}

theorem rootFields_of_get? {d : TypeDefinition} (hr : root ∈ s.roots)
    (hd : s.registry.get? root.typeName = some d) : s.rootFields root = d.fields := by
  simp [rootFields, hr, hd]

theorem rootFields_of_not_mem (hr : root ∉ s.roots) : s.rootFields root = [] := by
  simp [rootFields, hr]

theorem rootFields_congr (hr : root ∈ s.roots ↔ root ∈ t.roots)
    (hg : root ∈ s.roots → s.registry.get? root.typeName = t.registry.get? root.typeName) :
    s.rootFields root = t.rootFields root := by
  by_cases h : root ∈ s.roots
  · simp [rootFields, h, hr.1 h, hg h]
  · simp [rootFields, h, mt hr.2 h]

/-- Roots in use are object types. Their fields end with the added ones; what stands before has other
names, and so have the added ones among each other. -/
structure Aligned (schema : Schema) (added : List (RootType × FieldDefinition)) : Prop where
  held : ∀ root ∈ schema.roots, ∃ d, schema.registry.get? root.typeName = some d ∧ d.category = .type
  distinct : (added.map fun field => (field.1, field.2.name)).Nodup
  fields : ∀ root, ∃ earlier, schema.rootFields root = earlier ++ fieldsOf root added ∧
    ∀ e ∈ earlier, ∀ f ∈ fieldsOf root added, e.name ≠ f.name

theorem aligned_empty : Aligned empty [] where
  held := by simp [empty]
  distinct := .nil
  fields root := ⟨[], rfl, by simp⟩

/-- Nothing has been added to a root that is not in use. -/
theorem Aligned.fieldsOf_eq_nil (h : s.Aligned added) (hr : root ∉ s.roots) : fieldsOf root added = [] := by
  obtain ⟨earlier, hf, _⟩ := h.fields root
  rw [rootFields_of_not_mem hr] at hf
  exact (List.append_eq_nil_iff.1 hf.symm).2

/-- What only adds types leaves the fields of roots alone. -/
theorem Aligned.of_keeps (h : s.Aligned added) (hroots : t.roots = s.roots)
    (hkeeps : ∀ name e, s.registry.get? name = some e → t.registry.get? name = some e) :
    t.Aligned added := by
  refine ⟨?_, h.distinct, ?_⟩
  · intro root hr
    obtain ⟨d, hd, hc⟩ := h.held root (hroots ▸ hr)
    exact ⟨d, hkeeps _ d hd, hc⟩
  · intro root
    have hsame : t.rootFields root = s.rootFields root := by
      refine rootFields_congr (by rw [hroots]) ?_
      intro hr
      obtain ⟨d, hd, _⟩ := h.held root (hroots ▸ hr)
      rw [hkeeps _ d hd, hd]
    rw [hsame]
    exact h.fields root

theorem Aligned.registers {r : Registry} {types : List TypeDefinition} (h : s.Aligned added)
    (hr : Registry.Registers s.registry types r) : Aligned { s with registry := r } added :=
  h.of_keeps rfl fun _ _ he => hr.keeps he

/-- The first use of a root takes over the fields of a type that already goes by its name. -/
theorem Aligned.useRoot (h : s.Aligned added) (hu : Gives (useRoot root) s v t) :
    t.Aligned added ∧ root ∈ t.roots := by
  rcases gives_useRoot.1 hu with ⟨hr, rfl⟩ | ⟨hr, e, r, hreg, rfl⟩
  · exact ⟨h, hr⟩
  · have hmem : root ∈ s.roots ++ [root] := by simp
    have hget := Registry.register_get? hreg
    rw [RootType.emptyType_name] at hget
    have hc : e.category = .type := by
      obtain ⟨_, ⟨_, rfl, _⟩ | ⟨_, hc, _⟩⟩ := Registry.register_ok_iff.1 hreg
      · rfl
      · exact hc
    refine ⟨⟨?_, h.distinct, ?_⟩, hmem⟩
    · intro other ho
      rcases List.mem_append.1 ho with ho | ho
      · obtain ⟨d, hd, hdc⟩ := h.held other ho
        exact ⟨d, Registry.register_keeps hreg hd, hdc⟩
      · rw [List.mem_singleton.1 ho]
        exact ⟨e, hget, hc⟩
    · intro other
      by_cases he : other = root
      · subst he
        have hnil := h.fieldsOf_eq_nil hr
        refine ⟨e.fields, ?_, by simp [hnil]⟩
        rw [hnil, List.append_nil]
        exact rootFields_of_get? hmem hget
      · have hsame : s.rootFields other =
            rootFields { s with registry := r, roots := s.roots ++ [root] } other := by
          refine rootFields_congr (by simp [he]) ?_
          intro ho
          obtain ⟨d, hd, _⟩ := h.held other ho
          exact hd.trans (Registry.register_keeps hreg hd).symm
        rw [← hsame]
        exact h.fields other

theorem mem_roots_of_useRoot (h : Gives (useRoot root) s v t) : root ∈ t.roots := by
  rcases gives_useRoot.1 h with ⟨hr, rfl⟩ | ⟨_, _, _, _, rfl⟩
  · exact hr
  · simp

/-- A field is added at the end of its root, once the root is in use. -/
theorem rootFields_addRootField {field : FieldDefinition} (hg : Gives (addRootField root field) s v t) :
    ∃ u, Gives (useRoot root) s ⟨⟩ u ∧
      t = { u with registry := u.registry.addField root.typeName field } ∧
      (∀ f ∈ u.rootFields root, f.name ≠ field.name) ∧
      ∀ other, t.rootFields other = u.rootFields other ++ fieldsOf other [(root, field)] := by
  obtain ⟨u, d, hu, hd, hc, hne, rfl⟩ := gives_addRootField.1 hg
  have hr := mem_roots_of_useRoot hu
  refine ⟨u, hu, rfl, ?_, ?_⟩
  · rw [rootFields_of_get? hr hd]
    exact hne
  · intro other
    rw [fieldsOf_singleton]
    by_cases he : root = other
    · subst he
      have hown : (u.registry.addField root.typeName field).get? root.typeName = some (d.addField field) := by
        rw [Registry.get?_addField, if_pos rfl, hd, Option.map_some]
      rw [if_pos rfl, rootFields_of_get? hr hd, ← TypeDefinition.addField_fields hc]
      exact rootFields_of_get? hr hown
    · have hother : (u.registry.addField root.typeName field).get? other.typeName =
          u.registry.get? other.typeName := by
        rw [Registry.get?_addField, if_neg (mt RootType.key_eq_iff.1 (Ne.symm he))]
      rw [if_neg he, List.append_nil]
      exact rootFields_congr Iff.rfl fun _ => hother

theorem Aligned.addRootField {field : FieldDefinition} (h : s.Aligned added)
    (hg : Gives (addRootField root field) s v t) : t.Aligned (added ++ [(root, field)]) := by
  obtain ⟨u, hu, rfl, hne, hfields⟩ := rootFields_addRootField hg
  obtain ⟨h, hr⟩ := h.useRoot hu
  have hnew : ∀ f ∈ fieldsOf root added, f.name ≠ field.name := by
    obtain ⟨earlier, hf, _⟩ := h.fields root
    exact fun f hm => hne f (hf ▸ List.mem_append_right _ hm)
  refine ⟨?_, ?_, ?_⟩
  · intro other ho
    obtain ⟨d, hd, hc⟩ := h.held other ho
    rw [Registry.get?_addField]
    split
    · exact ⟨d.addField field, by rw [hd, Option.map_some], TypeDefinition.addField_category.trans hc⟩
    · exact ⟨d, hd, hc⟩
  · rw [List.map_append, List.map_singleton, List.nodup_append]
    refine ⟨h.distinct, by simp, ?_⟩
    rintro _ ha _ hb rfl
    obtain ⟨⟨other, f⟩, hm, he⟩ := List.mem_map.1 ha
    rw [List.mem_singleton.1 hb, Prod.mk.injEq] at he
    obtain ⟨rfl, hname⟩ := he
    exact hnew f (mem_fieldsOf_iff.2 hm) hname
  · intro other
    obtain ⟨earlier, hf, hdisjoint⟩ := h.fields other
    refine ⟨earlier, by rw [hfields, hf, fieldsOf_append, List.append_assoc], ?_⟩
    intro e hearlier f hm
    rw [fieldsOf_append, fieldsOf_singleton] at hm
    rcases List.mem_append.1 hm with hold | hlast
    · exact hdisjoint e hearlier f hold
    · split at hlast
      · next he =>
        subst he
        rw [List.mem_singleton.1 hlast]
        exact hne e (hf ▸ List.mem_append_left _ hearlier)
      · cases hlast

/-- The root fields of operations on the table `base`. -/
def rootFieldsOf (base : String) (operations : List Operation) : List (RootType × FieldDefinition) :=
  operations.map fun operation => (operation.root, operation.toField base)

theorem Aligned.addRootFields {base : String} {operations : List Operation} (h : s.Aligned added)
    (hg : Gives (forM operations fun operation =>
      Schema.addRootField operation.root (operation.toField base)) s v t) :
    t.Aligned (added ++ rootFieldsOf base operations) := by
  induction operations generalizing s added with
  | nil =>
    obtain rfl := gives_forM_nil.1 hg
    simpa [rootFieldsOf] using h
  | cons operation operations ih =>
    obtain ⟨u, hu, hg⟩ := gives_forM_cons.1 hg
    simpa [rootFieldsOf] using ih (h.addRootField hu) hg

theorem Aligned.addTable {table : Table} {operations : List Operation} (h : s.Aligned added)
    (hg : Gives (addTable table operations) s v t) :
    t.Aligned (added ++ rootFieldsOf table.baseName operations) := by
  obtain ⟨_, types, r, u, _, hr, hu, rfl⟩ := gives_addTable.1 hg
  exact ((h.registers hr).addRootFields hu).of_keeps rfl fun _ _ he => he

end Schema

end TableApi
