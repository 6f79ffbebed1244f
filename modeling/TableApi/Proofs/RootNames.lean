import TableApi.Proofs.Passes
import TableApi.Proofs.TableTypes

/-! Under which names the object types of roots are registered. Where a table came first, under a name that
is read as that of a root, its fields stand before those of the operations, and the comparison at the end
finds them. -/
namespace TableApi

theorem Table.Accepted.fields_ne_nil {table : Table} {types : List TypeDefinition} (h : table.Accepted)
    (ht : table.types = .ok types) : ∀ d ∈ types, d.category = .type → d.fields ≠ [] := by
  have hpartition : table.primary.partition ∈ table.allKeys := by
    simp [Table.allKeys, PrimaryKey.keys]
  obtain ⟨entry, he, _⟩ := List.mem_map.1 (h.key_declared hpartition)
  obtain ⟨fields, hf, htypes⟩ := (Table.types_ok_iff h.legalName).1 ht
  obtain ⟨field, hfield, _⟩ := forall₂_exists_right hf he
  have hobject : fields ≠ [] := List.ne_nil_of_mem hfield
  intro d hd hc
  rcases htypes with ⟨_, rfl⟩ | ⟨name, inputs, _, _, rfl⟩
  · rw [List.mem_singleton.1 hd]
    exact hobject
  · rcases List.mem_pair.1 hd with rfl | rfl
    · exact hobject
    · cases hc

namespace Schema

variable {s t : Schema} {d e : TypeDefinition} {r : Registry} {root : RootType} {field : FieldDefinition}
  {added : List (RootType × FieldDefinition)} {v : Unit}

/-- No type has the name of a scalar, and there is no free text. The type of a root in use has the root's
name or more fields than were added to the root. -/
structure Rooted (schema : Schema) (added : List (RootType × FieldDefinition)) : Prop
    extends Aligned schema added where
  keyed : schema.registry.Keyed
  scalars : ∀ d ∈ schema.registry.definitions, Scalar.ofName? d.name = none
  named : ∀ root ∈ schema.roots, ∀ d, schema.registry.get? root.typeName = some d →
    d.name = root.typeName ∨ (fieldsOf root added).length < d.fields.length
  textless : schema.additions = []

/-- Object types have fields unless they are roots. -/
def Fielded (schema : Schema) : Prop :=
  ∀ d ∈ schema.registry.definitions, d.category = .type →
    d.fields ≠ [] ∨ ∃ root : RootType, d.name = root.typeName

theorem rooted_empty : Rooted empty [] where
  toAligned := aligned_empty
  keyed := Registry.keyed_empty
  scalars := by simp [empty, Registry.definitions, Registry.empty, OrderedMap.empty]
  named := by simp [empty]
  textless := rfl

theorem fielded_empty : Fielded empty := by
  simp [Fielded, empty, Registry.definitions, Registry.empty, OrderedMap.empty]

theorem Rooted.register (h : s.Rooted added) (hr : s.registry.register d = .ok (e, r)) :
    Rooted { s with registry := r } added := by
  have haligned := h.toAligned.registers (.cons hr (.nil r))
  have hnamed : ∀ root ∈ s.roots, ∀ d, r.get? root.typeName = some d →
      d.name = root.typeName ∨ (fieldsOf root added).length < d.fields.length := by
    intro root hroot d hd
    obtain ⟨before, hbefore, _⟩ := h.held root hroot
    have hsame := (Registry.register_keeps hr hbefore).symm.trans hd
    exact Option.some.inj hsame ▸ h.named root hroot before hbefore
  refine ⟨haligned, h.keyed.register hr, ?_, hnamed, h.textless⟩
  obtain ⟨hs, ⟨hn, rfl, rfl⟩ | ⟨_, _, rfl⟩⟩ := Registry.register_ok_iff.1 hr
  · intro other ho
    rw [Registry.definitions_enter hn, List.mem_append, List.mem_singleton] at ho
    rcases ho with ho | rfl
    · exact h.scalars other ho
    · exact hs
  · exact h.scalars

theorem Fielded.register (h : s.Fielded) (hr : s.registry.register d = .ok (e, r))
    (hd : d.category = .type → d.fields ≠ [] ∨ ∃ root : RootType, d.name = root.typeName) :
    Fielded { s with registry := r } := by
  obtain ⟨_, ⟨hn, rfl, rfl⟩ | ⟨_, _, rfl⟩⟩ := Registry.register_ok_iff.1 hr
  · intro other ho
    rw [Registry.definitions_enter hn, List.mem_append, List.mem_singleton] at ho
    rcases ho with ho | rfl
    · exact h other ho
    · exact hd
  · exact h

theorem Rooted.registers {types : List TypeDefinition} (h : s.Rooted added)
    (hr : Registry.Registers s.registry types r) : Rooted { s with registry := r } added := by
  induction types generalizing s with
  | nil =>
    obtain rfl := Registry.registers_nil_iff.1 hr
    exact h
  | cons d types ih =>
    obtain ⟨e, mid, hd, hr⟩ := Registry.registers_cons_iff.1 hr
    have hmid := h.register hd
    exact ih (s := { s with registry := mid }) hmid hr

theorem Fielded.registers {types : List TypeDefinition} (h : s.Fielded)
    (hd : ∀ d ∈ types, d.category = .type → d.fields ≠ []) (hr : Registry.Registers s.registry types r) :
    Fielded { s with registry := r } := by
  induction types generalizing s with
  | nil =>
    obtain rfl := Registry.registers_nil_iff.1 hr
    exact h
  | cons d types ih =>
    rw [List.forall_mem_cons] at hd
    obtain ⟨e, mid, he, hr⟩ := Registry.registers_cons_iff.1 hr
    have hmid := h.register he fun hc => .inl (hd.1 hc)
    exact ih (s := { s with registry := mid }) hmid hd.2 hr

/-- A type that a root takes over is its own from another name only if it has fields. -/
theorem Rooted.useRoot (h : s.Rooted added) (ho : s.Fielded) (hu : Gives (useRoot root) s v t) :
    t.Rooted added ∧ t.Fielded := by
  have haligned := (h.toAligned.useRoot hu).1
  rcases gives_useRoot.1 hu with ⟨_, rfl⟩ | ⟨hroot, e, r, hr, rfl⟩
  · exact ⟨h, ho⟩
  · have hregistered := h.register hr
    have hnil := h.toAligned.fieldsOf_eq_nil hroot
    have hown : e.name = root.typeName ∨ (fieldsOf root added).length < e.fields.length := by
      obtain ⟨_, ⟨_, rfl, _⟩ | ⟨hg, hc, _⟩⟩ := Registry.register_ok_iff.1 hr
      · exact .inl rfl
      · rcases ho e (h.keyed.get?_mem hg) hc with hfields | ⟨other, hname⟩
        · right
          rw [hnil]
          exact List.length_pos_iff.2 hfields
        · have hkey := h.keyed.key_of_get? hg
          rw [hname, RootType.emptyType_name, RootType.key_eq_iff] at hkey
          exact .inl (hkey ▸ hname)
    refine ⟨⟨haligned, hregistered.keyed, hregistered.scalars, ?_, h.textless⟩, ?_⟩
    · intro other hother d hd
      rcases List.mem_append.1 hother with hother | hother
      · exact hregistered.named other hother d hd
      · obtain rfl := List.mem_singleton.1 hother
        have hget := Registry.register_get? hr
        exact Option.some.inj (hget.symm.trans hd) ▸ hown
    · exact ho.register hr fun _ => .inr ⟨root, rfl⟩

theorem Rooted.addRootField (h : s.Rooted added) (ho : s.Fielded)
    (hg : Gives (addRootField root field) s v t) : t.Rooted (added ++ [(root, field)]) ∧ t.Fielded := by
  have haligned := h.toAligned.addRootField hg
  obtain ⟨u, d, hu, hd, hc, _, rfl⟩ := gives_addRootField.1 hg
  obtain ⟨h, ho⟩ := h.useRoot ho hu
  have hfields : (d.addField field).fields = d.fields ++ [field] := TypeDefinition.addField_fields hc
  have hmem : ∀ other, other ∈ (u.registry.addField root.typeName field).definitions →
      other ∈ u.registry.definitions ∨ other = d.addField field := by
    intro other hother
    exact ((h.keyed.mem_addField_iff hd).1 hother).imp_left And.left
  refine ⟨⟨haligned, h.keyed.addField, ?_, ?_, h.textless⟩, ?_⟩
  · intro other hother
    rcases hmem other hother with hother | rfl
    · exact h.scalars other hother
    · rw [TypeDefinition.addField_name]
      exact h.scalars d (h.keyed.get?_mem hd)
  · -- the type of the root grows by one field, as do the fields that were added to it
    intro other hother e he
    rw [Registry.get?_addField] at he
    rw [fieldsOf_append, fieldsOf_singleton]
    by_cases hsame : other = root
    · subst hsame
      rw [if_pos rfl, hd, Option.map_some, Option.some.injEq] at he
      subst he
      rw [if_pos rfl, TypeDefinition.addField_name, hfields, List.length_append, List.length_append]
      exact (h.named other hother d hd).imp_right fun hlt => Nat.add_lt_add_right hlt 1
    · rw [if_neg (mt RootType.key_eq_iff.1 hsame)] at he
      rw [if_neg (Ne.symm hsame), List.append_nil]
      exact h.named other hother e he
  · intro other hother hcategory
    rcases hmem other hother with hother | rfl
    · exact ho other hother hcategory
    · left
      rw [hfields]
      exact List.append_ne_nil_of_right_ne_nil _ (List.cons_ne_nil _ _)

theorem Rooted.addRootFields {base : String} {operations : List Operation} (h : s.Rooted added)
    (ho : s.Fielded) (hg : Gives (forM operations fun operation =>
      Schema.addRootField operation.root (operation.toField base)) s v t) :
    t.Rooted (added ++ rootFieldsOf base operations) ∧ t.Fielded := by
  induction operations generalizing s added with
  | nil =>
    obtain rfl := gives_forM_nil.1 hg
    simpa [rootFieldsOf] using And.intro h ho
  | cons operation operations ih =>
    obtain ⟨u, hu, hg⟩ := gives_forM_cons.1 hg
    obtain ⟨hmid, homid⟩ := h.addRootField ho hu
    simpa [rootFieldsOf] using ih hmid homid hg

theorem Rooted.addTable {table : Table} (h : s.Rooted added) (ho : s.Fielded) (ha : table.Accepted)
    (hg : Gives (addTable table table.plan) s v t) :
    t.Rooted (added ++ rootFieldsOf table.baseName table.plan) ∧ t.Fielded := by
  have haligned := h.toAligned.addTable hg
  obtain ⟨_, types, r, u, htypes, hr, hu, rfl⟩ := gives_addTable.1 hg
  have hregistered := h.registers hr
  have hfielded := ho.registers (ha.fields_ne_nil htypes) hr
  obtain ⟨hadded, hofielded⟩ := hregistered.addRootFields hfielded hu
  exact ⟨⟨haligned, hadded.keyed, hadded.scalars, hadded.named, hadded.textless⟩, hofielded⟩

end Schema

theorem Run.rooted {pass last : Synthesis} {tables : List Table} {all : List Planned}
    (h : Run pass (tables.map .table) last) (hr : pass.schema.Rooted (all.map Planned.rootField))
    (ho : pass.schema.Fielded) (ha : ∀ table ∈ tables, table.Accepted) :
    last.schema.Rooted ((all ++ tables.flatMap Planned.ofTable).map Planned.rootField) := by
  induction tables generalizing pass all with
  | nil =>
    cases h
    simpa using hr
  | cons table tables ih =>
    rw [List.forall_mem_cons] at ha
    cases h with
    | table hg h =>
      obtain ⟨t, ht, rfl⟩ := Synthesis.gives_addTable.1 hg
      obtain ⟨hmid, homid⟩ := hr.addTable ho ha.1 ht
      rw [← Planned.map_rootField_ofTable, ← List.map_append] at hmid
      rw [List.flatMap_cons, ← List.append_assoc]
      exact ih h hmid homid ha.2

namespace Config

variable {config : Config} {id : String} {label : Option String} {last : Synthesis}

theorem pass_rooted (hb : config.BuiltAccepted) (hp : config.pass id label = .ok last) :
    ∃ all, last.Follows all ∧ last.schema.Rooted (all.map Planned.rootField) := by
  obtain ⟨tables, ht, hrun⟩ := pass_ok_iff.1 hp
  obtain ⟨mid, types, r, hmid, _, hr, rfl⟩ := Run.types_last_iff.1 hrun
  have hstart : (config.start id).schema.Rooted (([] : List Planned).map Planned.rootField) :=
    Schema.rooted_empty
  have hrooted := hmid.rooted hstart Schema.fielded_empty (buildTables_accepted hb ht)
  exact ⟨_, follows_of_run hrun, hrooted.registers hr⟩

/-- A root that the comparison lets pass has an object type of its own name. -/
theorem root_named {all : List Planned} (hf : last.Follows all)
    (hr : last.schema.Rooted (all.map Planned.rootField)) (hv : last.verify = .ok ()) :
    ∀ root ∈ last.schema.roots, ∃ d ∈ last.schema.registry.definitions,
      d.name = root.typeName ∧ d.category = .type := by
  intro root hroot
  obtain ⟨d, hd, hc⟩ := hr.held root hroot
  have hfields : d.fields = fieldsOf root (all.map Planned.rootField) := by
    rw [← Schema.rootFields_of_get? hroot hd, hf.rootFields hv, Planned.fieldsOf_map_rootField]
  have hname : d.name = root.typeName := by
    rcases hr.named root hroot d hd with hname | hlt
    · exact hname
    · rw [hfields] at hlt
      exact absurd hlt (Nat.lt_irrefl _)
  exact ⟨d, hr.keyed.get?_mem hd, hname, hc⟩

end Config

end TableApi
