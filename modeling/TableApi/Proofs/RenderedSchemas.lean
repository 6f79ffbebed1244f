import TableApi.Proofs.Composition
import TableApi.Proofs.UniqueReading

/-! Rendering loses nothing but spellings where fields and arguments have legal names. Schemas that are built by
registering types and adding tables, and that are written as the same text, then have the same roots and the same types
with the same fields. -/
namespace TableApi

namespace TypeDefinition

variable {d : TypeDefinition} {text : String} {body : TypeBody} {interfaces : List String} {field : FieldDefinition}

/-- What is known of a definition that was made for a schema before its types are resolved. -/
structure Proper (d : TypeDefinition) : Prop where
  named : d.Named
  bare : d.category = .union ∨ d.category = .enum → d.interfaces = []

theorem make_proper (h : make text body interfaces = .ok d)
    (hbare : body.category = .union ∨ body.category = .enum → interfaces = []) : d.Proper := by
  have hnamed := make_named h
  obtain rfl := make_ok h
  exact ⟨hnamed, hbare⟩

/-- A definition with declared fields. -/
theorem make_proper_of_attributes {attributes : Attributes} {f : List FieldDefinition → TypeBody}
    (hbody : f ∈ [TypeBody.object, TypeBody.input, TypeBody.interface])
    (h : (FieldDefinition.ofAttributes attributes >>= fun fields => make text (f fields) interfaces) = .ok d) :
    d.Proper := by
  obtain ⟨fields, _, h⟩ := Except.bind_ok_iff.1 h
  simp only [List.mem_cons, List.not_mem_nil, or_false] at hbody
  rcases hbody with rfl | rfl | rfl
  all_goals exact make_proper h (by simp [TypeBody.category])

theorem emptyType_proper (root : RootType) : root.emptyType.Proper where
  named := ⟨root.legal_typeName, fun _ hv => absurd hv List.not_mem_nil⟩
  bare _ := rfl

theorem Proper.addField (h : d.Proper) : (d.addField field).Proper := by
  obtain ⟨name, interfaces, body⟩ := d
  cases body with
  | object fields => exact ⟨⟨h.named.name, fun _ hv => absurd hv List.not_mem_nil⟩, h.bare⟩
  | _ => exact h

end TypeDefinition

namespace Registry

variable {registry after : Registry} {d e : TypeDefinition} {types : List TypeDefinition} {name : String}
  {field : FieldDefinition}

structure Proper (registry : Registry) : Prop where
  keyed : registry.Keyed
  definitions : ∀ d ∈ registry.definitions, d.Proper

theorem proper_empty : Proper empty :=
  ⟨keyed_empty, fun _ hd => absurd hd List.not_mem_nil⟩

theorem Proper.register (h : registry.Proper) (hd : d.Proper) (hr : registry.register d = .ok (e, after)) :
    after.Proper := by
  refine ⟨h.keyed.register hr, ?_⟩
  obtain ⟨_, ⟨hnone, rfl, rfl⟩ | ⟨_, _, rfl⟩⟩ := register_ok_iff.1 hr
  · rw [definitions_enter hnone, List.forall_mem_append, List.forall_mem_singleton]
    exact ⟨h.definitions, hd⟩
  · exact h.definitions

theorem Proper.registers (h : registry.Proper) (ht : ∀ d ∈ types, d.Proper) (hr : Registers registry types after) :
    after.Proper := by
  induction hr with
  | nil => exact h
  | cons hr _ ih =>
    rw [List.forall_mem_cons] at ht
    exact ih (h.register ht.1 hr) ht.2

theorem Proper.addField (h : registry.Proper) : (registry.addField name field).Proper := by
  refine ⟨h.keyed.addField, ?_⟩
  rw [h.keyed.definitions_addField, List.forall_mem_map]
  intro d hd
  split
  · exact (h.definitions d hd).addField
  · exact h.definitions d hd

end Registry

theorem Table.types_proper {table : Table} {types : List TypeDefinition} (h : table.types = .ok types) :
    ∀ d ∈ types, d.Proper := by
  unfold Table.types at h
  simp only [Except.bind_ok_iff] at h
  obtain ⟨fields, hfields, d, hd, h⟩ := h
  have hobject := TypeDefinition.make_proper_of_attributes (f := .object) (by simp)
    (Except.bind_ok_iff.2 ⟨fields, hfields, hd⟩)
  cases hname : table.inputTypeName with
  | none =>
    rw [hname] at h
    obtain rfl := Except.pure_ok_iff.1 h
    exact List.forall_mem_singleton.2 hobject
  | some name =>
    simp only [hname, Except.bind_ok_iff, Except.pure_ok_iff] at h
    obtain ⟨inputs, hinputs, e, he, rfl⟩ := h
    have hinput := TypeDefinition.make_proper_of_attributes (f := .input) (by simp)
      (Except.bind_ok_iff.2 ⟨inputs, hinputs, he⟩)
    exact List.forall_mem_cons.2 ⟨hobject, List.forall_mem_singleton.2 hinput⟩

namespace Schema

variable {s t u : Schema} {v : Unit} {root : RootType} {field : FieldDefinition} {d : TypeDefinition}

structure Proper (s : Schema) : Prop where
  registry : s.registry.Proper
  additions : s.additions = []

theorem Proper.useRoot (h : s.Proper) (hg : Gives (useRoot root) s v t) : t.Proper := by
  rcases gives_useRoot.1 hg with ⟨_, rfl⟩ | ⟨_, e, r, hr, rfl⟩
  · exact h
  · exact ⟨h.registry.register (TypeDefinition.emptyType_proper root) hr, h.additions⟩

theorem Proper.addRootField (h : s.Proper) (hg : Gives (addRootField root field) s v t) : t.Proper := by
  obtain ⟨u, _, hu, _, _, _, rfl⟩ := gives_addRootField.1 hg
  have hused := h.useRoot hu
  exact ⟨hused.registry.addField, hused.additions⟩

theorem Proper.addRootFields {base : String} {operations : List Operation} (h : s.Proper)
    (hg : Gives (forM operations fun operation =>
      Schema.addRootField operation.root (operation.toField base)) s v t) : t.Proper := by
  induction operations generalizing s with
  | nil =>
    obtain rfl := gives_forM_nil.1 hg
    exact h
  | cons o operations ih =>
    obtain ⟨u, hu, hg⟩ := gives_forM_cons.1 hg
    exact ih (h.addRootField hu) hg

theorem Proper.addTable {table : Table} {operations : List Operation} (h : s.Proper)
    (hg : Gives (addTable table operations) s v t) : t.Proper := by
  obtain ⟨_, types, r, u, htypes, hr, hu, rfl⟩ := gives_addTable.1 hg
  have hregistered : Proper { s with registry := r } :=
    ⟨h.registry.registers (Table.types_proper htypes) hr, h.additions⟩
  have hadded := hregistered.addRootFields hu
  exact ⟨hadded.registry, hadded.additions⟩

theorem Proper.register (h : s.Proper) (hd : d.Proper) {e : TypeDefinition} (hg : Gives (register d) s e t) :
    t.Proper := by
  obtain ⟨r, hr, rfl⟩ := gives_register.1 hg
  exact ⟨h.registry.register hd hr, h.additions⟩

/-- Schemas that are put together from nothing by updates that are not refused: tables with any operations, and
types of each category. -/
inductive Reached : Schema → Prop
  | empty : Reached .empty
  | table {s t : Schema} {table : Table} {operations : List Operation} : Reached s →
      Gives (addTable table operations) s ⟨⟩ t → Reached t
  | object {s t : Schema} {name : String} {attributes : Attributes} {interfaces : List String}
      {d : TypeDefinition} : Reached s → Gives (addObject name attributes interfaces) s d t → Reached t
  | input {s t : Schema} {name : String} {attributes : Attributes} {d : TypeDefinition} : Reached s →
      Gives (addInput name attributes) s d t → Reached t
  | interface {s t : Schema} {name : String} {attributes : Attributes} {d : TypeDefinition} : Reached s →
      Gives (addInterface name attributes) s d t → Reached t
  | union {s t : Schema} {name : String} {members : List String} {d : TypeDefinition} : Reached s →
      Gives (addUnion name members) s d t → Reached t
  | enum {s t : Schema} {name : String} {values : List String} {d : TypeDefinition} : Reached s →
      Gives (addEnum name values) s d t → Reached t

theorem Reached.proper (h : s.Reached) : s.Proper := by
  induction h with
  | empty => exact ⟨Registry.proper_empty, rfl⟩
  | table _ hg ih => exact ih.addTable hg
  | object _ hg ih =>
    obtain ⟨d, hd, hr⟩ := gives_register_of_checks.1 hg
    exact ih.register (TypeDefinition.make_proper_of_attributes (by simp) hd) hr
  | input _ hg ih =>
    obtain ⟨d, hd, hr⟩ := gives_register_of_checks.1 hg
    exact ih.register (TypeDefinition.make_proper_of_attributes (by simp) hd) hr
  | interface _ hg ih =>
    obtain ⟨d, hd, hr⟩ := gives_register_of_checks.1 hg
    exact ih.register (TypeDefinition.make_proper_of_attributes (by simp) hd) hr
  | union _ hg ih =>
    obtain ⟨d, hd, hr⟩ := gives_register_of_check.1 hg
    exact ih.register (TypeDefinition.make_proper hd fun _ => rfl) hr
  | enum _ hg ih =>
    obtain ⟨d, hd, hr⟩ := gives_register_of_check.1 hg
    exact ih.register (TypeDefinition.make_proper hd fun _ => rfl) hr

end Schema

section Written

variable {registry : Registry} {d written : TypeDefinition}

theorem TypeDefinition.legible_of_mentions (hname : isLegalName d.name)
    (hmentions : ∀ name ∈ d.mentions, isLegalName name)
    (hvalues : ∀ value ∈ d.values, isLegalName value)
    (hfields : ∀ field ∈ d.fields, isLegalName field.name ∧ ∀ name ∈ field.argumentNames, isLegalName name)
    (hbare : d.category = .union ∨ d.category = .enum → d.interfaces = []) : d.Legible := by
  have hlegible : ∀ (fields : List FieldDefinition) interfaces,
      (∀ name ∈ interfaces ++ fields.flatMap FieldDefinition.namedTypes, isLegalName name) →
      (∀ field ∈ fields, isLegalName field.name ∧ ∀ name ∈ field.argumentNames, isLegalName name) →
      (∀ name ∈ interfaces, isLegalName name) ∧ ∀ field ∈ fields, field.Legible := by
    intro fields interfaces hall hnames
    rw [List.forall_mem_append, List.forall_mem_flatMap] at hall
    refine ⟨hall.1, fun field hf => ?_⟩
    have htypes := hall.2 field hf
    rw [FieldDefinition.namedTypes, List.forall_mem_append, List.forall_mem_map, List.forall_mem_singleton] at htypes
    obtain ⟨hfield, harguments⟩ := hnames field hf
    rw [FieldDefinition.argumentNames, List.forall_mem_map] at harguments
    exact ⟨hfield, fun argument ha => ⟨harguments argument ha, htypes.1 argument ha⟩, htypes.2⟩
  have hnone : ∀ name ∈ ([] : List String), isLegalName name := fun _ hm => absurd hm List.not_mem_nil
  obtain ⟨name, interfaces, body⟩ := d
  cases body with
  | object fields | input fields | interface fields =>
    obtain ⟨hinterfaces, hall⟩ := hlegible fields interfaces hmentions hfields
    exact ⟨hname, hinterfaces, hall, hnone, hvalues, hbare⟩
  | union members =>
    obtain rfl := hbare (.inl rfl)
    exact ⟨hname, hnone, fun _ hf => absurd hf List.not_mem_nil, hmentions, hvalues, hbare⟩
  | enum values =>
    obtain rfl := hbare (.inr rfl)
    exact ⟨hname, hnone, fun _ hf => absurd hf List.not_mem_nil, hnone, hvalues, hbare⟩

theorem Registry.Proper.legal_of_writes {name : String} (h : registry.Proper) (hw : registry.Writes name) :
    isLegalName name := by
  rcases hw with ⟨scalar, rfl⟩ | ⟨d, hd, rfl⟩
  · exact scalar.legal_render
  · exact (h.definitions d hd).named.name

/-- Resolution leaves unions and enums without interfaces. -/
theorem TypeDefinition.bare_of_resolved (h : d.resolved registry = .ok written) :
    written.category = .union ∨ written.category = .enum → written.interfaces = [] := by
  have hfields : ∀ fields (body : List FieldDefinition → TypeBody),
      (∀ fields, ¬ ((body fields).category = .union ∨ (body fields).category = .enum)) →
      d.resolvedFields registry fields body = .ok written →
      written.category = .union ∨ written.category = .enum → written.interfaces = [] := by
    intro fields body hcategory h hc
    simp only [resolvedFields, Except.bind_ok_iff, Except.pure_ok_iff] at h
    obtain ⟨interfaces, _, resolved, _, rfl⟩ := h
    exact absurd hc (hcategory resolved)
  unfold resolved at h
  cases hb : d.body with
  | object fields | input fields | interface fields =>
    rw [hb] at h
    exact hfields _ _ (by simp [TypeBody.category]) h
  | union members =>
    simp only [hb, Except.bind_ok_iff, Except.pure_ok_iff] at h
    obtain ⟨names, _, rfl⟩ := h
    exact fun _ => rfl
  | enum values =>
    simp only [hb, Except.ok.injEq] at h
    subst h
    exact fun _ => rfl

/-- A proper definition whose fields and arguments have legal names is written with legal names throughout. -/
theorem Registry.Proper.legible (h : registry.Proper) (hd : d ∈ registry.definitions)
    (hfields : ∀ field ∈ d.fields, isLegalName field.name)
    (harguments : ∀ field ∈ d.fields, ∀ name ∈ field.argumentNames, isLegalName name)
    (hw : d.resolved registry = .ok written) : written.Legible := by
  have hproper := h.definitions d hd
  obtain ⟨hname, _, hmentions⟩ := TypeDefinition.writes_of_resolved h.keyed hw
  refine TypeDefinition.legible_of_mentions (hname ▸ hproper.named.name)
    (fun name hm => h.legal_of_writes (hmentions name hm)) ?_ ?_ (TypeDefinition.bare_of_resolved hw)
  · rw [TypeDefinition.values_of_resolved hw]
    exact hproper.named.values
  · intro field hf
    obtain ⟨declared, hdeclared, hresolved⟩ := forall₂_exists_left (TypeDefinition.fields_of_resolved hw) hf
    obtain ⟨hname, hnames⟩ := FieldDefinition.names_of_resolved hresolved
    rw [hname, hnames]
    exact ⟨hfields declared hdeclared, harguments declared hdeclared⟩

end Written

section Sameness

/-- The names are those of types that are registered under one name. -/
def SameMember (r q : Registry) (a b : String) : Prop :=
  ∃ d e, r.get? a = some d ∧ q.get? b = some e ∧ d.name = e.name

/-- The references resolve to one name, with the same brackets and marks. -/
structure SameReference (r q : Registry) (a b : TypeRef) : Prop where
  name : ∃ name, r.resolve a.name = .ok name ∧ q.resolve b.name = .ok name
  isList : a.isList = b.isList
  isRequired : a.isRequired = b.isRequired
  isRequiredList : a.isRequiredList = b.isRequiredList

structure SameField (r q : Registry) (a b : FieldDefinition) : Prop where
  name : a.name = b.name
  arguments : List.Forall₂ (fun x y => x.name = y.name ∧ SameReference r q x.type y.type) a.arguments b.arguments
  type : SameReference r q a.type b.type

/-- The definitions are the same up to the spelling of the names that they refer to types by. -/
structure SameType (r q : Registry) (d e : TypeDefinition) : Prop where
  name : d.name = e.name
  category : d.category = e.category
  values : d.values = e.values
  interfaces : List.Forall₂ (SameMember r q) d.interfaces e.interfaces
  members : List.Forall₂ (SameMember r q) d.members e.members
  fields : List.Forall₂ (SameField r q) d.fields e.fields

/-- Lists whose elements stand for the elements of one list correspond to each other. -/
theorem forall₂_join {α β γ : Type} {r : α → γ → Prop} {q : β → γ → Prop} {p : α → β → Prop} {xs : List α}
    {ys : List β} {zs : List γ} (hx : List.Forall₂ r xs zs) (hy : List.Forall₂ q ys zs)
    (h : ∀ a b c, r a c → q b c → p a b) : List.Forall₂ p xs ys := by
  induction hx generalizing ys with
  | nil =>
    cases hy
    exact .nil
  | cons hac _ ih =>
    cases hy with
    | cons hbc hrest => exact .cons (h _ _ _ hac hbc) (ih hrest)

variable {r q : Registry}

theorem sameReference_of_resolved {a b written : TypeRef} (ha : a.resolved r = .ok written)
    (hb : b.resolved q = .ok written) : SameReference r q a b := by
  have hflags : ∀ (registry : Registry) (ref : TypeRef), ref.resolved registry = .ok written →
      ref.isList = written.isList ∧ ref.isRequired = written.isRequired ∧
        ref.isRequiredList = written.isRequiredList := by
    intro registry ref h
    simp only [TypeRef.resolved, Except.bind_ok_iff, Except.pure_ok_iff] at h
    obtain ⟨_, _, rfl⟩ := h
    cases ref <;> exact ⟨rfl, rfl, rfl⟩
  obtain ⟨hal, har, haq⟩ := hflags r a ha
  obtain ⟨hbl, hbr, hbq⟩ := hflags q b hb
  exact ⟨⟨written.name, TypeRef.resolve_of_resolved ha, TypeRef.resolve_of_resolved hb⟩, hal.trans hbl.symm,
    har.trans hbr.symm, haq.trans hbq.symm⟩

theorem ArgumentDefinition.parts_of_resolved {argument written : ArgumentDefinition}
    (h : argument.resolved r = .ok written) :
    argument.name = written.name ∧ argument.type.resolved r = .ok written.type := by
  simp only [resolved, Except.bind_ok_iff, Except.pure_ok_iff] at h
  obtain ⟨type, htype, rfl⟩ := h
  exact ⟨rfl, htype⟩

theorem FieldDefinition.parts_of_resolved {field written : FieldDefinition} (h : field.resolved r = .ok written) :
    field.name = written.name ∧
      List.Forall₂ (fun x y => x.resolved r = .ok y) field.arguments written.arguments ∧
      field.type.resolved r = .ok written.type := by
  simp only [resolved, Except.bind_ok_iff, Except.pure_ok_iff] at h
  obtain ⟨arguments, ha, type, ht, rfl⟩ := h
  exact ⟨rfl, Except.mapM_ok_iff.1 ha, ht⟩

theorem sameField_of_resolved {a b written : FieldDefinition} (ha : a.resolved r = .ok written)
    (hb : b.resolved q = .ok written) : SameField r q a b := by
  obtain ⟨han, haa, hat⟩ := FieldDefinition.parts_of_resolved ha
  obtain ⟨hbn, hba, hbt⟩ := FieldDefinition.parts_of_resolved hb
  refine ⟨han.trans hbn.symm, forall₂_join haa hba fun x y z hx hy => ?_, sameReference_of_resolved hat hbt⟩
  obtain ⟨hxn, hxt⟩ := ArgumentDefinition.parts_of_resolved hx
  obtain ⟨hyn, hyt⟩ := ArgumentDefinition.parts_of_resolved hy
  exact ⟨hxn.trans hyn.symm, sameReference_of_resolved hxt hyt⟩

namespace TypeDefinition

variable {d e written : TypeDefinition}

/-- The name is that of a type that is registered under the text. -/
def Finds (registry : Registry) (name text : String) : Prop :=
  ∃ d, registry.get? name = some d ∧ d.name = text

theorem finds_of_resolveMember {expected : TypeCategory} {name text : String}
    (h : d.resolveMember expected r name = .ok text) : Finds r name text := by
  unfold resolveMember at h
  cases hget : r.get? name with
  | none => simp [hget] at h
  | some member =>
    simp only [hget] at h
    split at h
    · exact ⟨member, hget, Except.ok.inj h⟩
    · cases h

/-- Interfaces and members are written under the names that their types are registered by. -/
theorem finds_of_resolved (hbare : d.category = .union ∨ d.category = .enum → d.interfaces = [])
    (h : d.resolved r = .ok written) :
    List.Forall₂ (Finds r) d.interfaces written.interfaces ∧ List.Forall₂ (Finds r) d.members written.members := by
  obtain ⟨name, interfaces, body⟩ := d
  have hfields : ∀ fields (result : List FieldDefinition → TypeBody),
      (∀ name interfaces fields, members ⟨name, interfaces, result fields⟩ = []) →
      resolvedFields ⟨name, interfaces, body⟩ r fields result = .ok written →
      List.Forall₂ (Finds r) interfaces written.interfaces ∧ written.members = [] := by
    intro fields result hmembers h
    simp only [resolvedFields, Except.bind_ok_iff, Except.pure_ok_iff] at h
    obtain ⟨names, hnames, resolved, _, rfl⟩ := h
    exact ⟨(Except.mapM_ok_iff.1 hnames).imp fun _ _ hm => finds_of_resolveMember hm, hmembers _ _ _⟩
  cases body with
  | object fields | input fields | interface fields =>
    obtain ⟨hinterfaces, hmembers⟩ := hfields _ _ (fun _ _ _ => rfl) h
    rw [hmembers]
    exact ⟨hinterfaces, .nil⟩
  | union names =>
    obtain rfl := hbare (.inl rfl)
    simp only [resolved, Except.bind_ok_iff, Except.pure_ok_iff] at h
    obtain ⟨texts, htexts, rfl⟩ := h
    exact ⟨.nil, (Except.mapM_ok_iff.1 htexts).imp fun _ _ hm => finds_of_resolveMember hm⟩
  | enum values =>
    obtain rfl := hbare (.inr rfl)
    obtain rfl := Except.ok.inj h
    exact ⟨.nil, .nil⟩

/-- Definitions that are resolved to one definition are the same but for spellings. -/
theorem sameType_of_resolved (hr : r.Keyed) (hq : q.Keyed) (hd : d.Proper) (he : e.Proper)
    (hdw : d.resolved r = .ok written) (hew : e.resolved q = .ok written) : SameType r q d e := by
  obtain ⟨hdn, hdc, _⟩ := writes_of_resolved hr hdw
  obtain ⟨hen, hec, _⟩ := writes_of_resolved hq hew
  obtain ⟨hdi, hdm⟩ := finds_of_resolved hd.bare hdw
  obtain ⟨hei, hem⟩ := finds_of_resolved he.bare hew
  have hmember : ∀ a b text, Finds r a text → Finds q b text → SameMember r q a b := by
    rintro a b text ⟨x, hx, hxn⟩ ⟨y, hy, hyn⟩
    exact ⟨x, y, hx, hy, hxn.trans hyn.symm⟩
  exact {
    name := hdn.symm.trans hen
    category := hdc.symm.trans hec
    values := (values_of_resolved hdw).symm.trans (values_of_resolved hew)
    interfaces := forall₂_join hdi hei hmember
    members := forall₂_join hdm hem hmember
    fields := forall₂_join (fields_of_resolved hdw) (fields_of_resolved hew) fun _ _ _ => sameField_of_resolved }

end TypeDefinition

end Sameness

namespace Schema

variable {s t : Schema} {text : String}

/-- All fields of all types have legal names. -/
def FieldsLegal (s : Schema) : Prop :=
  ∀ d ∈ s.registry.definitions, ∀ field ∈ d.fields, isLegalName field.name

/-- All arguments of all fields have legal names. -/
def ArgumentsLegal (s : Schema) : Prop :=
  ∀ d ∈ s.registry.definitions, ∀ field ∈ d.fields, ∀ name ∈ field.argumentNames, isLegalName name

instance (s : Schema) : Decidable s.FieldsLegal :=
  inferInstanceAs (Decidable (∀ d ∈ s.registry.definitions, ∀ field ∈ d.fields, isLegalName field.name))

instance (s : Schema) : Decidable s.ArgumentsLegal :=
  inferInstanceAs (Decidable (∀ d ∈ s.registry.definitions, ∀ field ∈ d.fields,
    ∀ name ∈ field.argumentNames, isLegalName name))

/-- The text is that of the roots and of definitions with legal names. -/
theorem Proper.exists_written (h : s.Proper) (hf : s.FieldsLegal) (ha : s.ArgumentsLegal) (hr : s.render = .ok text) :
    ∃ types, s.registry.written = .ok types ∧ (∀ d ∈ types, d.Legible) ∧
      text = ofLines (rootLines s.roots ++ types.flatMap TypeDefinition.lines) := by
  obtain ⟨types, htypes, htext⟩ := render_ok_iff.1 hr
  rw [h.additions, List.map_nil, List.append_nil] at htext
  refine ⟨types, htypes, fun written hw => ?_, htext⟩
  obtain ⟨d, hd, hresolved⟩ := Except.exists_of_mapM_ok htypes hw
  exact h.registry.legible hd (hf d hd) (ha d hd) hresolved

/-- Of two schemas that are rendered as one text the roots are the same, and so are the types in their order, but for
the spelling of the names that refer to them. -/
theorem render_injective (hs : s.Reached) (ht : t.Reached) (hsf : s.FieldsLegal) (htf : t.FieldsLegal)
    (hsa : s.ArgumentsLegal) (hta : t.ArgumentsLegal) (hsr : s.render = .ok text) (htr : t.render = .ok text) :
    (∀ root, root ∈ s.roots ↔ root ∈ t.roots) ∧
      List.Forall₂ (SameType s.registry t.registry) s.registry.definitions t.registry.definitions := by
  have hs := hs.proper
  have ht := ht.proper
  obtain ⟨types, hst, hsl, hstext⟩ := hs.exists_written hsf hsa hsr
  obtain ⟨others, htt, htl, httext⟩ := ht.exists_written htf hta htr
  obtain ⟨hroots, rfl⟩ := reads_schema hsl htl (hstext.symm.trans httext)
  refine ⟨hroots, ?_⟩
  have hsd := (List.forall₂_and_left _ _).2 ⟨hs.registry.definitions, Except.mapM_ok_iff.1 hst⟩
  have htd := (List.forall₂_and_left _ _).2 ⟨ht.registry.definitions, Except.mapM_ok_iff.1 htt⟩
  refine forall₂_join hsd htd fun d e written hd he => ?_
  exact TypeDefinition.sameType_of_resolved hs.registry.keyed ht.registry.keyed hd.1 he.1 hd.2 he.2

/-- Cats are declared with references to dogs, to an interface and to themselves, and a table of dogs is added. -/
def catsAndDogs (dogs : Table) (enemies named cat : String) : Updating Schema Unit := do
  let _ ← addInterface "Named" (.ofList [("name", "String!")])
  let _ ← addObject "Cat" (.ofList [("name", "String!"), ("enemies", enemies)]) [named]
  let _ ← addUnion "Pet" [cat, "Dog"]
  addTable dogs dogs.plan

theorem reached_catsAndDogs {dogs : Table} {enemies named cat : String}
    (h : left (catsAndDogs dogs enemies named cat) .empty = .ok s) : s.Reached := by
  obtain ⟨_, h⟩ := left_ok_iff.1 h
  simp only [catsAndDogs, gives_bind] at h
  obtain ⟨_, _, hnamed, _, _, hcat, _, _, hpet, hdogs⟩ := h
  exact .table (.union (.object (.interface .empty hnamed) hcat) hpet) hdogs

/-- That two schemas have one text can be computed. -/
theorem exists_text_of_decide (h : s.render.toOption.any fun text => decide
    (t.render.toOption.any fun other => decide (other = text))) :
    ∃ text, s.render = .ok text ∧ t.render = .ok text := by
  obtain ⟨text, hs, hother⟩ := Except.exists_ok_of_decide h
  obtain ⟨_, ht, rfl⟩ := Except.exists_ok_of_decide hother
  exact ⟨_, hs, ht⟩

/-- Dogs are known by their breed. -/
def dogsOfBreed : TableDeclaration :=
  { TableDeclaration.ofName "Dog" (.named "dogId") with
    attributes := some (.typed (.ofList [("dogId", "ID!"), ("breed", "String")])) }

/-- The references are spelled in two ways and written in one. -/
theorem catsAndDogs_render_injective : ∃ (s t : Schema) (text : String), s.Reached ∧ t.Reached ∧ s ≠ t ∧
    s.FieldsLegal ∧ t.FieldsLegal ∧ s.ArgumentsLegal ∧ t.ArgumentsLegal ∧ s.render = .ok text ∧ t.render = .ok text ∧
      (∀ root, root ∈ s.roots ↔ root ∈ t.roots) ∧
      List.Forall₂ (SameType s.registry t.registry) s.registry.definitions t.registry.definitions := by
  obtain ⟨dogs, _, hspelled⟩ := Except.exists_ok_of_decide (x := Table.ofDeclaration dogsOfBreed none)
    (p := fun dogs => (left (catsAndDogs dogs "[Dog!]" "Named" "Cat") .empty).toOption.any fun s => decide
      ((s.FieldsLegal ∧ s.ArgumentsLegal) ∧
        (left (catsAndDogs dogs "[ DOG ! ]" "named" "cat") .empty).toOption.any fun t => decide
          ((t.FieldsLegal ∧ t.ArgumentsLegal) ∧ s ≠ t ∧ s.render.toOption.any fun text => decide
            (t.render.toOption.any fun other => decide (other = text))))) (by decide +kernel)
  obtain ⟨s, hs, ⟨hsf, hsa⟩, hother⟩ := Except.exists_ok_of_decide hspelled
  obtain ⟨t, ht, ⟨htf, hta⟩, hne, htexts⟩ := Except.exists_ok_of_decide hother
  obtain ⟨text, hsr, htr⟩ := exists_text_of_decide htexts
  have hsreached := reached_catsAndDogs hs
  have htreached := reached_catsAndDogs ht
  exact ⟨s, t, text, hsreached, htreached, hne, hsf, htf, hsa, hta, hsr, htr,
    render_injective hsreached htreached hsf htf hsa hta hsr htr⟩

/-- The names of the arguments, type by type and field by field. -/
def argumentNames (s : Schema) : List (List (List String)) :=
  s.registry.definitions.map fun d => d.fields.map FieldDefinition.argumentNames

theorem argumentNames_of_sameTypes
    (h : List.Forall₂ (SameType s.registry t.registry) s.registry.definitions t.registry.definitions) :
    s.argumentNames = t.argumentNames := by
  refine map_eq_map_iff.2 (h.imp fun d e hde => ?_)
  refine map_eq_map_iff.2 (hde.fields.imp fun a b hab => ?_)
  exact map_eq_map_iff.2 (hab.arguments.imp fun x y hxy => hxy.1)

/-- A table of dogs is added with one operation by the keys. -/
def dogsByKeys (dogs : Table) (keys : List KeyArgument) : Updating Schema Unit :=
  addTable dogs [⟨"getDog", .query, .getItem, .single, keys, none, none⟩]

/-- An argument whose name holds the name and type of another is written as the two of them. -/
theorem gluedArguments_render_alike : ∃ (s t : Schema) (text : String), s.Reached ∧ t.Reached ∧
    s.FieldsLegal ∧ t.FieldsLegal ∧ s.render = .ok text ∧ t.render = .ok text ∧
      s.argumentNames = [[[], []], [[]], [["a", "b"]]] ∧ t.argumentNames = [[[], []], [[]], [["a: String b"]]] ∧
      ¬ List.Forall₂ (SameType s.registry t.registry) s.registry.definitions t.registry.definitions := by
  obtain ⟨dogs, _, hadded⟩ := Except.exists_ok_of_decide (x := Table.ofDeclaration dogsOfBreed none)
    (p := fun dogs => (left (dogsByKeys dogs [⟨"a", .named "String", .partition⟩, ⟨"b", .named "Int", .sort⟩])
      .empty).toOption.any fun s => decide
        ((s.FieldsLegal ∧ s.argumentNames = [[[], []], [[]], [["a", "b"]]]) ∧
          (left (dogsByKeys dogs [⟨"a: String b", .named "Int", .partition⟩]) .empty).toOption.any fun t => decide
            ((t.FieldsLegal ∧ t.argumentNames = [[[], []], [[]], [["a: String b"]]]) ∧
              s.render.toOption.any fun text => decide
                (t.render.toOption.any fun other => decide (other = text))))) (by decide +kernel)
  obtain ⟨s, hs, ⟨hsf, hsn⟩, hother⟩ := Except.exists_ok_of_decide hadded
  obtain ⟨t, ht, ⟨htf, htn⟩, htexts⟩ := Except.exists_ok_of_decide hother
  obtain ⟨text, hsr, htr⟩ := exists_text_of_decide htexts
  obtain ⟨_, hs⟩ := left_ok_iff.1 hs
  obtain ⟨_, ht⟩ := left_ok_iff.1 ht
  refine ⟨s, t, text, .table .empty hs, .table .empty ht, hsf, htf, hsr, htr, hsn, htn, fun hsame => ?_⟩
  have hnames := argumentNames_of_sameTypes hsame
  rw [hsn, htn] at hnames
  exact absurd hnames (by decide)

end Schema

end TableApi
