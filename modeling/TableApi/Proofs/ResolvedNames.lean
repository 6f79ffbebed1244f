import TableApi.Proofs.LegalNames
import TableApi.Proofs.TypeGrammar

/-! The names that types are written with. Such a name is resolved to itself and stands for what it was written for,
so that a reference that is read again from a schema is a reference to the same type. -/
namespace TableApi

namespace TypeRef

variable {ref : TypeRef} {name : String}

@[simp] theorem isList_withName (ref : TypeRef) (name : String) : (ref.withName name).isList = ref.isList := by
  cases ref <;> rfl

@[simp] theorem isRequired_withName (ref : TypeRef) (name : String) :
    (ref.withName name).isRequired = ref.isRequired := by
  cases ref <;> rfl

@[simp] theorem isRequiredList_withName (ref : TypeRef) (name : String) :
    (ref.withName name).isRequiredList = ref.isRequiredList := by
  cases ref <;> rfl

theorem renderAs_withName (ref : TypeRef) (name other : String) :
    (ref.withName name).renderAs other = ref.renderAs other := by
  cases ref <;> rfl

theorem parseType_renderAs (ref : TypeRef) (h : isLegalName name) :
    Key.parseType (ref.renderAs name) = .ok (ref.withName name) := by
  have hspells : Spells (ref.withName name) (ref.withName name).render.toList := spells_render (by simpa using h)
  rw [Key.parseType_ok_iff, parse?_eq_some_iff, ← render_withName]
  exact hspells

end TypeRef

namespace Registry

variable {registry after : Registry} {d e : TypeDefinition} {name written text : String}

/-- The registries that come about by registering types that could be made. A type that is refused leaves the
registry as it is. -/
inductive Reached : Registry → Prop
  | empty : Reached empty
  | register {registry after : Registry} {text : String} {body : TypeBody} {interfaces : List String}
      {d e : TypeDefinition} : Reached registry → TypeDefinition.make text body interfaces = .ok d →
      registry.register d = .ok (e, after) → Reached after
  | addField {registry : Registry} {name : String} {field : FieldDefinition} : Reached registry →
      Reached (registry.addField name field)

/-- Every type is under the key of its name, and its name is legal and no scalar's. -/
structure Orderly (registry : Registry) : Prop where
  keyed : registry.Keyed
  legal : ∀ d ∈ registry.definitions, isLegalName d.name
  scalars : ∀ d ∈ registry.definitions, Scalar.ofName? d.name = none

theorem orderly_empty : Orderly empty :=
  ⟨keyed_empty, fun _ hd => absurd hd List.not_mem_nil, fun _ hd => absurd hd List.not_mem_nil⟩

theorem Orderly.register (h : registry.Orderly) (hlegal : isLegalName d.name)
    (hr : registry.register d = .ok (e, after)) : after.Orderly := by
  refine ⟨h.keyed.register hr, ?_, ?_⟩
  all_goals
    obtain ⟨hscalar, ⟨hnone, rfl, rfl⟩ | ⟨_, _, rfl⟩⟩ := register_ok_iff.1 hr
  · rw [definitions_enter hnone, List.forall_mem_append, List.forall_mem_singleton]
    exact ⟨h.legal, hlegal⟩
  · exact h.legal
  · rw [definitions_enter hnone, List.forall_mem_append, List.forall_mem_singleton]
    exact ⟨h.scalars, hscalar⟩
  · exact h.scalars

/-- A field changes no name. -/
theorem Orderly.addField {field : FieldDefinition} (h : registry.Orderly) : (registry.addField name field).Orderly := by
  have hnames : ∀ d ∈ (registry.addField name field).definitions, ∃ old ∈ registry.definitions, old.name = d.name := by
    rw [h.keyed.definitions_addField, List.forall_mem_map]
    intro old hold
    refine ⟨old, hold, ?_⟩
    split
    · rw [TypeDefinition.addField_name]
    · rfl
  refine ⟨h.keyed.addField, fun d hd => ?_, fun d hd => ?_⟩
  · obtain ⟨old, hold, hname⟩ := hnames d hd
    exact hname ▸ h.legal old hold
  · obtain ⟨old, hold, hname⟩ := hnames d hd
    exact hname ▸ h.scalars old hold

theorem Reached.orderly (h : registry.Reached) : registry.Orderly := by
  induction h with
  | empty => exact orderly_empty
  | register _ hmake hr ih => exact ih.register (TypeDefinition.make_named hmake).name hr
  | addField _ ih => exact ih.addField

/-- What a name stands for: a scalar, or else a registered type. -/
def meaning? (registry : Registry) (name : String) : Option (Scalar ⊕ TypeDefinition) :=
  match Scalar.ofName? name with
  | some scalar => some (.inl scalar)
  | none => (registry.get? name).map .inr

/-- A name is resolved to the name of what it stands for. -/
theorem resolve_ok_iff : registry.resolve name = .ok written ↔
    (∃ scalar, registry.meaning? name = some (.inl scalar) ∧ scalar.render = written) ∨
      ∃ d, registry.meaning? name = some (.inr d) ∧ d.name = written := by
  unfold resolve meaning?
  cases Scalar.ofName? name with
  | some scalar => simp
  | none => cases registry.get? name <;> simp

/-- The name that a type is written with stands for this very type, be it found as a scalar under its key or under its
rendered name, or as a registered type. -/
theorem Orderly.meaning?_written (h : registry.Orderly) (hr : registry.resolve name = .ok written) :
    registry.meaning? written = registry.meaning? name ∧ isLegalName written := by
  rcases resolve_ok_iff.1 hr with ⟨scalar, hmeaning, rfl⟩ | ⟨d, hmeaning, rfl⟩
  · rw [hmeaning, meaning?, scalar.ofName?_render]
    exact ⟨rfl, scalar.legal_render⟩
  · have hget : registry.get? name = some d := by
      unfold meaning? at hmeaning
      cases hs : Scalar.ofName? name <;> simp_all
    have hmem := h.keyed.get?_mem hget
    rw [hmeaning, meaning?, h.scalars d hmem, h.keyed.mem_definitions_iff.1 hmem]
    exact ⟨rfl, h.legal d hmem⟩

theorem resolve_congr {other : String} (h : registry.meaning? name = registry.meaning? other)
    (hr : registry.resolve other = .ok written) : registry.resolve name = .ok written := by
  rw [resolve_ok_iff] at hr ⊢
  rwa [h]

/-- Any reference, written with the name to which its own is resolved, is read as a reference of the same form to the
same type, and is written the same again. -/
theorem resolve_stable (h : registry.Reached) (ref : TypeRef) (hr : registry.resolve ref.name = .ok written) :
    registry.resolve written = .ok written ∧ registry.meaning? written = registry.meaning? ref.name ∧
      ∃ again, Key.parseType (ref.renderAs written) = .ok again ∧ again.name = written ∧
        again.isList = ref.isList ∧ again.isRequired = ref.isRequired ∧ again.isRequiredList = ref.isRequiredList ∧
        again.renderIn registry = .ok (ref.renderAs written) := by
  obtain ⟨hmeaning, hlegal⟩ := h.orderly.meaning?_written hr
  have hself := resolve_congr hmeaning hr
  have hparse := ref.parseType_renderAs hlegal
  refine ⟨hself, hmeaning, ref.withName written, hparse, by simp, by simp, by simp, by simp, ?_⟩
  rw [TypeRef.renderIn, TypeRef.withName_name, hself]
  exact congrArg Except.ok (ref.renderAs_withName written written)

/-- An enum with a mark behind the name of a scalar in lower case. It is not the scalar. -/
def noons : TypeDefinition := ⟨"awstime_", [], .enum ["NOON"]⟩

/-- The enum and the scalar stay apart, in whatever case they are written. -/
theorem noons_stable : ∃ registry, Reached registry ∧
    registry.resolve "Awstime_" = .ok "awstime_" ∧ registry.resolve "awstime_" = .ok "awstime_" ∧
    registry.meaning? "awstime_" = some (.inr noons) ∧
    (∃ again, Key.parseType "[awstime_!]!" = .ok again ∧ again.renderIn registry = .ok "[awstime_!]!") ∧
    registry.resolve "aws_time" = .ok "AWSTime" ∧ registry.resolve "AWSTime" = .ok "AWSTime" ∧
    registry.meaning? "AWSTime" = some (.inl .awsTime) := by
  obtain ⟨⟨_, registry⟩, hregistered, hresolved, hscalar, hnoons, htime⟩ := Except.exists_ok_of_decide
    (x := empty.register noons) (p := fun registered =>
      registered.2.resolve "Awstime_" = .ok "awstime_" ∧ registered.2.resolve "aws_time" = .ok "AWSTime" ∧
      registered.2.meaning? "Awstime_" = some (.inr noons) ∧ registered.2.meaning? "aws_time" = some (.inl .awsTime))
    (by decide +kernel)
  have hmade : TypeDefinition.make "awstime_" (.enum ["NOON"]) [] = .ok noons := by decide
  have hreached : Reached registry := .register .empty hmade hregistered
  obtain ⟨hself, hmeaning, again, hparse, -, -, -, -, hrender⟩ :=
    resolve_stable hreached (.list "Awstime_" true true) hresolved
  obtain ⟨hagain, hsame, -⟩ := resolve_stable hreached (.single "aws_time" false) hscalar
  exact ⟨registry, hreached, hresolved, hself, hmeaning.trans hnoons, ⟨again, hparse, hrender⟩, hscalar, hagain,
    hsame.trans htime⟩

end Registry

end TableApi
