import TableApi.Proofs.Rendering

/-! The text of a schema is that of definitions in which every type goes by the name it was registered
with. -/
namespace TableApi

section Checks

variable {ε α β γ : Type} {f : α → Except ε β} {xs : List α}

theorem Except.mapM_map (g : β → γ) :
    (xs.mapM fun x => g <$> f x) = (fun ys => ys.map g) <$> xs.mapM f := by
  induction xs with
  | nil => rfl
  | cons x xs ih =>
    rw [List.mapM_cons, List.mapM_cons, ih]
    cases f x with
    | error e => rfl
    | ok y =>
      cases xs.mapM f with
      | error e => rfl
      | ok ys => rfl

end Checks

variable {registry : Registry}

namespace TypeRef

def withName (ref : TypeRef) (name : String) : TypeRef :=
  match ref with
  | single _ required => single name required
  | list _ itemRequired required => list name itemRequired required

@[simp] theorem withName_name (ref : TypeRef) (name : String) : (ref.withName name).name = name := by
  cases ref <;> rfl

theorem render_withName (ref : TypeRef) (name : String) : (ref.withName name).render = ref.renderAs name := by
  cases ref <;> rfl

def resolved (ref : TypeRef) (registry : Registry) : Except Error TypeRef := do
  return ref.withName (← registry.resolve ref.name)

theorem renderIn_eq (ref : TypeRef) : ref.renderIn registry = render <$> ref.resolved registry := by
  unfold renderIn resolved
  cases registry.resolve ref.name with
  | error e => rfl
  | ok name => exact congrArg Except.ok (ref.render_withName name).symm

end TypeRef

namespace ArgumentDefinition

def resolved (argument : ArgumentDefinition) (registry : Registry) : Except Error ArgumentDefinition := do
  return ⟨argument.name, ← argument.type.resolved registry⟩

def text (argument : ArgumentDefinition) : String :=
  argument.name ++ ": " ++ argument.type.render

theorem renderIn_eq (argument : ArgumentDefinition) :
    argument.renderIn registry = text <$> argument.resolved registry := by
  unfold renderIn resolved
  rw [TypeRef.renderIn_eq]
  cases argument.type.resolved registry with
  | error e => rfl
  | ok type => rfl

end ArgumentDefinition

namespace FieldDefinition

def resolved (field : FieldDefinition) (registry : Registry) : Except Error FieldDefinition := do
  return ⟨field.name, ← field.arguments.mapM (·.resolved registry), ← field.type.resolved registry⟩

def argumentText (arguments : List ArgumentDefinition) : String :=
  if arguments.isEmpty then ""
  else "(" ++ String.intercalate " " (arguments.map ArgumentDefinition.text) ++ ")"

def text (field : FieldDefinition) : String :=
  field.name ++ argumentText field.arguments ++ ": " ++ field.type.render

theorem renderArguments_eq (arguments : List ArgumentDefinition) :
    renderArguments arguments registry =
      argumentText <$> arguments.mapM (·.resolved registry) := by
  cases arguments with
  | nil => rfl
  | cons argument arguments =>
    unfold renderArguments
    simp only [ArgumentDefinition.renderIn_eq, Except.mapM_map]
    rw [List.mapM_cons]
    cases argument.resolved registry with
    | error e => rfl
    | ok first =>
      cases arguments.mapM (·.resolved registry) with
      | error e => rfl
      | ok others => rfl

theorem renderIn_eq (field : FieldDefinition) : field.renderIn registry = text <$> field.resolved registry := by
  unfold renderIn resolved
  rw [renderArguments_eq, TypeRef.renderIn_eq]
  cases field.arguments.mapM (·.resolved registry) with
  | error e => rfl
  | ok arguments =>
    cases field.type.resolved registry with
    | error e => rfl
    | ok type => rfl

end FieldDefinition

namespace TypeDefinition

variable {d written : TypeDefinition}

/-- A definition of fields with every name replaced by the one that it was registered with. -/
def resolvedFields (d : TypeDefinition) (registry : Registry) (fields : List FieldDefinition)
    (body : List FieldDefinition → TypeBody) : Except Error TypeDefinition := do
  let interfaces ← d.interfaces.mapM (d.resolveMember .interface registry)
  return ⟨d.name, interfaces, body (← fields.mapM (·.resolved registry))⟩

def resolved (d : TypeDefinition) (registry : Registry) : Except Error TypeDefinition :=
  match d.body with
  | .object fields => d.resolvedFields registry fields .object
  | .input fields => d.resolvedFields registry fields .input
  | .interface fields => d.resolvedFields registry fields .interface
  | .union members => do return ⟨d.name, [], .union (← members.mapM (d.resolveMember .type registry))⟩
  | .enum values => .ok ⟨d.name, [], .enum values⟩

def interfaceText (interfaces : List String) : String :=
  if interfaces.isEmpty then "" else " implements " ++ String.intercalate " & " interfaces

def fieldLines (d : TypeDefinition) (fields : List FieldDefinition) : List String :=
  (d.category.keyword ++ " " ++ d.name ++ interfaceText d.interfaces ++ openingBrace) ::
    fields.map (fun field => "  " ++ field.text) ++ [closingBrace]

/-- How the definition is written, with every name as it stands. -/
def lines (d : TypeDefinition) : List String :=
  match d.body with
  | .object fields | .input fields | .interface fields => d.fieldLines fields
  | .union members => ["union " ++ d.name ++ " = " ++ String.intercalate " | " members]
  | .enum values => ("enum " ++ d.name ++ openingBrace) :: values.map ("  " ++ ·) ++ [closingBrace]

theorem renderInterfaces_eq (d : TypeDefinition) : d.renderInterfaces registry =
    interfaceText <$> d.interfaces.mapM (d.resolveMember .interface registry) := by
  unfold renderInterfaces
  cases d.interfaces with
  | nil => rfl
  | cons name names =>
    rw [List.mapM_cons]
    cases d.resolveMember .interface registry name with
    | error e => rfl
    | ok first =>
      cases names.mapM (d.resolveMember .interface registry) with
      | error e => rfl
      | ok others => rfl

theorem renderFields_eq {fields : List FieldDefinition} {body : List FieldDefinition → TypeBody}
    (hlines : ∀ interfaces resolved, lines ⟨d.name, interfaces, body resolved⟩ =
      fieldLines ⟨d.name, interfaces, d.body⟩ resolved) :
    d.renderFields fields registry = lines <$> d.resolvedFields registry fields body := by
  have hfields : (fields.mapM fun field => do return "  " ++ (← field.renderIn registry) : Except Error _) =
      (fun resolved => resolved.map fun field => "  " ++ field.text) <$> fields.mapM (·.resolved registry) := by
    rw [← Except.mapM_map]
    congr 1
    funext field
    rw [FieldDefinition.renderIn_eq]
    cases field.resolved registry <;> rfl
  unfold renderFields resolvedFields
  rw [renderInterfaces_eq, hfields]
  cases d.interfaces.mapM (d.resolveMember .interface registry) with
  | error e => rfl
  | ok interfaces =>
    cases fields.mapM (·.resolved registry) with
    | error e => rfl
    | ok resolved => exact congrArg Except.ok (hlines interfaces resolved).symm

theorem renderLines_eq (d : TypeDefinition) : d.renderLines registry = lines <$> d.resolved registry := by
  obtain ⟨name, interfaces, body⟩ := d
  unfold renderLines resolved
  cases body with
  | object fields | input fields | interface fields => exact renderFields_eq fun _ _ => rfl
  | union members =>
    dsimp only
    cases members.mapM (resolveMember ⟨name, interfaces, .union members⟩ .type registry) with
    | error e => rfl
    | ok names => rfl
  | enum values => rfl

end TypeDefinition

/-- The registered definitions as they are written. -/
def Registry.written (registry : Registry) : Except Error (List TypeDefinition) :=
  registry.definitions.mapM fun d => d.resolved registry

namespace Schema

/-- The text is written from the block of the roots, the resolved definitions and the additions. -/
theorem render_ok_iff {schema : Schema} {text : String} : schema.render = .ok text ↔ ∃ types,
    schema.registry.written = .ok types ∧
      text = ofLines (rootLines schema.roots ++ types.flatMap TypeDefinition.lines ++
        schema.additions.map additionLine) := by
  simp only [render, typeLines, Registry.written, TypeDefinition.renderLines_eq, Except.mapM_map,
    Except.bind_ok_iff, Except.map_ok_iff, Except.pure_ok_iff]
  constructor
  · rintro ⟨_, ⟨_, ⟨types, ht, rfl⟩, rfl⟩, rfl⟩
    exact ⟨types, ht, rfl⟩
  · rintro ⟨types, ht, rfl⟩
    exact ⟨_, ⟨_, ⟨types, ht, rfl⟩, rfl⟩, rfl⟩

end Schema

end TableApi
