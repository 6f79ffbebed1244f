import TableApi.Proofs.BuiltTypes

/-! What an update adds to a schema, be it refused or not. Nothing that was added before a refusal is taken back,
so the fields of roots only grow. -/
namespace TableApi

namespace Schema

variable {s t u : Schema} {added more later fields : List (RootType × FieldDefinition)} {root : RootType}
  {field : FieldDefinition} {v : Unit}

/-- Roots in use keep their fields where nothing that is registered changes. -/
theorem rootFields_sublist (hroots : s.roots ⊆ t.roots)
    (hkeeps : ∀ name e, s.registry.get? name = some e → t.registry.get? name = some e) (root : RootType) :
    (s.rootFields root).Sublist (t.rootFields root) := by
  by_cases hr : root ∈ s.roots
  · cases hd : s.registry.get? root.typeName with
    | none => simp [rootFields, hd]
    | some d => rw [rootFields_of_get? hr hd, rootFields_of_get? (hroots hr) (hkeeps _ d hd)]
  · rw [rootFields_of_not_mem hr]
    exact List.nil_sublist _

/-- The second schema has the fields of the first and more, in the order in which they were added. What a root
takes over when it comes into use is not among them. -/
structure Grows (s : Schema) (more : List (RootType × FieldDefinition)) (t : Schema) : Prop where
  aligned : ∀ added, s.Aligned added → t.Aligned (added ++ more)
  fields : ∀ root, (s.rootFields root ++ fieldsOf root more).Sublist (t.rootFields root)

namespace Grows

theorem refl (s : Schema) : s.Grows [] s where
  aligned added h := by rwa [List.append_nil]
  fields root := by simp [fieldsOf]

theorem trans (h : s.Grows more t) (g : t.Grows later u) : s.Grows (more ++ later) u where
  aligned added ha := by
    rw [← List.append_assoc]
    exact g.aligned _ (h.aligned _ ha)
  fields root := by
    rw [fieldsOf_append, ← List.append_assoc]
    exact ((h.fields root).append_right _).trans (g.fields root)

theorem of_keeps (hroots : t.roots = s.roots)
    (hkeeps : ∀ name e, s.registry.get? name = some e → t.registry.get? name = some e) : s.Grows [] t where
  aligned added h := by
    rw [List.append_nil]
    exact h.of_keeps hroots hkeeps
  fields root := by
    have hsub := rootFields_sublist (hroots ▸ List.Subset.refl _) hkeeps root
    simpa [fieldsOf] using hsub

theorem useRoot (h : Gives (useRoot root) s v t) : s.Grows [] t where
  aligned added ha := by
    rw [List.append_nil]
    exact (ha.useRoot h).1
  fields other := by
    have hsub : (s.rootFields other).Sublist (t.rootFields other) := by
      rcases gives_useRoot.1 h with ⟨_, rfl⟩ | ⟨_, e, r, hr, rfl⟩
      · exact .refl _
      · exact rootFields_sublist (List.subset_append_left _ _) (fun _ _ he => Registry.register_keeps hr he) other
    simpa [fieldsOf] using hsub

theorem addRootField (h : Gives (addRootField root field) s v t) : s.Grows [(root, field)] t where
  aligned added ha := ha.addRootField h
  fields other := by
    obtain ⟨u, hu, _, _, hfields⟩ := rootFields_addRootField h
    have hsub := (useRoot hu).fields other
    rw [hfields]
    refine List.Sublist.append_right ?_ _
    simpa [fieldsOf] using hsub

end Grows

section Refused

variable {α β : Type} {update : Updating Schema α} {next : α → Updating Schema β}

/-- Where the update is refused it has changed nothing. -/
def Intact (update : Updating Schema α) : Prop :=
  ∀ s e t, outcome update s = (.error e, t) → t = s

theorem intact_throw {e : Error} : Intact (throw e : Updating Schema α) := by
  intro s f t h
  cases h
  rfl

theorem intact_check_bind {x : Except Error α} (h : ∀ a, Intact (next a)) : Intact (liftM x >>= next) := by
  intro s e t ho
  rw [outcome_bind] at ho
  cases x with
  | error f =>
    cases ho
    rfl
  | ok a => exact h a s e t ho

theorem intact_register {d : TypeDefinition} : Intact (register d) := by
  intro s e t h
  rw [register, outcome_get_bind, outcome_bind] at h
  cases hr : s.registry.register d with
  | error f =>
    rw [hr] at h
    cases h
    rfl
  | ok result =>
    rw [hr] at h
    cases h

theorem intact_register_of_check {x : Except Error TypeDefinition} :
    Intact (do register (← (x : Except Error TypeDefinition)) : Updating Schema TypeDefinition) :=
  intact_check_bind fun _ => intact_register

theorem intact_register_of_checks {x : Except Error α} {f : α → Except Error TypeDefinition} :
    Intact (do register (← (f (← (x : Except Error α)) : Except Error TypeDefinition)) :
      Updating Schema TypeDefinition) :=
  intact_check_bind fun _ => intact_register_of_check

theorem intact_useRoot : Intact (useRoot root) := by
  intro s e t h
  rw [useRoot, outcome_get_bind] at h
  split at h
  · cases h
  · rw [outcome_bind] at h
    rcases ho : outcome (register ⟨root.typeName, [], .object []⟩) s with ⟨f | d, u⟩
    · have hsame := intact_register s f u ho
      rw [ho] at h
      cases h
      exact hsame
    · rw [ho] at h
      cases h

/-- Whatever comes of the update, the schema grows; if the update is not refused, it grows by these fields. -/
def Adds (update : Updating Schema α) (s : Schema) (fields : List (RootType × FieldDefinition)) : Prop :=
  ∃ more, s.Grows more (outcome update s).2 ∧ ∀ a, (outcome update s).1 = .ok a → more = fields

theorem adds_pure {a : α} : Adds (pure a) s [] :=
  ⟨[], .refl s, fun _ _ => rfl⟩

theorem adds_throw {e : Error} : Adds (throw e : Updating Schema α) s fields :=
  ⟨[], .refl s, fun _ h => by cases h⟩

theorem adds_of_gives {a : α} (h : Gives update s a t) (hg : s.Grows fields t) : Adds update s fields := by
  refine ⟨fields, ?_, fun _ _ => rfl⟩
  rwa [show outcome update s = (.ok a, t) from h]

theorem Intact.adds (h : Intact update) (hg : ∀ a t, Gives update s a t → s.Grows fields t) :
    Adds update s fields := by
  rcases ho : outcome update s with ⟨e | a, t⟩
  · obtain rfl := h s e t ho
    exact ⟨[], by rw [ho]; exact .refl t, fun a ha => by rw [ho] at ha; cases ha⟩
  · exact adds_of_gives ho (hg a t ho)

theorem adds_bind (h : Adds update s more) (hn : ∀ a t, Gives update s a t → Adds (next a) t later) :
    Adds (update >>= next) s (more ++ later) := by
  obtain ⟨first, hfirst, hmore⟩ := h
  unfold Adds
  rw [outcome_bind]
  rcases ho : outcome update s with ⟨e | a, t⟩
  · rw [ho] at hfirst
    exact ⟨first, hfirst, fun _ h => by cases h⟩
  · rw [ho] at hfirst hmore
    obtain ⟨second, hsecond, hlater⟩ := hn a t ho
    refine ⟨first ++ second, hfirst.trans hsecond, fun b hb => ?_⟩
    rw [hmore a rfl, hlater b hb]

/-- What comes first adds nothing. -/
theorem adds_then (h : Adds update s []) (hn : ∀ a t, Gives update s a t → Adds (next a) t fields) :
    Adds (update >>= next) s fields :=
  adds_bind h hn

theorem adds_get_bind {f : Schema → Updating Schema β} (h : Adds (f s) s fields) :
    Adds (get >>= f) s fields :=
  h

theorem adds_forM {xs : List α} {f : α → Updating Schema PUnit} {g : α → List (RootType × FieldDefinition)}
    (h : ∀ x s, Adds (f x) s (g x)) : Adds (forM xs f) s (xs.flatMap g) := by
  induction xs generalizing s with
  | nil => exact adds_pure
  | cons x xs ih => exact adds_bind (h x s) fun _ _ _ => ih

end Refused

theorem Grows.register {d e : TypeDefinition} (h : Gives (register d) s e t) : s.Grows [] t := by
  obtain ⟨r, hr, rfl⟩ := gives_register.1 h
  exact .of_keeps rfl fun _ _ he => Registry.register_keeps hr he

/-- A field that is refused may leave its root in use. -/
theorem adds_addRootField : Adds (addRootField root field) s [(root, field)] := by
  have huse : Adds (useRoot root) s [] := intact_useRoot.adds fun _ _ => .useRoot
  refine adds_then huse fun _ u hu => adds_get_bind ?_
  split
  · next fields hd =>
    split
    · exact adds_throw
    · next hany =>
      have hr : Gives (useRoot root) u () u := gives_useRoot.2 (.inl ⟨mem_roots_of_useRoot hu, rfl⟩)
      have hne : ∀ f ∈ fields, f.name ≠ field.name := by simpa using hany
      have hg := gives_addRootField (v := ()).2 ⟨u, _, hr, hd, rfl, hne, rfl⟩
      exact adds_of_gives (a := ⟨⟩) (gives_set.2 rfl) (.addRootField hg)
  · exact adds_throw

theorem adds_object {name : String} {attributes : Attributes} {interfaces : List String} :
    Adds (addObject name attributes interfaces) s [] :=
  intact_register_of_checks.adds fun _ _ h => by
    obtain ⟨_, _, hr⟩ := gives_register_of_checks.1 h
    exact .register hr

theorem adds_input {name : String} {attributes : Attributes} : Adds (addInput name attributes) s [] :=
  intact_register_of_checks.adds fun _ _ h => by
    obtain ⟨_, _, hr⟩ := gives_register_of_checks.1 h
    exact .register hr

theorem adds_fields {base : String} {operations : List Operation} : Adds (operations.forM fun operation =>
    addRootField operation.root (operation.toField base)) s (rootFieldsOf base operations) := by
  rw [rootFieldsOf, List.map_eq_flatMap]
  exact adds_forM fun _ _ => adds_addRootField

theorem adds_tables {name : String} :
    Adds (modify fun schema => { schema with tables := schema.tables ++ [name] }) s [] :=
  adds_of_gives (a := ⟨⟩) (gives_modify.2 rfl) (.of_keeps rfl fun _ _ he => he)

/-- A table that is refused may leave its types and some of its fields. -/
theorem adds_addTable {table : Table} {operations : List Operation} :
    Adds (addTable table operations) s (rootFieldsOf table.baseName operations) := by
  have hrest : ∀ s, Adds (do
      operations.forM fun operation => addRootField operation.root (operation.toField table.baseName)
      modify fun schema => { schema with tables := schema.tables ++ [table.baseName] }) s
      (rootFieldsOf table.baseName operations) := by
    intro s
    rw [← List.append_nil (rootFieldsOf table.baseName operations)]
    exact adds_bind adds_fields fun _ _ _ => adds_tables
  refine adds_get_bind ?_
  by_cases ht : table.baseName ∈ s.tables
  · simp only [List.contains_eq_mem, ht, decide_true, if_true]
    exact adds_then adds_throw fun a t h => absurd h (by simp)
  · simp only [List.contains_eq_mem, ht, decide_false, Bool.false_eq_true, if_false]
    refine adds_then adds_object fun _ t _ => ?_
    cases table.inputTypeName with
    | none => exact hrest t
    | some input => exact adds_then adds_input fun _ u _ => hrest u

end Schema

namespace AuxiliaryTypes

theorem intact_registerOne {category : TypeCategory} {name : String} {shape : TypeShape} :
    Schema.Intact (registerOne category name shape) := by
  unfold registerOne
  split
  · exact Schema.intact_register_of_check
  · exact Schema.intact_register_of_check
  · exact Schema.intact_throw
  · exact Schema.intact_throw
  · exact Schema.intact_throw
  all_goals exact Schema.intact_register_of_checks

theorem adds_register {declared : AuxiliaryTypes} {s : Schema} : Schema.Adds declared.register s [] := by
  have hone : ∀ (declaration : TypeCategory × String × TypeShape) s, Schema.Adds (do
      let _ ← registerOne declaration.1 declaration.2.1 declaration.2.2) s [] := by
    intro declaration s
    refine Schema.adds_then (intact_registerOne.adds fun d t h => ?_) fun _ _ _ => Schema.adds_pure
    obtain ⟨_, _, hr⟩ := gives_registerOne.1 h
    exact .register hr
  have hall : Schema.Adds declared.register s (declared.declarations.flatMap fun _ => []) := Schema.adds_forM hone
  rwa [List.flatMap_eq_nil_iff.2 fun _ _ => rfl] at hall

end AuxiliaryTypes

end TableApi
