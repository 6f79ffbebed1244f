import TableApi.Proofs.NameIndex
import TableApi.Proofs.WritableSchemas

/-! Free text in a schema. Wherever among other calls the texts are added, and whatever becomes of the other calls,
the texts follow the types in the order in which they were added, each on lines of its own. -/
namespace TableApi

namespace Schema

variable {α β : Type} {s : Schema} {texts : List String} {edits : List Edit}

/-- The schema with other additions in place of its own. -/
def withAdditions (s : Schema) (texts : List String) : Schema :=
  { s with additions := texts }

/-- The update neither looks at the additions nor changes them, and this also when it is refused. -/
def PassesTexts (update : Updating Schema α) : Prop :=
  ∀ s texts, outcome update (s.withAdditions texts) = (outcome update s).map id (·.withAdditions texts)

theorem passesTexts_pure {a : α} : PassesTexts (pure a) :=
  fun _ _ => rfl

theorem passesTexts_throw {e : Error} : PassesTexts (throw e : Updating Schema α) :=
  fun _ _ => rfl

theorem passesTexts_throw_bind {e : Error} {f : α → Updating Schema β} :
    PassesTexts ((throw e : Updating Schema α) >>= f) :=
  fun _ _ => rfl

theorem passesTexts_check {x : Except Error α} : PassesTexts (liftM x : Updating Schema α) := by
  intro s texts
  cases x <;> rfl

theorem passesTexts_modify {change : Schema → Schema}
    (h : ∀ s texts, change (s.withAdditions texts) = (change s).withAdditions texts) :
    PassesTexts (modify change) := by
  intro s texts
  exact congrArg (fun t => (Except.ok PUnit.unit, t)) (h s texts)

theorem PassesTexts.bind {x : Updating Schema α} {f : α → Updating Schema β} (hx : PassesTexts x)
    (hf : ∀ a, PassesTexts (f a)) : PassesTexts (x >>= f) := by
  intro s texts
  rw [outcome_bind, outcome_bind, hx]
  rcases outcome x s with ⟨e | a, t⟩
  · rfl
  · exact hf a t texts

theorem passesTexts_get_bind {f : Schema → Updating Schema β} (hf : ∀ s, PassesTexts (f s))
    (hsame : ∀ s texts, f (s.withAdditions texts) = f s) : PassesTexts (get >>= f) := by
  intro s texts
  rw [outcome_get_bind, outcome_get_bind, hsame, hf]

theorem passesTexts_forM {f : α → Updating Schema PUnit} {as : List α} (h : ∀ a ∈ as, PassesTexts (f a)) :
    PassesTexts (as.forM f) := by
  induction as with
  | nil => exact passesTexts_pure
  | cons a as ih =>
    rw [List.forall_mem_cons] at h
    exact h.1.bind fun _ => ih h.2

theorem passesTexts_register (d : TypeDefinition) : PassesTexts (register d) := by
  intro s texts
  rw [outcome_register, outcome_register, withAdditions]
  cases s.registry.register d <;> rfl

theorem passesTexts_useRoot (root : RootType) : PassesTexts (useRoot root) := by
  intro s texts
  rw [outcome_useRoot, outcome_useRoot, withAdditions]
  split
  · rfl
  · cases s.registry.register root.emptyType <;> rfl

theorem passesTexts_addRootField (root : RootType) (field : FieldDefinition) :
    PassesTexts (addRootField root field) := by
  intro s texts
  rw [outcome_addRootField, outcome_addRootField, passesTexts_useRoot]
  rcases outcome (useRoot root) s with ⟨e | _, used⟩
  · rfl
  · simp only [Prod.map, id, withAdditions]
    split
    · split <;> rfl
    · rfl

theorem passesTexts_addObject (name : String) (attributes : Attributes) (interfaces : List String) :
    PassesTexts (addObject name attributes interfaces) :=
  passesTexts_check.bind fun _ => passesTexts_check.bind passesTexts_register

theorem passesTexts_addInput (name : String) (attributes : Attributes) : PassesTexts (addInput name attributes) :=
  passesTexts_check.bind fun _ => passesTexts_check.bind passesTexts_register

theorem passesTexts_addInterface (name : String) (attributes : Attributes) :
    PassesTexts (addInterface name attributes) :=
  passesTexts_check.bind fun _ => passesTexts_check.bind passesTexts_register

theorem passesTexts_addUnion (name : String) (members : List String) : PassesTexts (addUnion name members) :=
  passesTexts_check.bind passesTexts_register

theorem passesTexts_addEnum (name : String) (values : List String) : PassesTexts (addEnum name values) :=
  passesTexts_check.bind passesTexts_register

theorem passesTexts_registerOne (category : TypeCategory) (name : String) (shape : TypeShape) :
    PassesTexts (AuxiliaryTypes.registerOne category name shape) := by
  unfold AuxiliaryTypes.registerOne
  split
  · exact passesTexts_addEnum _ _
  · exact passesTexts_addUnion _ _
  · exact passesTexts_throw
  · exact passesTexts_throw
  · exact passesTexts_throw
  · exact passesTexts_addObject _ _ _
  · exact passesTexts_addObject _ _ _
  · exact passesTexts_addInput _ _
  · exact passesTexts_addInput _ _
  · exact passesTexts_addInterface _ _
  · exact passesTexts_addInterface _ _

theorem passesTexts_types (declared : AuxiliaryTypes) : PassesTexts declared.register :=
  passesTexts_forM fun (category, name, shape) _ =>
    (passesTexts_registerOne category name shape).bind fun _ => passesTexts_pure

theorem passesTexts_addTable (table : Table) (operations : List Operation) :
    PassesTexts (addTable table operations) := by
  have hlast : PassesTexts (modify fun schema => { schema with tables := schema.tables ++ [table.baseName] }) :=
    passesTexts_modify fun _ _ => rfl
  have hfields : PassesTexts (do
      operations.forM fun operation => addRootField operation.root (operation.toField table.baseName)
      modify fun schema => { schema with tables := schema.tables ++ [table.baseName] }) :=
    (passesTexts_forM fun _ _ => passesTexts_addRootField _ _).bind fun _ => hlast
  refine passesTexts_get_bind (fun s => ?_) fun _ _ => rfl
  by_cases ht : table.baseName ∈ s.tables
  · simp only [List.contains_eq_mem, ht, decide_true, if_true]
    exact passesTexts_throw_bind
  · simp only [List.contains_eq_mem, ht, decide_false, Bool.false_eq_true, if_false]
    refine (passesTexts_addObject _ _ _).bind fun _ => ?_
    cases table.inputTypeName with
    | none => exact hfields
    | some input => exact (passesTexts_addInput _ _).bind fun _ => hfields

/-- The text that a call adds. -/
def Edit.text? : Edit → Option String
  | text added => some added
  | _ => none

/-- A call that adds no text leaves the texts alone, whether or not it is refused. -/
theorem passesTexts_update {edit : Edit} (h : edit.text? = none) : PassesTexts edit.update := by
  cases edit with
  | object name attributes interfaces =>
    exact (passesTexts_addObject name attributes interfaces).bind fun _ => passesTexts_pure
  | input name attributes => exact (passesTexts_addInput name attributes).bind fun _ => passesTexts_pure
  | interface name attributes => exact (passesTexts_addInterface name attributes).bind fun _ => passesTexts_pure
  | union name members => exact (passesTexts_addUnion name members).bind fun _ => passesTexts_pure
  | enum name values => exact (passesTexts_addEnum name values).bind fun _ => passesTexts_pure
  | types declared => exact passesTexts_types declared
  | table added operations => exact passesTexts_addTable added operations
  | field root added => exact passesTexts_addRootField root added
  | text added => cases h

/-- The schema after all calls have been tried one after another. A refused call leaves what it did until then. -/
def tried (s : Schema) (edits : List Edit) : Schema :=
  edits.foldl (fun s edit => (outcome edit.update s).2) s

/-- The texts that are added, in order. -/
def addedTexts (edits : List Edit) : List String :=
  edits.filterMap Edit.text?

/-- All calls but those that add texts. -/
def withoutTexts (edits : List Edit) : List Edit :=
  edits.filter (·.text?.isNone)

theorem text?_eq_some_iff {edit : Edit} {added : String} : edit.text? = some added ↔ edit = .text added := by
  cases edit <;> simp [Edit.text?]

theorem tried_cons (s : Schema) (edit : Edit) (edits : List Edit) :
    s.tried (edit :: edits) = (outcome edit.update s).2.tried edits := rfl

theorem addedTexts_text (added : String) : addedTexts (.text added :: edits) = added :: addedTexts edits := rfl

theorem addedTexts_other {edit : Edit} (h : edit.text? = none) : addedTexts (edit :: edits) = addedTexts edits :=
  List.filterMap_cons_none h

theorem withoutTexts_text (added : String) : withoutTexts (.text added :: edits) = withoutTexts edits := rfl

theorem withoutTexts_other {edit : Edit} (h : edit.text? = none) :
    withoutTexts (edit :: edits) = edit :: withoutTexts edits :=
  List.filter_cons_of_pos (by rw [h]; rfl)

theorem addedTexts_withoutTexts (edits : List Edit) : addedTexts (withoutTexts edits) = [] := by
  simp [addedTexts, withoutTexts, List.filterMap_eq_nil_iff]

theorem withoutTexts_withoutTexts (edits : List Edit) : withoutTexts (withoutTexts edits) = withoutTexts edits := by
  simp [withoutTexts, List.filter_filter]

/-- Texts are gathered in the order of their calls; all else is as if they had not been added. -/
theorem tried_withAdditions : (s.withAdditions texts).tried edits =
    (s.tried (withoutTexts edits)).withAdditions (texts ++ addedTexts edits) := by
  -- A refused call changes the schema as well, so that the induction is over any schema to start from.
  induction edits generalizing s texts with
  | nil =>
    rw [addedTexts, List.filterMap_nil, List.append_nil]
    rfl
  | cons edit edits ih =>
    cases htext : edit.text? with
    | some added =>
      obtain rfl := text?_eq_some_iff.1 htext
      have hadded : (outcome (Edit.text added).update (s.withAdditions texts)).2 =
          s.withAdditions (texts ++ [added]) := rfl
      rw [tried_cons, hadded, ih, withoutTexts_text, addedTexts_text, List.append_assoc, List.singleton_append]
    | none =>
      rw [tried_cons, passesTexts_update htext, Prod.map_snd, ih, withoutTexts_other htext, tried_cons,
        addedTexts_other htext]

theorem tried_empty (edits : List Edit) :
    empty.tried edits = (empty.tried (withoutTexts edits)).withAdditions (addedTexts edits) := by
  change (empty.withAdditions []).tried edits = _
  exact tried_withAdditions

/-- A text with an end to its last line. -/
def lineEnded (text : String) : String :=
  if text.toList.getLast? = some '\n' then text else text ++ "\n"

theorem additionLine_append (text : String) : additionLine text ++ "\n" = lineEnded text := by
  unfold additionLine lineEnded
  split
  · next rest hreverse =>
    have htext : text.toList = rest.reverse ++ ['\n'] := List.reverse_eq_cons_iff.1 hreverse
    rw [htext, List.getLast?_concat, if_pos rfl, ← String.toList_inj, String.toList_append, String.toList_ofList, htext]
    rfl
  · next hother =>
    have hlast : text.toList.getLast? ≠ some '\n' := by
      rw [ne_eq, List.getLast?_eq_some_iff]
      rintro ⟨start, hstart⟩
      exact hother start.reverse (by rw [hstart, List.reverse_append]; rfl)
    rw [if_neg hlast]

theorem ofLines_additions (texts : List String) :
    ofLines (texts.map additionLine) = String.join (texts.map lineEnded) := by
  rw [ofLines, List.map_map]
  exact congrArg String.join (List.map_congr_left fun text _ => additionLine_append text)

theorem render_eq (s : Schema) : s.render = (typeLines s.registry).map fun types =>
    ofLines (rootLines s.roots ++ types) ++ String.join (s.additions.map lineEnded) := by
  unfold render
  cases typeLines s.registry with
  | error e => rfl
  | ok types => exact congrArg Except.ok (by rw [ofLines_append, ofLines_additions])

theorem render_withAdditions (s : Schema) (texts : List String) :
    (s.withAdditions texts).render = (s.withAdditions []).render.map (· ++ String.join (texts.map lineEnded)) := by
  rw [render_eq, render_eq, withAdditions, withAdditions]
  cases typeLines s.registry with
  | error e => rfl
  | ok types => exact congrArg Except.ok (by simp)

/-- What is written after any calls, refused or not, is what is written without the texts among them, and then the
texts in the order of their calls; and it is refused as it is without the texts. -/
theorem render_after_texts (edits : List Edit) :
    (empty.tried edits).render = (empty.tried (withoutTexts edits)).render.map
      (· ++ String.join ((addedTexts edits).map lineEnded)) := by
  have hothers : empty.tried (withoutTexts edits) = (empty.tried (withoutTexts edits)).withAdditions [] := by
    have htried := tried_empty (withoutTexts edits)
    rwa [withoutTexts_withoutTexts, addedTexts_withoutTexts] at htried
  rw [tried_empty, render_withAdditions, ← hothers]

/-- The empty text takes a line, and of several ends of lines one is dropped and one is added. -/
example : (empty.tried [.text "", .enum "Size" ["SMALL"], .text "scalar Day\n", .enum "Size" ["3"],
    .text "# end\n\n"]).render.toOption = some "enum Size \x7b\n  SMALL\n\x7d\n\nscalar Day\n# end\n\n" := by
  decide

end Schema

end TableApi
