import TableApi.Proofs.UniqueReading

/-! Requests can be read in one way only. Of each part of a request it is shown that its text can be told from what
follows it, so no two requests have one text. -/
namespace TableApi

theorem endsName_quote {rest : String} : EndsName ("\"" ++ rest) :=
  endsName_append rfl (by decide)

section Keys

namespace KeySource

/-- The name of the argument is legal. -/
def Legible : KeySource → Prop
  | argument name => isLegalName name
  | autoId => True

theorem readable_render : Readable render Legible EndsName := by
  have hapart : ∀ {name x y : String}, "$ctx.args." ++ name ++ x ≠ "$util.autoId()" ++ y := by
    intro name x y he
    rw [String.append_assoc] at he
    exact not_starts_append (by decide) ⟨_, he.symm⟩
  intro a b x y ha hb hx hy he
  cases a with
  | argument name =>
    cases b with
    | argument other =>
      simp only [render, String.append_assoc, String.append_right_inj] at he
      obtain ⟨rfl, hrest⟩ := readable_name ha hb hx hy he
      exact ⟨rfl, hrest⟩
    | autoId => exact absurd he hapart
  | autoId =>
    cases b with
    | argument other => exact absurd he.symm hapart
    | autoId => exact ⟨rfl, (String.append_right_inj _).1 he⟩

end KeySource

theorem storageValue_append {source rest : String} :
    storageValue source ++ rest = "$util.dynamodb.toDynamoDBJson(" ++ (source ++ (")" ++ rest)) := by
  unfold storageValue
  rw [String.append_assoc, String.append_assoc]

namespace KeyAssignment

structure Legible (assignment : KeyAssignment) : Prop where
  name : isLegalName assignment.name
  source : assignment.source.Legible

theorem readable_render : Readable render Legible (fun _ => True) := by
  have hparenthesis : ∀ x, EndsName (")" ++ x) := fun x => endsName_append rfl (by decide)
  intro a b x y ha hb _ _ he
  obtain ⟨name, source⟩ := a
  obtain ⟨other, otherSource⟩ := b
  simp only [render, inQuotes, String.append_assoc, storageValue_append, String.append_right_inj] at he
  obtain ⟨rfl, hsources⟩ := readable_name ha.name hb.name endsName_quote endsName_quote he
  simp only [String.append_right_inj] at hsources
  obtain ⟨rfl, hrest⟩ := KeySource.readable_render ha.source hb.source (hparenthesis _) (hparenthesis _) hsources
  exact ⟨rfl, (String.append_right_inj _).1 hrest⟩

end KeyAssignment

namespace KeyShape

def Legible (shape : KeyShape) : Prop :=
  ∀ assignment ∈ shape.assignments, assignment.Legible

/-- The number of assignments tells the shape. -/
theorem assignments_injective {a b : KeyShape} (h : a.assignments = b.assignments) : a = b := by
  cases a <;> cases b <;> simp_all [assignments]

theorem readable_assignments : Readable (separatedBy ", " KeyAssignment.render)
    (fun assignments => ∀ assignment ∈ assignments, assignment.Legible) (Starts "\x7d") := by
  refine KeyAssignment.readable_render.separatedBy (fun _ => trivial) (fun _ _ => trivial) ?_ ?_
  · exact fun x => not_starts_append (by decide)
  · intro assignment x _
    simp only [KeyAssignment.render, inQuotes, String.append_assoc]
    exact not_starts_append (by decide)

theorem readable_render : Readable render Legible (fun _ => True) := by
  intro a b x y ha hb _ _ he
  simp only [render, inBraces, String.append_assoc, String.append_right_inj] at he
  obtain ⟨hsame, hrest⟩ := readable_assignments ha hb starts_append starts_append he
  exact ⟨assignments_injective hsame, (String.append_right_inj _).1 hrest⟩

end KeyShape

namespace KeyCondition

theorem keys_injective {a b : KeyCondition} (h : a.keys = b.keys) : a = b := by
  cases a
  cases b
  simpa [keys] using h

theorem readable_equality : Readable renderEquality (fun key => isLegalName key) EndsName := by
  have hspace : ∀ x, EndsName (" = :" ++ x) := fun x => endsName_append rfl (by decide)
  intro a b x y ha hb _ _ he
  simp only [renderEquality, String.append_assoc, String.append_right_inj] at he
  obtain ⟨rfl, hrest⟩ := readable_name ha hb (hspace _) (hspace _) he
  simp only [String.append_right_inj] at hrest
  exact ⟨rfl, hrest⟩

theorem readable_expression : Readable (separatedBy " AND " renderEquality)
    (fun keys => ∀ key ∈ keys, isLegalName key) (Starts "\"") := by
  refine readable_equality.separatedBy ?_ ?_ ?_ ?_
  · exact fun x => endsName_append rfl (by decide)
  · exact fun x hx => hx.endsName (endsName_of_literal rfl (by decide))
  · exact fun x => not_starts_append (by decide)
  · intro key x _
    simp only [renderEquality, String.append_assoc]
    exact not_starts_append (by decide)

/-- The expression already tells the keys, and the keys tell what else is written of them. -/
theorem readable_render : Readable render (fun condition => ∀ key ∈ condition.keys, isLegalName key)
    (fun _ => True) := by
  intro a b x y ha hb _ _ he
  have hwhole := he
  simp only [render, inBraces, inQuotes, String.append_assoc, String.append_right_inj] at he
  obtain ⟨hkeys, _⟩ := readable_expression ha hb starts_append starts_append he
  obtain rfl := keys_injective hkeys
  exact ⟨rfl, (String.append_right_inj _).1 hwhole⟩

end KeyCondition

end Keys

section Requests

namespace StorageAction

theorem word_injective {a b : StorageAction} (h : a.word = b.word) : a = b := by
  revert h
  cases a <;> cases b <;> decide

theorem legal_word (action : StorageAction) : isLegalName action.word := by
  cases action <;> decide

end StorageAction

namespace RequestTemplate

/-- Attributes and arguments have legal names, and so does the index if there is one. -/
def Legible : RequestTemplate → Prop
  | scan => True
  | getItem key | putItem key _ | deleteItem key => key.Legible
  | query index condition => (∀ name ∈ index, Table.isIndexName name) ∧ ∀ key ∈ condition.keys, isLegalName key

def projectsInput : RequestTemplate → Bool
  | putItem _ projected => projected
  | _ => false

/-- What stands before the opening brace. -/
def lead (projected : Bool) : String :=
  if projected then inputLine else ""

/-- What stands behind the key. -/
def tail (projected : Bool) : String :=
  if projected then inputMember else ""

/-- What stands behind the action. -/
def rest : RequestTemplate → String
  | scan => ""
  | getItem key | deleteItem key => ", " ++ key.render
  | query index condition => renderIndex index ++ ", " ++ condition.render
  | putItem key projected => ", " ++ key.render ++ tail projected

theorem render_eq (template : RequestTemplate) :
    template.render = lead template.projectsInput ++ inBraces (head template.action ++ template.rest) := by
  cases template with
  | scan | getItem key | deleteItem key =>
    simp only [render, lead, projectsInput, rest, String.append_assoc, String.append_empty, String.empty_append,
      Bool.false_eq_true, if_false]
  | query index condition =>
    simp only [render, lead, projectsInput, rest, String.append_assoc, String.empty_append, Bool.false_eq_true,
      if_false]
  | putItem key projected =>
    cases projected <;>
      simp only [render, lead, tail, projectsInput, rest, String.append_assoc, String.append_empty,
        String.empty_append, Bool.false_eq_true, if_false, if_true]

theorem readable_lead : Readable lead (fun _ => True) (Starts "\x7b") := by
  have hapart : ∀ rest, ¬ Starts "\x7b" (inputLine ++ rest) := fun rest => not_starts_append (by decide)
  intro a b x y _ _ hx hy he
  cases a <;> cases b
  · exact ⟨rfl, (String.append_right_inj _).1 he⟩
  · exact absurd (String.empty_append.symm.trans he ▸ hx) (hapart _)
  · exact absurd (String.empty_append.symm.trans he.symm ▸ hy) (hapart _)
  · exact ⟨rfl, (String.append_right_inj _).1 he⟩

theorem readable_head : Readable head (fun _ => True) (fun _ => True) := by
  intro a b x y _ _ _ _ he
  simp only [head, inQuotes, String.append_assoc, String.append_right_inj] at he
  obtain ⟨hword, hrest⟩ := readable_name a.legal_word b.legal_word endsName_quote endsName_quote he
  exact ⟨StorageAction.word_injective hword, (String.append_right_inj _).1 hrest⟩

/-- The name of an index ends at the quote, and no index begins as the condition does. -/
theorem readable_renderIndex :
    Readable renderIndex (fun index => ∀ name ∈ index, Table.isIndexName name) (Starts ", \"query\"") := by
  have hquote : ∀ x, ∃ c cs, ("\"" ++ x).toList = c :: cs ∧ Table.isIndexNameChar c = false := by
    intro x
    exact ⟨'"', x.toList, by rw [String.toList_append]; rfl, by decide⟩
  have hapart : ∀ name rest, ¬ Starts ", \"query\"" (renderIndex (some name) ++ rest) := by
    intro name rest
    have hopening : ", " ++ inQuotes "index" = ", \"index\"" := by decide
    rw [renderIndex, hopening, String.append_assoc, String.append_assoc]
    exact not_starts_append (by decide)
  intro a b x y ha hb hx hy he
  cases a with
  | none =>
    cases b with
    | none => exact ⟨rfl, (String.append_right_inj _).1 he⟩
    | some other => exact absurd (String.empty_append.symm.trans he ▸ hx) (hapart _ _)
  | some name =>
    cases b with
    | none => exact absurd (String.empty_append.symm.trans he.symm ▸ hy) (hapart _ _)
    | some other =>
      simp only [renderIndex, inQuotes, String.append_assoc, String.append_right_inj] at he
      obtain ⟨rfl, hrest⟩ := readable_while (Table.isIndexNameChar_of_name (ha name rfl))
        (Table.isIndexNameChar_of_name (hb other rfl)) (hquote _) (hquote _) he
      exact ⟨rfl, (String.append_right_inj _).1 hrest⟩

theorem readable_render : Readable render Legible (fun _ => True) := by
  have hcondition : ∀ (condition : KeyCondition) (more : String),
      Starts ", \"query\"" (", " ++ (condition.render ++ more)) := by
    intro condition more
    have hopening : ", " ++ inQuotes "query" = ", \"query\"" := by decide
    simp only [KeyCondition.render, String.append_assoc]
    rw [← String.append_assoc, hopening]
    exact starts_append
  intro a b x y ha hb _ _ he
  simp only [render_eq, inBraces, String.append_assoc] at he
  obtain ⟨hprojected, hbraces⟩ := readable_lead trivial trivial starts_append starts_append he
  rw [String.append_right_inj] at hbraces
  obtain ⟨haction, hrest⟩ := readable_head trivial trivial trivial trivial hbraces
  -- the action tells the kind of the request, and what is left to tell stands behind it
  cases a with
  | scan =>
    cases b with
    | scan => exact ⟨rfl, by simpa only [rest, String.append_right_inj] using hrest⟩
    | _ => cases haction
  | getItem key | deleteItem key =>
    cases b <;> cases haction
    simp only [rest, String.append_assoc, String.append_right_inj] at hrest
    obtain ⟨rfl, hxy⟩ := KeyShape.readable_render ha hb trivial trivial hrest
    exact ⟨rfl, (String.append_right_inj _).1 hxy⟩
  | putItem key projected =>
    cases b with
    | putItem other alsoProjected =>
      obtain rfl : projected = alsoProjected := hprojected
      simp only [rest, String.append_assoc, String.append_right_inj] at hrest
      obtain ⟨rfl, hxy⟩ := KeyShape.readable_render ha hb trivial trivial hrest
      exact ⟨rfl, by simpa only [String.append_right_inj] using hxy⟩
    | _ => cases haction
  | query index condition =>
    cases b with
    | query otherIndex otherCondition =>
      simp only [rest, String.append_assoc] at hrest
      obtain ⟨rfl, hconditions⟩ := readable_renderIndex ha.1 hb.1 (hcondition _ _) (hcondition _ _) hrest
      rw [String.append_right_inj] at hconditions
      obtain ⟨rfl, hxy⟩ := KeyCondition.readable_render ha.2 hb.2 trivial trivial hconditions
      exact ⟨rfl, (String.append_right_inj _).1 hxy⟩
    | _ => cases haction

/-- Requests of legal names are told from one another by their texts. -/
theorem render_eq_iff {a b : RequestTemplate} (ha : a.Legible) (hb : b.Legible) : a.render = b.render ↔ a = b := by
  refine ⟨fun h => ?_, congrArg render⟩
  have hwhole : a.render ++ "" = b.render ++ "" := by rw [h]
  exact (readable_render ha hb trivial trivial hwhole).1

def queryByTwo (first second : String) : RequestTemplate :=
  query (some "by-place.v2") ⟨first, [second]⟩

/-- The order of the keys is told, though storage finds the same items in either order. -/
theorem queryByTwo_render_ne : (queryByTwo "place" "time").Legible ∧ (queryByTwo "time" "place").Legible ∧
    (queryByTwo "place" "time").render ≠ (queryByTwo "time" "place").render := by
  have hindex : ∀ name ∈ some "by-place.v2", Table.isIndexName name := by
    rintro _ ⟨⟩
    decide
  have hfirst : (queryByTwo "place" "time").Legible := ⟨hindex, by decide⟩
  have hsecond : (queryByTwo "time" "place").Legible := ⟨hindex, by decide⟩
  exact ⟨hfirst, hsecond, mt (render_eq_iff hfirst hsecond).1 (by decide)⟩

end RequestTemplate

end Requests

end TableApi
