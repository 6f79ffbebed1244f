import TableApi.Proofs.LegalNames

/-! The text of a schema can be read in one way only. Of each part that is written it is shown that its text can be
told from what follows it, from names up to the block of the roots and the definitions after it. -/
namespace TableApi

/-- Of two texts that are the same with what follows them, the values that they are written for are the same. -/
def Readable {α : Type} (write : α → String) (ok : α → Prop) (after : String → Prop) : Prop :=
  ∀ ⦃a b : α⦄ ⦃x y : String⦄, ok a → ok b → after x → after y → write a ++ x = write b ++ y → a = b ∧ x = y

/-- The text begins with another. -/
def Starts (first text : String) : Prop :=
  ∃ rest, text = first ++ rest

section Beginnings

variable {a b name rest text : String}

theorem starts_append : Starts a (a ++ rest) := ⟨rest, rfl⟩

/-- Of two beginnings of one text one is a beginning of the other. -/
theorem Starts.compatible (ha : Starts a text) (hb : Starts b text) :
    a.toList <+: b.toList ∨ b.toList <+: a.toList := by
  obtain ⟨x, rfl⟩ := ha
  obtain ⟨y, hy⟩ := hb
  have hlists : a.toList ++ x.toList = b.toList ++ y.toList := by
    rw [← String.toList_append, hy, String.toList_append]
  exact List.prefix_or_prefix_of_prefix ⟨_, hlists⟩ ⟨_, rfl⟩

theorem not_starts_append (h : ¬ (a.toList <+: b.toList ∨ b.toList <+: a.toList)) : ¬ Starts a (b ++ rest) :=
  fun hstarts => h (hstarts.compatible starts_append)

theorem endsName_append {c : Char} {cs : List Char} (h : a.toList = c :: cs) (hc : isNameChar c = false) :
    EndsName (a ++ rest) :=
  (endsName_of_literal h hc).append

theorem Starts.endsName (h : Starts a text) (ha : EndsName a) : EndsName text := by
  obtain ⟨rest, rfl⟩ := h
  exact ha.append

theorem not_starts_of_legal (h : isLegalName name) (ha : EndsName a) : ¬ Starts a (name ++ rest) := by
  rintro ⟨more, hmore⟩
  obtain ⟨c, cs, hcs, hc⟩ := ha
  have hchars := isNameChar_of_legal h
  have hlists : name.toList ++ rest.toList = c :: (cs ++ more.toList) := by
    rw [← String.toList_append, hmore, String.toList_append, hcs, List.cons_append]
  cases hn : name.toList with
  | nil => simp [isLegalName, hn] at h
  | cons first others =>
    rw [hn, List.cons_append, List.cons.injEq] at hlists
    rw [hn, hlists.1] at hchars
    rw [hchars c List.mem_cons_self] at hc
    cases hc

/-- Text of one kind of characters is told from what goes on with another kind. -/
theorem readable_while {p : Char → Bool} : Readable (fun text => text) (fun text => ∀ c ∈ text.toList, p c = true)
    (fun rest => ∃ c cs, rest.toList = c :: cs ∧ p c = false) := by
  intro a b x y ha hb hx hy h
  have htext : ∀ text rest : String, (∀ c ∈ text.toList, p c = true) →
      (∃ c cs, rest.toList = c :: cs ∧ p c = false) → (text ++ rest).toList.takeWhile p = text.toList := by
    rintro text rest ht ⟨c, cs, hcs, hc⟩
    rw [String.toList_append, List.takeWhile_append_of_pos ht, hcs, List.takeWhile_cons_of_neg (by simp [hc]),
      List.append_nil]
  have hab : a = b := by
    apply String.toList_injective
    rw [← htext a x ha hx, h, htext b y hb hy]
  subst hab
  exact ⟨rfl, (String.append_right_inj a).1 h⟩

/-- A name is told from text that ends it. -/
theorem readable_name : Readable (fun name => name) (fun name => isLegalName name) EndsName :=
  fun _ _ _ _ ha hb hx hy h => readable_while (isNameChar_of_legal ha) (isNameChar_of_legal hb) hx hy h

end Beginnings

section Rows

variable {α : Type} {write : α → String} {ok : α → Prop} {after closes : String → Prop} {sep rest : String} {a : α}
  {as : List α}

def inRow (write : α → String) (as : List α) : String :=
  String.join (as.map write)

@[simp] theorem inRow_nil : inRow write [] = "" := rfl

@[simp] theorem inRow_cons : inRow write (a :: as) = write a ++ inRow write as := by
  rw [inRow, List.map_cons, String.join_cons, inRow]

def separatedBy (sep : String) (write : α → String) (as : List α) : String :=
  String.intercalate sep (as.map write)

@[simp] theorem separatedBy_nil : separatedBy sep write [] = "" := rfl

@[simp] theorem separatedBy_cons :
    separatedBy sep write (a :: as) = write a ++ inRow (fun a => sep ++ write a) as := by
  induction as generalizing a with
  | nil => simp [separatedBy]
  | cons b as ih =>
    rw [separatedBy, List.map_cons, List.map_cons, String.intercalate_cons_cons, ← List.map_cons, ← separatedBy, ih,
      inRow_cons, String.append_assoc, String.append_assoc]

theorem after_inRow (hnext : ∀ a x, ok a → after (write a ++ x)) (hclose : ∀ x, closes x → after x) {x : String}
    (has : ∀ a ∈ as, ok a) (hx : closes x) : after (inRow write as ++ x) := by
  cases as with
  | nil => simpa using hclose x hx
  | cons a as =>
    rw [inRow_cons, String.append_assoc]
    exact hnext a _ (has a List.mem_cons_self)

/-- Values in a row are told from what comes after them if none of them begins as that does. -/
theorem Readable.inRow (h : Readable write ok after) (hnext : ∀ a x, ok a → after (write a ++ x))
    (hclose : ∀ x, closes x → after x) (hopen : ∀ a x, ok a → ¬ closes (write a ++ x)) :
    Readable (inRow write) (fun as => ∀ a ∈ as, ok a) closes := by
  intro as bs x y has hbs hx hy he
  induction as generalizing bs with
  | nil =>
    cases bs with
    | nil => exact ⟨rfl, by simpa using he⟩
    | cons b bs =>
      rw [inRow_nil, String.empty_append, inRow_cons, String.append_assoc] at he
      exact absurd (he ▸ hx) (hopen b _ (hbs b List.mem_cons_self))
  | cons a as ih =>
    rw [List.forall_mem_cons] at has
    cases bs with
    | nil =>
      rw [inRow_nil, String.empty_append, inRow_cons, String.append_assoc] at he
      exact absurd (he ▸ hy) (hopen a _ has.1)
    | cons b bs =>
      rw [List.forall_mem_cons] at hbs
      rw [inRow_cons, inRow_cons, String.append_assoc, String.append_assoc] at he
      obtain ⟨rfl, hlater⟩ :=
        h has.1 hbs.1 (after_inRow hnext hclose has.2 hx) (after_inRow hnext hclose hbs.2 hy) he
      obtain ⟨rfl, hxy⟩ := ih has.2 hbs.2 hlater
      exact ⟨rfl, hxy⟩

theorem Readable.prefixed (h : Readable write ok after) : Readable (fun a => sep ++ write a) ok after := by
  intro a b x y ha hb hx hy he
  rw [String.append_assoc, String.append_assoc, String.append_right_inj] at he
  exact h ha hb hx hy he

/-- What is closed by a text is told from whatever follows it. -/
theorem Readable.closed {p : String → Prop} {closing : String} (h : Readable write ok after)
    (hclose : ∀ x, after (closing ++ x)) : Readable (fun a => write a ++ closing) ok p := by
  intro a b x y ha hb _ _ he
  rw [String.append_assoc, String.append_assoc] at he
  obtain ⟨rfl, hmore⟩ := h ha hb (hclose x) (hclose y) he
  exact ⟨rfl, (String.append_right_inj _).1 hmore⟩

theorem Readable.separatedBy (h : Readable write ok after) (hsep : ∀ x, after (sep ++ x))
    (hclose : ∀ x, closes x → after x) (hopen : ∀ x, ¬ closes (sep ++ x))
    (hfirst : ∀ a x, ok a → ¬ closes (write a ++ x)) :
    Readable (separatedBy sep write) (fun as => ∀ a ∈ as, ok a) closes := by
  have hnext : ∀ a x, ok a → after (sep ++ write a ++ x) := by
    intro a x _
    rw [String.append_assoc]
    exact hsep _
  have hlater : Readable (TableApi.inRow fun a => sep ++ write a) (fun as => ∀ a ∈ as, ok a) closes := by
    refine h.prefixed.inRow hnext hclose fun a x _ => ?_
    rw [String.append_assoc]
    exact hopen _
  intro as bs x y has hbs hx hy he
  cases as with
  | nil =>
    cases bs with
    | nil => exact ⟨rfl, by simpa using he⟩
    | cons b bs =>
      rw [separatedBy_nil, String.empty_append, separatedBy_cons, String.append_assoc] at he
      exact absurd (he ▸ hx) (hfirst b _ (hbs b List.mem_cons_self))
  | cons a as =>
    rw [List.forall_mem_cons] at has
    cases bs with
    | nil =>
      rw [separatedBy_nil, String.empty_append, separatedBy_cons, String.append_assoc] at he
      exact absurd (he ▸ hy) (hfirst a _ has.1)
    | cons b bs =>
      rw [List.forall_mem_cons] at hbs
      rw [separatedBy_cons, separatedBy_cons, String.append_assoc, String.append_assoc] at he
      obtain ⟨rfl, hmore⟩ :=
        h has.1 hbs.1 (after_inRow hnext hclose has.2 hx) (after_inRow hnext hclose hbs.2 hy) he
      obtain ⟨rfl, hxy⟩ := hlater has.2 hbs.2 hx hy hmore
      exact ⟨rfl, hxy⟩

/-- A list that is left out where it is empty, and else begins with an opening that nothing after it begins with. -/
theorem Readable.opened {list write : List α → String} {ok : List α → Prop} {opening : String}
    (h : Readable list ok after) (hnil : write [] = "")
    (hcons : ∀ a as, write (a :: as) = opening ++ list (a :: as)) (hopening : ∀ x, ¬ after (opening ++ x)) :
    Readable write ok after := by
  intro as bs x y has hbs hx hy he
  cases as with
  | nil =>
    cases bs with
    | nil => exact ⟨rfl, (String.append_right_inj _).1 he⟩
    | cons b bs =>
      rw [hnil, String.empty_append, hcons, String.append_assoc] at he
      exact absurd (he ▸ hx) (hopening _)
  | cons a as =>
    rw [hcons, String.append_assoc] at he
    cases bs with
    | nil =>
      rw [hnil, String.empty_append] at he
      exact absurd (he ▸ hy) (hopening _)
    | cons b bs =>
      rw [hcons, String.append_assoc, String.append_right_inj] at he
      exact h has hbs hx hy he

/-- Values on lines of their own, and a brace on the last line. -/
def block (write : α → String) (as : List α) : String :=
  inRow (fun a => "  " ++ write a ++ "\n") as ++ "\x7d\n"

/-- A block is told from whatever follows it. -/
theorem Readable.block {p : String → Prop} (h : Readable write ok after) (hline : ∀ x, after ("\n" ++ x)) :
    Readable (block write) (fun as => ∀ a ∈ as, ok a) p := by
  have hlines : Readable (fun a => "  " ++ write a ++ "\n") ok (fun _ => True) :=
    h.prefixed.closed hline
  have hbrace : ∀ a x, ok a → ¬ Starts "\x7d\n" ("  " ++ write a ++ "\n" ++ x) := by
    intro a x _
    rw [String.append_assoc, String.append_assoc]
    exact not_starts_append (by decide)
  exact (hlines.inRow (fun _ _ _ => trivial) (fun _ _ => trivial) hbrace).closed fun _ => starts_append

/-- A list of names is told from what closes it. -/
theorem readable_names {closing : String} (hsep : EndsName sep) (hclosing : EndsName closing)
    (hapart : ¬ (closing.toList <+: sep.toList ∨ sep.toList <+: closing.toList)) :
    Readable (separatedBy sep fun name => name) (fun names => ∀ name ∈ names, isLegalName name) (Starts closing) :=
  readable_name.separatedBy (fun _ => hsep.append) (fun _ hx => hx.endsName hclosing)
    (fun _ => not_starts_append hapart) fun _ _ hn => not_starts_of_legal hn hclosing

end Rows

section References

variable {x : String}

/-- No reference to a type that stands before the text goes on in it. -/
def EndsReference (text : String) : Prop :=
  EndsName text ∧ ¬ Starts "!" text

theorem Starts.endsReference {a text : String} (h : Starts a text) (ha : EndsName a)
    (hmark : ¬ (a.toList <+: "!".toList ∨ "!".toList <+: a.toList)) : EndsReference text :=
  ⟨h.endsName ha, fun hm => hmark (h.compatible hm)⟩

theorem readable_mark : Readable TypeRef.mark (fun _ => True) fun text => ¬ Starts "!" text := by
  intro a b x y _ _ hx hy he
  cases a <;> cases b
  · exact ⟨rfl, (String.append_right_inj _).1 he⟩
  · exact absurd ⟨y, (String.empty_append.symm.trans he)⟩ hx
  · exact absurd ⟨x, (String.empty_append.symm.trans he.symm)⟩ hy
  · exact ⟨rfl, (String.append_right_inj _).1 he⟩

theorem endsName_mark {required : Bool} (hx : EndsName x) : EndsName (TypeRef.mark required ++ x) := by
  cases required
  · rwa [TypeRef.mark, if_neg (by decide), String.empty_append]
  · exact endsName_append rfl (by decide)

namespace TypeRef

variable {name : String} {required itemRequired : Bool}

theorem render_single_append : (single name required).render ++ x = name ++ (mark required ++ x) := by
  rw [render, renderAs, TypeRef.name, String.append_assoc]

theorem render_list_append : (list name itemRequired required).render ++ x =
    "[" ++ (name ++ (mark itemRequired ++ ("]" ++ (mark required ++ x)))) := by
  simp only [render, renderAs, TypeRef.name, String.append_assoc]

/-- A reference is told by its name, its brackets and its marks. -/
theorem readable_render : Readable render (fun ref => isLegalName ref.name) EndsReference := by
  have hbracket : ∀ name rest more, isLegalName name → name ++ rest ≠ "[" ++ more := by
    intro name rest more hn he
    exact not_starts_of_legal hn (endsName_of_literal rfl (by decide)) ⟨more, he⟩
  have hclose : ∀ x, ¬ Starts "!" ("]" ++ x) := fun x => not_starts_append (by decide)
  have hends : ∀ x, EndsName ("]" ++ x) := fun x => endsName_append rfl (by decide)
  intro a b x y ha hb hx hy he
  cases a with
  | single name required =>
    rw [render_single_append] at he
    cases b with
    | single other mark =>
      rw [render_single_append] at he
      obtain ⟨rfl, hmarks⟩ := readable_name ha hb (endsName_mark hx.1) (endsName_mark hy.1) he
      obtain ⟨rfl, hrest⟩ := readable_mark trivial trivial hx.2 hy.2 hmarks
      exact ⟨rfl, hrest⟩
    | list other item mark =>
      rw [render_list_append] at he
      exact absurd he (hbracket _ _ _ ha)
  | list name item required =>
    rw [render_list_append] at he
    cases b with
    | single other mark =>
      rw [render_single_append] at he
      exact absurd he.symm (hbracket _ _ _ hb)
    | list other otherItem mark =>
      rw [render_list_append, String.append_right_inj] at he
      obtain ⟨rfl, hitems⟩ := readable_name ha hb (endsName_mark (hends _)) (endsName_mark (hends _)) he
      obtain ⟨rfl, hmarks⟩ := readable_mark trivial trivial (hclose _) (hclose _) hitems
      rw [String.append_right_inj] at hmarks
      obtain ⟨rfl, hrest⟩ := readable_mark trivial trivial hx.2 hy.2 hmarks
      exact ⟨rfl, hrest⟩

end TypeRef

end References

section Fields

variable {x : String}

/-- The names that an argument is written with are legal. -/
def ArgumentDefinition.Legible (argument : ArgumentDefinition) : Prop :=
  isLegalName argument.name ∧ isLegalName argument.type.name

theorem ArgumentDefinition.readable_text : Readable text Legible EndsReference := by
  intro a b x y ha hb hx hy he
  have hends : ∀ more, EndsName (": " ++ more) := fun more => endsName_append rfl (by decide)
  obtain ⟨name, type⟩ := a
  obtain ⟨other, otherType⟩ := b
  simp only [text, String.append_assoc] at he
  obtain ⟨rfl, htypes⟩ := readable_name ha.1 hb.1 (hends _) (hends _) he
  rw [String.append_right_inj] at htypes
  obtain ⟨rfl, hrest⟩ := TypeRef.readable_render ha.2 hb.2 hx hy htypes
  exact ⟨rfl, hrest⟩

namespace FieldDefinition

structure Legible (field : FieldDefinition) : Prop where
  name : isLegalName field.name
  arguments : ∀ argument ∈ field.arguments, argument.Legible
  type : isLegalName field.type.name

theorem argumentText_nil : argumentText [] = "" := rfl

theorem argumentText_cons {argument : ArgumentDefinition} {arguments : List ArgumentDefinition} :
    argumentText (argument :: arguments) =
      "(" ++ (separatedBy " " ArgumentDefinition.text (argument :: arguments) ++ ")") := by
  simp only [argumentText, List.isEmpty_cons, Bool.false_eq_true, if_false, separatedBy, String.append_assoc]

theorem readable_argumentText :
    Readable argumentText (fun arguments => ∀ argument ∈ arguments, argument.Legible) (Starts ": ") := by
  have hlist : Readable (separatedBy " " ArgumentDefinition.text)
      (fun arguments => ∀ argument ∈ arguments, argument.Legible) (Starts ")") := by
    refine ArgumentDefinition.readable_text.separatedBy ?_ ?_ ?_ ?_
    · exact fun x => starts_append.endsReference (endsName_of_literal rfl (by decide)) (by decide)
    · exact fun x hx => hx.endsReference (endsName_of_literal rfl (by decide)) (by decide)
    · exact fun x => not_starts_append (by decide)
    · intro argument x hlegible
      rw [ArgumentDefinition.text, String.append_assoc, String.append_assoc]
      exact not_starts_of_legal hlegible.1 (endsName_of_literal rfl (by decide))
  refine Readable.opened (hlist.closed fun _ => starts_append) argumentText_nil (fun _ _ => argumentText_cons) ?_
  exact fun x => not_starts_append (by decide)

theorem endsName_argumentText {arguments : List ArgumentDefinition} :
    EndsName (argumentText arguments ++ (": " ++ x)) := by
  cases arguments with
  | nil =>
    rw [argumentText_nil, String.empty_append]
    exact endsName_append rfl (by decide)
  | cons argument arguments =>
    rw [argumentText_cons, String.append_assoc]
    exact endsName_append rfl (by decide)

theorem readable_text : Readable text Legible EndsReference := by
  intro a b x y ha hb hx hy he
  obtain ⟨name, arguments, type⟩ := a
  obtain ⟨other, otherArguments, otherType⟩ := b
  simp only [text, String.append_assoc] at he
  obtain ⟨rfl, harguments⟩ := readable_name ha.name hb.name endsName_argumentText endsName_argumentText he
  obtain ⟨rfl, htypes⟩ := readable_argumentText ha.arguments hb.arguments starts_append starts_append harguments
  rw [String.append_right_inj] at htypes
  obtain ⟨rfl, hrest⟩ := TypeRef.readable_render ha.type hb.type hx hy htypes
  exact ⟨rfl, hrest⟩

end FieldDefinition

end Fields

section Definitions

variable {x : String}

theorem TypeCategory.legal_keyword (category : TypeCategory) : isLegalName category.keyword := by
  cases category <;> decide

theorem TypeCategory.keyword_injective {a b : TypeCategory} (h : a.keyword = b.keyword) : a = b := by
  revert h
  cases a <;> cases b <;> decide

theorem Schema.ofLines_append {lines more : List String} :
    Schema.ofLines (lines ++ more) = Schema.ofLines lines ++ Schema.ofLines more := by
  rw [ofLines, List.map_append, String.join_append, ofLines, ofLines]

theorem Schema.ofLines_cons {line : String} {lines : List String} :
    Schema.ofLines (line :: lines) = line ++ "\n" ++ Schema.ofLines lines := by
  rw [ofLines, List.map_cons, String.join_cons, ofLines]

theorem ofLines_block {α : Type} {write : α → String} {as : List α} {header : String} :
    Schema.ofLines ((header ++ TypeDefinition.openingBrace) :: as.map (fun a => "  " ++ write a) ++
      [TypeDefinition.closingBrace]) = header ++ (" \x7b\n" ++ block write as) := by
  have hbrace : TypeDefinition.openingBrace ++ "\n" = " \x7b\n" := by decide
  have hblock : Schema.ofLines (as.map (fun a => "  " ++ write a) ++ [TypeDefinition.closingBrace]) =
      block write as := by
    rw [Schema.ofLines_append, Schema.ofLines_cons, Schema.ofLines, List.map_map]
    rfl
  rw [List.cons_append, Schema.ofLines_cons, hblock, ← hbrace]
  simp only [String.append_assoc]

namespace TypeDefinition

/-- The members of a union. -/
def members (d : TypeDefinition) : List String :=
  match d.body with
  | .union members => members
  | _ => []

/-- All names that the definition is written with are legal, and only definitions of fields have interfaces. -/
structure Legible (d : TypeDefinition) : Prop where
  name : isLegalName d.name
  interfaces : ∀ interface ∈ d.interfaces, isLegalName interface
  fields : ∀ field ∈ d.fields, field.Legible
  members : ∀ member ∈ d.members, isLegalName member
  values : ∀ value ∈ d.values, isLegalName value
  bare : d.category = .union ∨ d.category = .enum → d.interfaces = []

def text (d : TypeDefinition) : String :=
  Schema.ofLines d.lines

def fieldsText (interfaces : List String) (fields : List FieldDefinition) : String :=
  interfaceText interfaces ++ (" \x7b\n" ++ block FieldDefinition.text fields)

/-- What follows the name of the definition. -/
def rest (d : TypeDefinition) : String :=
  match d.body with
  | .object fields | .input fields | .interface fields => fieldsText d.interfaces fields
  | .union members => " = " ++ (separatedBy " | " (fun member => member) members ++ "\n")
  | .enum values => " \x7b\n" ++ block (fun value => value) values

variable {d : TypeDefinition}

theorem text_eq : d.text = d.category.keyword ++ (" " ++ (d.name ++ d.rest)) := by
  obtain ⟨name, interfaces, body⟩ := d
  have hfields : ∀ fields, Schema.ofLines (fieldLines ⟨name, interfaces, body⟩ fields) =
      body.category.keyword ++ (" " ++ (name ++ fieldsText interfaces fields)) := by
    intro fields
    unfold fieldLines
    rw [ofLines_block]
    simp only [category, fieldsText, String.append_assoc]
  cases body with
  | object fields | input fields | interface fields => exact hfields fields
  | union members =>
    have hkeyword : "union " = "union" ++ " " := by decide
    change Schema.ofLines ["union " ++ name ++ " = " ++ String.intercalate " | " members] =
      "union" ++ (" " ++ (name ++ (" = " ++ (String.intercalate " | " (members.map fun member => member) ++ "\n"))))
    rw [Schema.ofLines_cons, hkeyword, List.map_id']
    simp only [String.append_assoc]
    rfl
  | enum values =>
    have hkeyword : "enum " = "enum" ++ " " := by decide
    change Schema.ofLines (("enum " ++ name ++ openingBrace) :: values.map (fun value => "  " ++ value) ++
      [closingBrace]) = "enum" ++ (" " ++ (name ++ (" \x7b\n" ++ block (fun value => value) values)))
    rw [ofLines_block, hkeyword]
    simp only [String.append_assoc]

theorem interfaceText_nil : interfaceText [] = "" := rfl

theorem interfaceText_cons {interface : String} {interfaces : List String} :
    interfaceText (interface :: interfaces) =
      " implements " ++ separatedBy " & " (fun name => name) (interface :: interfaces) := by
  simp only [interfaceText, List.isEmpty_cons, Bool.false_eq_true, if_false, separatedBy, List.map_id']

theorem readable_interfaceText :
    Readable interfaceText (fun names => ∀ name ∈ names, isLegalName name) (Starts " \x7b\n") := by
  have hlist : Readable (separatedBy " & " fun name => name) (fun names => ∀ name ∈ names, isLegalName name)
      (Starts " \x7b\n") :=
    readable_names (endsName_of_literal rfl (by decide)) (endsName_of_literal rfl (by decide)) (by decide)
  refine hlist.opened interfaceText_nil (fun _ _ => interfaceText_cons) ?_
  exact fun x => not_starts_append (by decide)

theorem readable_fieldsText {interfaces others : List String} {fields more : List FieldDefinition} {y : String}
    (hi : ∀ name ∈ interfaces, isLegalName name) (ho : ∀ name ∈ others, isLegalName name)
    (hf : ∀ field ∈ fields, field.Legible) (hm : ∀ field ∈ more, field.Legible)
    (he : fieldsText interfaces fields ++ x = fieldsText others more ++ y) :
    interfaces = others ∧ fields = more ∧ x = y := by
  have hfields : Readable (block FieldDefinition.text) (fun fields => ∀ field ∈ fields, field.Legible)
      (fun _ => True) :=
    FieldDefinition.readable_text.block fun x =>
      starts_append.endsReference (endsName_of_literal rfl (by decide)) (by decide)
  simp only [fieldsText, String.append_assoc] at he
  obtain ⟨hsame, hblocks⟩ := readable_interfaceText hi ho starts_append starts_append he
  rw [String.append_right_inj] at hblocks
  obtain ⟨hall, hrest⟩ := hfields hf hm trivial trivial hblocks
  exact ⟨hsame, hall, hrest⟩

theorem endsName_rest : EndsName (d.rest ++ x) := by
  have hfields : ∀ interfaces fields, EndsName (fieldsText interfaces fields ++ x) := by
    intro interfaces fields
    rw [fieldsText, String.append_assoc]
    cases interfaces with
    | nil =>
      rw [interfaceText_nil, String.empty_append, String.append_assoc]
      exact endsName_append rfl (by decide)
    | cons interface interfaces =>
      rw [interfaceText_cons, String.append_assoc]
      exact endsName_append rfl (by decide)
  unfold rest
  split
  · exact hfields _ _
  · exact hfields _ _
  · exact hfields _ _
  · rw [String.append_assoc]
    exact endsName_append rfl (by decide)
  · rw [String.append_assoc]
    exact endsName_append rfl (by decide)

theorem readable_members : Readable (fun members => separatedBy " | " (fun member => member) members ++ "\n")
    (fun members => ∀ member ∈ members, isLegalName member) (fun _ => True) := by
  have hlist : Readable (separatedBy " | " fun name => name) (fun names => ∀ name ∈ names, isLegalName name)
      (Starts "\n") :=
    readable_names (endsName_of_literal rfl (by decide)) (endsName_of_literal rfl (by decide)) (by decide)
  exact hlist.closed fun _ => starts_append

theorem readable_values : Readable (block fun value => value) (fun values => ∀ value ∈ values, isLegalName value)
    (fun _ => True) :=
  readable_name.block fun _ => endsName_append rfl (by decide)

theorem readable_text : Readable text Legible (fun _ => True) := by
  have hspace : ∀ x, EndsName (" " ++ x) := fun x => endsName_append rfl (by decide)
  intro a b x y ha hb _ _ he
  simp only [text_eq, String.append_assoc] at he
  obtain ⟨hkeyword, hnames⟩ :=
    readable_name a.category.legal_keyword b.category.legal_keyword (hspace _) (hspace _) he
  rw [String.append_right_inj] at hnames
  obtain ⟨hname, hrest⟩ := readable_name ha.name hb.name endsName_rest endsName_rest hnames
  have hcategory := TypeCategory.keyword_injective hkeyword
  obtain ⟨name, interfaces, body⟩ := a
  obtain ⟨other, others, otherBody⟩ := b
  dsimp only at hname
  subst hname
  -- the category tells the constructor of the body, and each constructor has its own way to be written
  cases body with
  | object fields | input fields | interface fields =>
    cases otherBody <;> cases hcategory
    obtain ⟨rfl, rfl, hxy⟩ := readable_fieldsText ha.interfaces hb.interfaces ha.fields hb.fields hrest
    exact ⟨rfl, hxy⟩
  | union members =>
    cases otherBody with
    | union more =>
      have hbare : interfaces = others := (ha.bare (.inl rfl)).trans (hb.bare (.inl rfl)).symm
      have hm : ∀ member ∈ members, isLegalName member := ha.members
      have hmore : ∀ member ∈ more, isLegalName member := hb.members
      simp only [rest, String.append_assoc, String.append_right_inj] at hrest
      rw [← String.append_assoc, ← String.append_assoc] at hrest
      obtain ⟨rfl, hxy⟩ := readable_members hm hmore trivial trivial hrest
      exact ⟨by rw [hbare], hxy⟩
    | _ => cases hcategory
  | enum values =>
    cases otherBody with
    | enum more =>
      have hbare : interfaces = others := (ha.bare (.inr rfl)).trans (hb.bare (.inr rfl)).symm
      have hv : ∀ value ∈ values, isLegalName value := ha.values
      have hmore : ∀ value ∈ more, isLegalName value := hb.values
      simp only [rest, String.append_assoc, String.append_right_inj] at hrest
      obtain ⟨rfl, hxy⟩ := readable_values hv hmore trivial trivial hrest
      exact ⟨by rw [hbare], hxy⟩
    | _ => cases hcategory

end TypeDefinition

end Definitions

namespace Schema

variable {types others : List TypeDefinition} {roots uses : List RootType}

/-- The roots in use, in their fixed order. -/
def present (roots : List RootType) : List RootType :=
  RootType.all.filter roots.contains

theorem mem_present {root : RootType} : root ∈ present roots ↔ root ∈ roots := by
  rw [present, List.mem_filter, List.contains_iff_mem, and_iff_right root.mem_all]

def rootText (root : RootType) : String :=
  root.keyword ++ ": " ++ root.typeName

def rootsText (roots : List RootType) : String :=
  if roots.isEmpty then "" else "schema \x7b\n" ++ block rootText roots

theorem ofLines_rootLines : ofLines (rootLines roots) = rootsText (present roots) := by
  rw [rootLines, rootsText]
  change ofLines (if (present roots).isEmpty then [] else
    ("schema" ++ TypeDefinition.openingBrace) :: (present roots).map (fun root => "  " ++ root.keyword ++ ": " ++
      root.typeName) ++ [TypeDefinition.closingBrace]) = _
  split
  · rfl
  · have hrows : (fun root : RootType => "  " ++ root.keyword ++ ": " ++ root.typeName) =
        fun root => "  " ++ rootText root := by
      funext root
      simp only [rootText, String.append_assoc]
    have hopening : "schema \x7b\n" = "schema" ++ " \x7b\n" := by decide
    rw [hrows, ofLines_block, hopening, String.append_assoc]

theorem ofLines_definitions : ofLines (types.flatMap TypeDefinition.lines) = inRow TypeDefinition.text types := by
  induction types with
  | nil => rfl
  | cons d types ih => rw [List.flatMap_cons, ofLines_append, ih, inRow_cons, TypeDefinition.text]

theorem readable_rootText : Readable rootText (fun _ => True) EndsName := by
  have hcolon : ∀ x, EndsName (": " ++ x) := fun x => endsName_append rfl (by decide)
  have hlegal : ∀ root : RootType, isLegalName root.keyword := by
    intro root
    cases root <;> decide
  intro a b x y _ _ _ _ he
  simp only [rootText, String.append_assoc] at he
  obtain ⟨hkeyword, _⟩ := readable_name (hlegal a) (hlegal b) (hcolon _) (hcolon _) he
  have hroot : a = b := by
    revert hkeyword
    cases a <;> cases b <;> decide
  subst hroot
  simp only [String.append_right_inj] at he
  exact ⟨rfl, he⟩

/-- The block of the roots is told from definitions, also where it is left out. -/
theorem readable_rootsText : Readable rootsText (fun _ => True) fun text => ¬ Starts "schema \x7b\n" text := by
  have hroots : Readable (block rootText) (fun roots => ∀ root ∈ roots, True)
      fun text => ¬ Starts "schema \x7b\n" text :=
    readable_rootText.block fun _ => endsName_append rfl (by decide)
  have hopened : Readable rootsText (fun roots => ∀ root ∈ roots, True) fun text => ¬ Starts "schema \x7b\n" text :=
    hroots.opened rfl (fun _ _ => rfl) fun _ hno => hno starts_append
  exact fun a b x y _ _ => hopened (fun _ _ => trivial) (fun _ _ => trivial)

theorem not_starts_definitions (ht : ∀ d ∈ types, d.Legible) :
    ¬ Starts "schema \x7b\n" (inRow TypeDefinition.text types) := by
  rintro ⟨rest, hrest⟩
  cases types with
  | nil =>
    rw [inRow_nil] at hrest
    exact absurd (String.append_eq_empty_iff.1 hrest.symm).1 (by decide)
  | cons d types =>
    have hopening : "schema \x7b\n" = "schema" ++ " \x7b\n" := by decide
    have hspace : ∀ x, EndsName (" " ++ x) := fun x => endsName_append rfl (by decide)
    have hbrace : ∀ x, EndsName (" \x7b\n" ++ x) := fun x => endsName_append rfl (by decide)
    simp only [inRow_cons, TypeDefinition.text_eq, hopening, String.append_assoc] at hrest
    obtain ⟨hkeyword, _⟩ := readable_name d.category.legal_keyword (by decide) (hspace _) (hbrace _) hrest
    revert hkeyword
    cases d.category <;> decide

theorem readable_definitions : Readable (inRow TypeDefinition.text) (fun types => ∀ d ∈ types, d.Legible)
    fun text => text = "" := by
  refine TypeDefinition.readable_text.inRow (fun _ _ _ => trivial) (fun _ _ => trivial) fun d x _ he => ?_
  rw [TypeDefinition.text_eq, String.append_assoc] at he
  have hlegal := d.category.legal_keyword
  rw [(String.append_eq_empty_iff.1 he).1] at hlegal
  exact absurd hlegal (by decide)

/-- The text of a schema is that of no other roots and definitions. -/
theorem reads_schema (ht : ∀ d ∈ types, d.Legible) (ho : ∀ d ∈ others, d.Legible)
    (he : ofLines (rootLines roots ++ types.flatMap TypeDefinition.lines) =
      ofLines (rootLines uses ++ others.flatMap TypeDefinition.lines)) :
    (∀ root, root ∈ roots ↔ root ∈ uses) ∧ types = others := by
  rw [ofLines_append, ofLines_append, ofLines_rootLines, ofLines_rootLines, ofLines_definitions,
    ofLines_definitions] at he
  obtain ⟨hroots, htypes⟩ := readable_rootsText trivial trivial (not_starts_definitions ht)
    (not_starts_definitions ho) he
  have hrows : inRow TypeDefinition.text types ++ "" = inRow TypeDefinition.text others ++ "" := by rw [htypes]
  refine ⟨fun root => ?_, (readable_definitions ht ho rfl rfl hrows).1⟩
  rw [← mem_present, hroots, mem_present]

end Schema

end TableApi
