import TableApi.Proofs.PlainNames

/-! The spellings under which a scalar is declared, and what keys of its type are in storage and in templates. Storage
looks for words in the name and finds the same ones in all its spellings. Templates compare the whole name, and do not
know it with underscores. -/
namespace TableApi

section Words

variable {cs word : List Char}

theorem not_prefix_mark (hw : ∀ c ∈ word, c.isLower) (hne : word ≠ []) : ¬ word <+: '_' :: cs := by
  cases word with
  | nil => exact absurd rfl hne
  | cons letter word =>
    intro hstart
    obtain ⟨rfl, _⟩ := List.cons_prefix_cons.1 hstart
    exact absurd (hw '_' List.mem_cons_self) (by decide)

/-- No word of small letters starts where no letter does. -/
theorem not_prefix_of_no_letter (h : ∀ c ∈ cs, isNameChar c) (hw : ∀ c ∈ word, c.isLower) (hne : word ≠ [])
    (hl : ¬ startsWithLetter cs) : ¬ word <+: cs.map Char.toLower := by
  cases word with
  | nil => exact absurd rfl hne
  | cons letter word =>
    intro hstart
    cases cs with
    | nil => simp at hstart
    | cons c cs =>
      obtain ⟨rfl, _⟩ := List.cons_prefix_cons.1 hstart
      have hletter := char_of_codes (p := fun c => c.toLower.isLower → c.isAlpha) (by decide)
        (toNat_lt_of_isNameChar (h c List.mem_cons_self))
      exact hl (hletter (hw _ List.mem_cons_self))

theorem prefix_plainChars_iff (h : ∀ c ∈ cs, isNameChar c) (hw : ∀ c ∈ word, c.isLower) :
    word <+: plainChars cs ↔ word <+: cs.map Char.toLower := by
  induction cs generalizing word with
  | nil => rfl
  | cons c cs ih =>
    rw [List.forall_mem_cons] at h
    cases word with
    | nil => simp
    | cons letter word =>
      have hne : letter :: word ≠ [] := List.cons_ne_nil _ _
      by_cases hmark : c = '_'
      · have hplain : ¬ letter :: word <+: plainChars (c :: cs) := by
          rw [plainChars, if_pos hmark]
          split
          · exact not_prefix_mark hw hne
          · next hl =>
            rw [ih h.2 hw]
            exact not_prefix_of_no_letter h.2 hw hne hl
        have hlower : ¬ letter :: word <+: (c :: cs).map Char.toLower := by
          rw [hmark]
          exact not_prefix_mark hw hne
        exact iff_of_false hplain hlower
      · rw [plainChars, if_neg hmark, List.map_cons, List.cons_prefix_cons, List.cons_prefix_cons,
          ih h.2 (List.forall_mem_cons.1 hw).2]

/-- Plain spelling neither makes nor breaks a word of small letters. -/
theorem infix_plainChars_iff (h : ∀ c ∈ cs, isNameChar c) (hw : ∀ c ∈ word, c.isLower) (hne : word ≠ []) :
    word <:+: plainChars cs ↔ word <:+: cs.map Char.toLower := by
  induction cs with
  | nil => rfl
  | cons c cs ih =>
    have hstart := prefix_plainChars_iff h hw
    rw [List.forall_mem_cons] at h
    have ih := ih h.2
    rw [List.map_cons] at hstart ⊢
    rw [List.infix_cons_iff]
    by_cases hmark : c = '_'
    · subst hmark
      have hlower : ¬ word <+: '_'.toLower :: cs.map Char.toLower := not_prefix_mark hw hne
      rw [plainChars, if_pos rfl]
      split
      · rw [List.infix_cons_iff, ih, iff_false_intro hlower, iff_false_intro (not_prefix_mark hw hne)]
      · rw [ih, iff_false_intro hlower, false_or]
    · rw [plainChars, if_neg hmark] at hstart ⊢
      rw [List.infix_cons_iff, hstart, ih]

end Words

namespace AttributeType

/-- The words that tell how a type is stored. -/
def storageWords : List String := ["int", "float", "timestamp", "boolean"]

theorem small_storageWords : ∀ word ∈ storageWords, (∀ c ∈ word.toList, c.isLower) ∧ word.toList ≠ [] := by
  simp [storageWords]

/-- Storage knows a type by its plain spelling. -/
theorem classify_plainName {name : String} (h : ∀ c ∈ name.toList, isNameChar c) :
    classify (plainName name) = classify name := by
  have hinside : ∀ word ∈ storageWords, Text.hasInside word.toList (Text.lower (plainName name).toList) =
      Text.hasInside word.toList (Text.lower name.toList) := by
    intro word hword
    obtain ⟨hletters, hne⟩ := small_storageWords word hword
    rw [Bool.eq_iff_iff, Text.hasInside_iff, Text.hasInside_iff, lower_plainName h,
      lower_of_isNameChar h, infix_plainChars_iff h hletters hne]
  have hnumber : (["int", "float", "timestamp"].any fun word =>
      Text.hasInside word.toList (Text.lower (plainName name).toList)) =
        ["int", "float", "timestamp"].any fun word => Text.hasInside word.toList (Text.lower name.toList) := by
    rw [Bool.eq_iff_iff, List.any_eq_true, List.any_eq_true]
    refine exists_congr fun word => and_congr_right fun hword => ?_
    rw [hinside word (List.mem_append_left ["boolean"] hword)]
  rw [classify, classify, hnumber, hinside "boolean" (by decide)]

end AttributeType

theorem Key.make_text_ok_iff {name text : String} {role : KeyRole} {key : Key} :
    Key.make name (some text) role = .ok key ↔ ∃ type, TypeRef.parse? text = some type ∧ key = ⟨name, type, role⟩ := by
  simp only [Key.make, Option.getD_some, Except.bind_ok_iff, Except.pure_ok_iff, Key.parseType_ok_iff]
  exact exists_congr fun type => and_congr_right fun _ => eq_comm

namespace Scalar

variable {s : Scalar} {name : String}

/-- The plain spelling of the names with the key of a scalar. -/
def spelledKey (s : Scalar) : String :=
  String.ofList (s.key.toList.flatMap spellOut)

/-- A scalar is declared with its words apart or in one. -/
theorem plainName_of_ofName? (h : ∀ c ∈ name.toList, isNameChar c) (hs : ofName? name = some s) :
    plainName name = s.spelledKey ∨ plainName name = plainName s.render := by
  have hgoes := List.find?_some hs
  rw [goesBy, Bool.or_eq_true, decide_eq_true_eq] at hgoes
  rcases hgoes with hkey | hrender
  · have hpass : s.key.toList = passKey false name.toList := by
      rw [hkey, lookupKey, String.toList_ofList, lookupKeyChars_eq_passKey h]
    left
    rw [plainName, spelledKey, hpass, (plainChars_eq_spelled h).1]
  · right
    exact (plainName_of_sameButAsciiCase (isNameChar_of_legal s.legal_render) h hrender).symm

/-- What keys of the type are stored as. -/
def storedAs : Scalar → AttributeType
  | int | float | awsTimestamp => .number
  | boolean => .binary
  | _ => .string

theorem classify_of_ofName? (h : ∀ c ∈ name.toList, isNameChar c) (hs : ofName? name = some s) :
    AttributeType.classify name = s.storedAs := by
  have hforms : AttributeType.classify s.spelledKey = s.storedAs ∧
      AttributeType.classify (plainName s.render) = s.storedAs := by
    cases s <;> decide
  rw [← AttributeType.classify_plainName h]
  rcases plainName_of_ofName? h hs with hplain | hplain
  · rw [hplain, hforms.1]
  · rw [hplain, hforms.2]

/-- Under each legal spelling of its name a scalar is stored as under its name in schema text, and so are the keys that
are declared with it. -/
theorem storage_of_spelling {n : String} (hlegal : isLegalName n) (hs : ofName? n = some s) :
    AttributeType.classify n = AttributeType.classify s.render ∧ AttributeType.classify n = s.storedAs ∧
      ∀ name text role key, Key.make name (some text) role = .ok key → key.type.name = n →
        key.toAttribute = ⟨name, s.storedAs⟩ := by
  have hclassify := classify_of_ofName? (isNameChar_of_legal hlegal) hs
  have hrender := classify_of_ofName? (isNameChar_of_legal s.legal_render) s.ofName?_render
  refine ⟨hclassify.trans hrender.symm, hclassify, fun name text role key hkey hname => ?_⟩
  obtain ⟨type, _, rfl⟩ := Key.make_text_ok_iff.1 hkey
  rw [Key.toAttribute, hname, hclassify]

/-- As in declarations, as in lookup keys, and with underscores to spare. -/
theorem timestamps_stored_alike : AttributeType.classify "AWS_TIMESTAMP" = AttributeType.classify "AWSTimestamp" ∧
    AttributeType.classify "awsTimestamp" = AttributeType.classify "AWSTimestamp" ∧
    AttributeType.classify "AWS__timestamp_" = .number ∧
    ∃ key, Key.make "at" (some "[AWS__timestamp_!]") .sort = .ok key ∧ key.toAttribute = ⟨"at", .number⟩ := by
  have hdeclared : ofName? "AWS_TIMESTAMP" = some .awsTimestamp := by decide
  have hkeyed : ofName? "awsTimestamp" = some .awsTimestamp := by decide
  have hspare : ofName? "AWS__timestamp_" = some .awsTimestamp := by decide
  have hkey : Key.make "at" (some "[AWS__timestamp_!]") .sort =
      .ok ⟨"at", .list "AWS__timestamp_" true false, .sort⟩ := by decide
  obtain ⟨_, hnumber, hstored⟩ := storage_of_spelling (by decide) hspare
  exact ⟨(storage_of_spelling (by decide) hdeclared).1, (storage_of_spelling (by decide) hkeyed).1, hnumber, _, hkey,
    hstored _ _ _ _ hkey rfl⟩

/-- What templates have for the type: a primitive, or else a record. -/
def primitive (s : Scalar) (isList : Bool) : String :=
  let suffix := if isList then "[]" else ""
  match s with
  | int | float => "number" ++ suffix
  | id | string => "string" ++ suffix
  | boolean => "boolean" ++ suffix
  | _ => "record"

end Scalar

namespace Key

variable {key : Key} {s : Scalar}

/-- With an underscore in its name a type is always a record. -/
theorem primitive_of_mark (h : '_' ∈ key.type.name.toList) : key.primitive = "record" := by
  have hlower : '_' ∈ (String.ofList (Text.lower key.type.name.toList)).toList := by
    rw [String.toList_ofList]
    exact Text.mem_lowerAfter (by decide) (by decide) h
  unfold primitive
  dsimp only
  generalize String.ofList (Text.lower key.type.name.toList) = name at hlower
  split
  case h_6 => rfl
  all_goals exact absurd hlower (by decide)

theorem primitive_of_no_mark (hchars : ∀ c ∈ key.type.name.toList, isNameChar c)
    (hs : Scalar.ofName? key.type.name = some s) (h : '_' ∉ key.type.name.toList) :
    key.primitive = s.primitive key.type.isList := by
  have hlower : String.ofList (Text.lower key.type.name.toList) = plainName key.type.name := by
    rw [plainName, plainChars_of_no_mark h, lower_of_isNameChar hchars]
  unfold primitive
  dsimp only
  rw [hlower]
  rcases Scalar.plainName_of_ofName? hchars hs with hplain | hplain
  all_goals
    rw [hplain]
    cases s <;> rfl

theorem primitive_of_make {name text : String} {role : KeyRole} (h : make name (some text) role = .ok key)
    (hs : Scalar.ofName? key.type.name = some s) :
    key.primitive = if '_' ∈ key.type.name.toList then "record" else s.primitive key.type.isList := by
  obtain ⟨type, htype, rfl⟩ := make_text_ok_iff.1 h
  split
  · next hmark => exact primitive_of_mark hmark
  · next hmark =>
    exact primitive_of_no_mark (isNameChar_of_legal (TypeRef.parse?_eq_some_iff.1 htype).legal) hs hmark

/-- Keys of one scalar, both of lists or neither, have one primitive in templates exactly if the scalar is a record to
them under any name, or underscores stand in both names or in none. -/
theorem primitives_agree_iff {k l : Key} {nameK nameL a b : String} {roleK roleL : KeyRole}
    (hk : make nameK (some a) roleK = .ok k) (hl : make nameL (some b) roleL = .ok l)
    (hlist : k.type.isList = l.type.isList) (hks : Scalar.ofName? k.type.name = some s)
    (hls : Scalar.ofName? l.type.name = some s) :
    (k.primitive = l.primitive ↔ s.primitive k.type.isList = "record" ∨
      ('_' ∈ k.type.name.toList ↔ '_' ∈ l.type.name.toList)) ∧
    k.primitive = if '_' ∈ k.type.name.toList then "record" else s.primitive k.type.isList := by
  have hkey := primitive_of_make hk hks
  refine ⟨?_, hkey⟩
  rw [hkey, primitive_of_make hl hls, ← hlist]
  by_cases hmarkK : '_' ∈ k.type.name.toList <;> by_cases hmarkL : '_' ∈ l.type.name.toList <;>
    simp [hmarkK, hmarkL, eq_comm]

/-- Lists of texts agree in whatever case the type is written, and times do under both their names. -/
theorem texts_agree : ∃ k l m n, make "names" (some "[String]") .partition = .ok k ∧
    make "names" (some "[STRING!]!") .sort = .ok l ∧ k.primitive = l.primitive ∧ l.primitive = "string[]" ∧
    make "at" (some "AWS_TIMESTAMP!") .sort = .ok m ∧ make "at" (some "awstimestamp") .sort = .ok n ∧
    m.primitive = n.primitive ∧ m.primitive = "record" := by
  have hk : make "names" (some "[String]") .partition = .ok ⟨"names", .list "String" false false, .partition⟩ := by
    decide
  have hl : make "names" (some "[STRING!]!") .sort = .ok ⟨"names", .list "STRING" true true, .sort⟩ := by decide
  have hm : make "at" (some "AWS_TIMESTAMP!") .sort = .ok ⟨"at", .single "AWS_TIMESTAMP" true, .sort⟩ := by decide
  have hn : make "at" (some "awstimestamp") .sort = .ok ⟨"at", .single "awstimestamp" false, .sort⟩ := by decide
  obtain ⟨htexts, _⟩ := primitives_agree_iff (s := .string) hk hl rfl (by decide) (by decide)
  obtain ⟨_, hlist⟩ := primitives_agree_iff (s := .string) hl hk rfl (by decide) (by decide)
  obtain ⟨htimes, hrecord⟩ := primitives_agree_iff (s := .awsTimestamp) hm hn rfl (by decide) (by decide)
  exact ⟨_, _, _, _, hk, hl, htexts.2 (.inr (by decide)), hlist, hm, hn, htimes.2 (.inl rfl), hrecord⟩

/-- A number with an underscore behind its type is a record in templates. -/
theorem markedNumber_disagrees : ¬ ∀ (s : Scalar) (k l : Key) (a b : String),
    make "count" (some a) .partition = .ok k → make "count" (some b) .partition = .ok l →
    k.type.isList = l.type.isList → Scalar.ofName? k.type.name = some s → Scalar.ofName? l.type.name = some s →
    k.primitive = l.primitive := by
  intro hall
  have hprimitives := hall .int ⟨"count", .named "Int", .partition⟩ ⟨"count", .named "Int_", .partition⟩ "Int" "Int_"
    (by decide) (by decide) rfl (by decide) (by decide)
  exact absurd hprimitives (by decide)

end Key

end TableApi
