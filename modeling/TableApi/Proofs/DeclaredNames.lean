import TableApi.Proofs.DeclaredTypes

/-! Whether a declared type is found under its name as it is written. Characters that have no place in a name are taken
off when a type is registered, but not when a name is looked up, and each of them stays in the key that is looked up. -/
namespace TableApi

namespace Text

variable {c : Char} {cs before : List Char}

theorem mapCase_ne_nil {runs : List CaseRun} {expansions : List (Nat × List Nat)} {code : Nat}
    (h : ∀ entry ∈ expansions, entry.2 ≠ []) : mapCase runs expansions code ≠ [] := by
  unfold mapCase
  split
  · next codes hcodes =>
    obtain ⟨entries, more, rfl, _⟩ := List.lookup_eq_some_iff.1 hcodes
    exact h (code, codes) (by simp)
  · split <;> simp

theorem upperChar_ne_nil (c : Char) : upperChar c ≠ [] := by
  have hexpansions : ∀ entry ∈ upperExpansions, entry.2 ≠ [] := by decide
  unfold upperChar
  split
  · simp
  · simpa using mapCase_ne_nil hexpansions

theorem lowerChar_ne_nil (c : Char) : lowerChar c ≠ [] := by
  have hexpansions : ∀ entry ∈ lowerExpansions, entry.2 ≠ [] := by decide
  unfold lowerChar
  split
  · simp
  · simpa using mapCase_ne_nil hexpansions

theorem length_le_lowerAfter (before cs : List Char) : cs.length ≤ (lowerAfter before cs).length := by
  induction cs generalizing before with
  | nil => simp
  | cons c cs ih =>
    have hrest := ih (c :: before)
    have hc : 0 < (if c = 'Σ' then [lowerSigma before cs] else lowerChar c).length := by
      split
      · simp
      · exact List.length_pos_of_ne_nil (lowerChar_ne_nil c)
    simp only [lowerAfter, List.length_append, List.length_cons]
    omega

theorem length_le_lower (cs : List Char) : cs.length ≤ (lower cs).length :=
  length_le_lowerAfter [] cs

theorem length_lower_ascii (h : ∀ c ∈ cs, c.toNat < 128) : (lower cs).length = cs.length := by
  rw [lower_ascii h, List.length_map]

/-- A mark that no case changes is kept, whatever stands beside it. -/
theorem mem_lowerAfter (hc : c.toNat < 128) (hsame : c.toLower = c) (h : c ∈ cs) : c ∈ lowerAfter before cs := by
  induction cs generalizing before with
  | nil => cases h
  | cons d cs ih =>
    rw [lowerAfter, List.mem_append]
    rcases List.mem_cons.1 h with rfl | h
    · have hsigma : c ≠ 'Σ' := by rintro rfl; exact absurd hc (by decide)
      rw [if_neg hsigma, lowerChar_ascii hc, hsame]
      exact .inl List.mem_cons_self
    · exact .inr (ih h)

/-- The parts are all that is no separator, in order. -/
theorem split_flatten_filter (separator : Char) (cs : List Char) :
    (split separator cs).1 ++ (split separator cs).2.flatten = cs.filter (· ≠ separator) := by
  induction cs with
  | nil => rfl
  | cons c cs ih => by_cases h : c = separator <;> simpa [split, h] using ih

end Text

section Characters

variable {c : Char} {cs : List Char} {parts : List (List Char)}

theorem isNameChar_toLower (h : isNameChar c) : isNameChar c.toLower :=
  char_of_codes (p := fun c => isNameChar c → isNameChar c.toLower) (by decide) (toNat_lt_of_isNameChar h) h

/-- Only letters have a case. -/
theorem caseless_of_not_isNameChar (h : c.toNat < 128) (hc : ¬ isNameChar c) : c.toLower = c ∧ c.toUpper = c :=
  char_of_codes (p := fun c => ¬ isNameChar c → c.toLower = c ∧ c.toUpper = c) (by decide) h hc

theorem length_le_recaseWord (cs : List Char) : cs.length ≤ (recaseWord cs).length := by
  cases cs with
  | nil => simp
  | cons c cs =>
    have hc := List.length_pos_of_ne_nil (Text.upperChar_ne_nil c)
    have hrest := Text.length_le_lower cs
    simp only [recaseWord, List.length_append, List.length_cons]
    omega

theorem length_recaseWord_ascii (h : ∀ c ∈ cs, c.toNat < 128) : (recaseWord cs).length = cs.length := by
  cases cs with
  | nil => rfl
  | cons c cs =>
    rw [List.forall_mem_cons] at h
    rw [recaseWord, Text.upperChar_ascii h.1, List.singleton_append, List.length_cons, List.length_cons,
      Text.length_lower_ascii h.2]

theorem mem_recaseWord (h : c.toNat < 128) (hc : ¬ isNameChar c) (hmem : c ∈ cs) : c ∈ recaseWord cs := by
  obtain ⟨hlower, hupper⟩ := caseless_of_not_isNameChar h hc
  cases cs with
  | nil => cases hmem
  | cons d cs =>
    rw [recaseWord, List.mem_append]
    rcases List.mem_cons.1 hmem with rfl | hmem
    · rw [Text.upperChar_ascii h, hupper]
      exact .inl List.mem_cons_self
    · exact .inr (Text.mem_lowerAfter h hlower hmem)

theorem length_le_flatMap_recaseWord (parts : List (List Char)) :
    parts.flatten.length ≤ (parts.flatMap recaseWord).length := by
  induction parts with
  | nil => simp
  | cons part parts ih =>
    have hpart := length_le_recaseWord part
    simp only [List.flatten_cons, List.flatMap_cons, List.length_append]
    omega

theorem length_flatMap_recaseWord_ascii (h : ∀ part ∈ parts, ∀ c ∈ part, c.toNat < 128) :
    (parts.flatMap recaseWord).length = parts.flatten.length := by
  induction parts with
  | nil => rfl
  | cons part parts ih =>
    rw [List.forall_mem_cons] at h
    rw [List.flatMap_cons, List.flatten_cons, List.length_append, List.length_append, length_recaseWord_ascii h.1,
      ih h.2]

end Characters

section Keys

variable {c : Char} {cs : List Char} {name : String}

/-- What stands in a part of a text stands in the text. -/
theorem forall_mem_split {p : Char → Prop} (h : ∀ c ∈ cs, p c) :
    (∀ c ∈ (Text.split '_' cs).1, p c) ∧ ∀ part ∈ (Text.split '_' cs).2, ∀ c ∈ part, p c := by
  have hsub : ∀ c ∈ (Text.split '_' cs).1 ++ (Text.split '_' cs).2.flatten, p c := by
    rw [Text.split_flatten_filter]
    exact fun c hc => h c (List.mem_of_mem_filter hc)
  rw [List.forall_mem_append] at hsub
  exact ⟨hsub.1, fun part hpart c hc => hsub.2 c (List.mem_flatten_of_mem hpart hc)⟩

/-- The case of a character takes at least one character, so that only underscores are lost. -/
theorem length_le_lookupKeyChars (cs : List Char) : (cs.filter (· ≠ '_')).length ≤ (lookupKeyChars cs).length := by
  have hfirst := Text.length_le_lower (Text.split '_' cs).1
  have hlater := length_le_flatMap_recaseWord (Text.split '_' cs).2
  rw [← Text.split_flatten_filter]
  simp only [lookupKeyChars, List.length_append]
  omega

theorem length_lookupKeyChars_ascii (h : ∀ c ∈ cs, c.toNat < 128) :
    (lookupKeyChars cs).length = (cs.filter (· ≠ '_')).length := by
  obtain ⟨hfirst, hlater⟩ := forall_mem_split h
  rw [← Text.split_flatten_filter]
  simp only [lookupKeyChars, List.length_append, Text.length_lower_ascii hfirst,
    length_flatMap_recaseWord_ascii hlater]

theorem mem_lookupKeyChars (h : c.toNat < 128) (hc : ¬ isNameChar c) (hmem : c ∈ cs) : c ∈ lookupKeyChars cs := by
  have hne : c ≠ '_' := by rintro rfl; exact hc rfl
  have hparts : c ∈ (Text.split '_' cs).1 ++ (Text.split '_' cs).2.flatten := by
    rw [Text.split_flatten_filter]
    exact List.mem_filter.2 ⟨hmem, by simpa using hne⟩
  rw [lookupKeyChars, List.mem_append]
  rcases List.mem_append.1 hparts with hfirst | hlater
  · exact .inl (Text.mem_lowerAfter h (caseless_of_not_isNameChar h hc).1 hfirst)
  · obtain ⟨part, hpart, hin⟩ := List.mem_flatten.1 hlater
    exact .inr (List.mem_flatMap.2 ⟨part, hpart, mem_recaseWord h hc hin⟩)

theorem lower_of_isNameChar (h : ∀ c ∈ cs, isNameChar c) : Text.lower cs = cs.map Char.toLower :=
  Text.lower_ascii fun c hc => toNat_lt_of_isNameChar (h c hc)

theorem isNameChar_lower (h : ∀ c ∈ cs, isNameChar c) : ∀ c ∈ Text.lower cs, isNameChar c := by
  rw [lower_of_isNameChar h, List.forall_mem_map]
  exact fun c hc => isNameChar_toLower (h c hc)

theorem isNameChar_lookupKeyChars (h : ∀ c ∈ cs, isNameChar c) : ∀ c ∈ lookupKeyChars cs, isNameChar c := by
  obtain ⟨hfirst, hlater⟩ := forall_mem_split h
  rw [lookupKeyChars, List.forall_mem_append]
  refine ⟨isNameChar_lower hfirst, fun c hc => ?_⟩
  obtain ⟨part, hpart, hin⟩ := List.mem_flatMap.1 hc
  have hchars := hlater part hpart
  cases part with
  | nil => cases hin
  | cons d part =>
    rw [List.forall_mem_cons] at hchars
    rw [recaseWord, Text.upperChar_ascii (toNat_lt_of_isNameChar hchars.1), List.mem_append,
      List.mem_singleton] at hin
    rcases hin with rfl | hin
    · exact isNameChar_toUpper hchars.1
    · exact isNameChar_lower hchars.2 c hin

theorem strippedName_of_chars (h : ∀ c ∈ name.toList, isNameChar c) : TypeDefinition.strippedName name = name := by
  rw [TypeDefinition.strippedName, List.filter_eq_self.2 h, String.ofList_toList]

/-- To take characters off a name gives it another key, unless there are none to take off. -/
theorem lookupKey_strippedName_eq_iff :
    lookupKey (TypeDefinition.strippedName name) = lookupKey name ↔ ∀ c ∈ name.toList, isNameChar c := by
  constructor
  · intro h
    have hascii : ∀ c ∈ name.toList.filter isNameChar, c.toNat < 128 :=
      fun c hc => toNat_lt_of_isNameChar (List.mem_filter.1 hc).2
    have hchars : lookupKeyChars (name.toList.filter isNameChar) = lookupKeyChars name.toList := by
      rw [lookupKey, lookupKey, TypeDefinition.strippedName, String.toList_ofList] at h
      exact String.ofList_inj.1 h
    -- Underscores are not counted, since they are lost. Of the others, the key that is looked up has as many as the
    -- name at least, and the key that is registered as many as were left of it.
    have hlength :
        ((name.toList.filter (· ≠ '_')).filter isNameChar).length = (name.toList.filter (· ≠ '_')).length := by
      refine Nat.le_antisymm (List.length_filter_le _ _) ?_
      rw [List.filter_comm, ← length_lookupKeyChars_ascii hascii, hchars]
      exact length_le_lookupKeyChars name.toList
    intro c hc
    by_cases hmark : c = '_'
    · rw [hmark]
      rfl
    · exact List.length_filter_eq_length_iff.1 hlength c (List.mem_filter.2 ⟨hc, by simpa using hmark⟩)
  · intro h
    rw [strippedName_of_chars h]

end Keys

namespace AuxiliaryTypes

variable {aux : AuxiliaryTypes} {category : TypeCategory} {name : String} {s : Schema} {v : Unit}

theorem exists_filled (h : Gives aux.register .empty v s) :
    ∃ types, List.Forall₂ Stands aux.declarations types ∧ s.registry.Filled types [] := by
  obtain ⟨types, r, htypes, hr, rfl⟩ := gives_register.1 h
  exact ⟨types, stands_of_definitions htypes, Registry.filled_empty.registers hr⟩

theorem mem_names_iff :
    name ∈ (aux.ofCategory category).names ↔ ∃ shape, (category, name, shape) ∈ aux.declarations := by
  simp only [mem_declarations_iff, OrderedMap.names, List.mem_map, Prod.exists, exists_and_right, exists_eq_right]

/-- What is registered has a legal name. -/
theorem legal_strippedName (h : Gives aux.register .empty v s) (hname : name ∈ (aux.ofCategory category).names) :
    isLegalName (TypeDefinition.strippedName name) := by
  obtain ⟨entry, he, rfl⟩ := List.mem_map.1 hname
  exact ((exists_register_iff.1 ⟨s, h⟩).shapes category entry he).legal

/-- A name finds a type of the category if, of some name that is declared in it, what is left has the same key. -/
theorem holds_iff (h : Gives aux.register .empty v s) : s.registry.Holds category name ↔
    ∃ other ∈ (aux.ofCategory category).names, lookupKey (TypeDefinition.strippedName other) = lookupKey name := by
  obtain ⟨types, hstands, hfilled⟩ := exists_filled h
  rw [hfilled.holds_iff]
  constructor
  · rintro ⟨d, hd, hkey, rfl⟩
    obtain ⟨⟨category, other, shape⟩, hdeclared, hstand⟩ := forall₂_exists_left hstands hd
    rw [hstand.category]
    exact ⟨other, mem_names_iff.2 ⟨shape, hdeclared⟩, hstand.name ▸ hkey⟩
  · rintro ⟨other, hother, hkey⟩
    obtain ⟨shape, hdeclared⟩ := mem_names_iff.1 hother
    obtain ⟨d, hd, hstand⟩ := forall₂_exists_right hstands hdeclared
    exact ⟨d, hd, hstand.name ▸ hkey, hstand.category⟩

/-- Beside a character of ASCII that has no place in a name, nothing is found at all. -/
theorem get?_eq_none_of_mark {c : Char} (h : Gives aux.register .empty v s) (hmem : c ∈ name.toList)
    (hascii : c.toNat < 128) (hc : ¬ isNameChar c) : s.registry.get? name = none := by
  obtain ⟨types, hstands, hfilled⟩ := exists_filled h
  rw [hfilled.get?_eq_none_iff]
  intro hkey
  obtain ⟨d, hd, hkey⟩ := List.mem_map.1 hkey
  obtain ⟨declaration, _, hstand⟩ := forall₂_exists_left hstands hd
  have hchars : ∀ c ∈ lookupKeyChars d.name.toList, isNameChar c := by
    refine isNameChar_lookupKeyChars ?_
    rw [hstand.name, TypeDefinition.strippedName, String.toList_ofList]
    exact fun c hc => (List.mem_filter.1 hc).2
  rw [String.ofList_inj.1 hkey] at hchars
  exact hc (hchars c (mem_lookupKeyChars hascii hc hmem))

/-- A declared name finds a type of its category as it is written exactly if it is legal or happens to have the key of
what is left of another declared name. It always does without the characters that have no place in a name. -/
theorem declared_found_iff (h : Gives aux.register .empty v s) :
    ∀ category, ∀ name ∈ (aux.ofCategory category).names,
      (s.registry.Holds category name ↔ isLegalName name ∨ ∃ other ∈ (aux.ofCategory category).names,
        other ≠ name ∧ lookupKey (TypeDefinition.strippedName other) = lookupKey name) ∧
      s.registry.Holds category (TypeDefinition.strippedName name) ∧
      ((∃ c ∈ name.toList, c.toNat < 128 ∧ ¬ isNameChar c) → s.registry.get? name = none) := by
  intro category name hname
  refine ⟨(holds_iff h).trans ⟨?_, ?_⟩, (holds_iff h).2 ⟨name, hname, rfl⟩, ?_⟩
  · rintro ⟨other, hother, hkey⟩
    by_cases hsame : other = name
    · subst hsame
      have hlegal := legal_strippedName h hname
      rw [strippedName_of_chars (lookupKey_strippedName_eq_iff.1 hkey)] at hlegal
      exact .inl hlegal
    · exact .inr ⟨other, hother, hsame, hkey⟩
  · rintro (hlegal | ⟨other, hother, _, hkey⟩)
    · exact ⟨name, hname, by rw [TypeDefinition.strippedName_of_legal hlegal]⟩
    · exact ⟨other, hother, hkey⟩
  · rintro ⟨c, hmem, hascii, hc⟩
    exact get?_eq_none_of_mark h hmem hascii hc

/-- Dogs, small dogs with a hyphen, and Kelvin both with a plain letter and with the sign of the unit. -/
def dogsOfKelvin : AuxiliaryTypes :=
  { empty with
    types := .ofList [("Dog", .plain (.ofList [("name", "String")])), ("Small-Dog", .plain (.ofList [("age", "Int")]))]
    enums := .ofList [("Kelvin", .members ["ONE"]), ("\u212aelvin", .members ["TWO"])] }

theorem dogsOfKelvin_found : ∃ s, Gives dogsOfKelvin.register .empty ⟨⟩ s ∧
    s.registry.definitions.map TypeDefinition.name = ["Kelvin", "elvin", "Dog", "SmallDog"] ∧
    s.registry.Holds .type "Dog" ∧ s.registry.Holds .enum "\u212aelvin" ∧
    s.registry.Holds .type "SmallDog" ∧ s.registry.get? "Small-Dog" = none := by
  obtain ⟨s, hleft, hnames⟩ := Except.exists_ok_of_decide (x := left dogsOfKelvin.register .empty)
    (p := fun s => s.registry.definitions.map TypeDefinition.name = ["Kelvin", "elvin", "Dog", "SmallDog"])
    (by decide +kernel)
  obtain ⟨_, hs⟩ := left_ok_iff.1 hleft
  have hfound := declared_found_iff hs
  obtain ⟨hdog, _⟩ := hfound .type "Dog" (by decide)
  obtain ⟨hkelvin, _⟩ := hfound .enum "\u212aelvin" (by decide)
  obtain ⟨_, hstripped, hmark⟩ := hfound .type "Small-Dog" (by decide)
  refine ⟨s, hs, hnames, hdog.2 (.inl rfl), hkelvin.2 (.inr ⟨"Kelvin", by decide, by decide, by decide⟩), ?_, ?_⟩
  · exact hstripped
  · exact hmark ⟨'-', by decide, by decide, by decide⟩

/-- One type with a hyphen in its name. -/
def hyphenatedType : AuxiliaryTypes :=
  empty.declare .type "My-Type" (.plain (.ofList [("name", "String")]))

/-- The name that is declared is not that of a type, though the type is there. -/
theorem hyphenatedType_not_found : ∃ s, Gives hyphenatedType.register .empty ⟨⟩ s ∧
    s.registry.definitions.map TypeDefinition.name = ["MyType"] ∧
    ¬ ∀ category, ∀ name ∈ (hyphenatedType.ofCategory category).names, s.registry.Holds category name := by
  obtain ⟨s, hleft, hnames, hnone⟩ := Except.exists_ok_of_decide (x := left hyphenatedType.register .empty)
    (p := fun s => s.registry.definitions.map TypeDefinition.name = ["MyType"] ∧ s.registry.get? "My-Type" = none)
    (by decide +kernel)
  obtain ⟨_, hs⟩ := left_ok_iff.1 hleft
  refine ⟨s, hs, hnames, fun hall => ?_⟩
  obtain ⟨d, hd, _⟩ := hall .type "My-Type" (by decide)
  rw [hnone] at hd
  cases hd

end AuxiliaryTypes

end TableApi
