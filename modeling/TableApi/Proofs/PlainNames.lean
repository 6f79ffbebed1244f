import TableApi.Proofs.DeclaredNames
import TableApi.Proofs.ResolvedNames

/-! Which spellings of a name have one key. In plain spelling a name has small letters only, and an underscore only
where a letter follows it. That is as much of a name as its key tells. -/
namespace TableApi

section Spelling

variable {c : Char} {as bs cs : List Char}

/-- To make a letter small loses its case and no more. -/
theorem toLower_of_isNameChar (h : isNameChar c) : (c.toLower = '_' ↔ c = '_') ∧ c.toLower.toNat < 128 ∧
    c.toLower.toLower = c.toLower ∧ c.toLower.toUpper = c.toUpper ∧ c.toLower.isAlpha = c.isAlpha :=
  char_of_codes (p := fun c => (c.toLower = '_' ↔ c = '_') ∧ c.toLower.toNat < 128 ∧ c.toLower.toLower = c.toLower ∧
    c.toLower.toUpper = c.toUpper ∧ c.toLower.isAlpha = c.isAlpha) (by decide) (toNat_lt_of_isNameChar h)

/-- The key of an ASCII name in one pass. Underscores are dropped, and each makes what follows it start a word. -/
def passKey (starts : Bool) : List Char → List Char
  | [] => []
  | c :: cs => if c = '_' then passKey true cs else (if starts then c.toUpper else c.toLower) :: passKey false cs

def startsWithLetter : List Char → Bool
  | [] => false
  | c :: _ => c.isAlpha

/-- Small letters for capitals, and no underscore before another, before a digit or at the end. -/
def plainChars : List Char → List Char
  | [] => []
  | c :: cs =>
    if c = '_' then if startsWithLetter cs then '_' :: plainChars cs else plainChars cs
    else c.toLower :: plainChars cs

/-- How a character of a key is spelled: a capital starts a word. -/
def spellOut (c : Char) : List Char :=
  if c.isUpper then ['_', c.toLower] else [c]

theorem passKey_eq (h : ∀ c ∈ cs, c.toNat < 128) (starts : Bool) :
    passKey starts cs = (if starts then recaseWord (Text.split '_' cs).1 else Text.lower (Text.split '_' cs).1) ++
      (Text.split '_' cs).2.flatMap recaseWord := by
  induction cs generalizing starts with
  | nil => cases starts <;> rfl
  | cons c cs ih =>
    rw [List.forall_mem_cons] at h
    by_cases hmark : c = '_'
    · simp only [passKey, Text.split, hmark, if_true, ih h.2, List.flatMap_cons]
      cases starts <;> rfl
    · have hfirst : Text.lower (c :: (Text.split '_' cs).1) = c.toLower :: Text.lower (Text.split '_' cs).1 := by
        have hrest := (forall_mem_split h.2).1
        rw [Text.lower_ascii hrest, Text.lower_ascii (List.forall_mem_cons.2 ⟨h.1, hrest⟩), List.map_cons]
      simp only [passKey, Text.split, if_neg hmark, ih h.2, Bool.false_eq_true, if_false, hfirst, recaseWord,
        Text.upperChar_ascii h.1]
      cases starts <;> rfl

theorem lookupKeyChars_eq_passKey (h : ∀ c ∈ cs, isNameChar c) : lookupKeyChars cs = passKey false cs := by
  rw [passKey_eq (fun c hc => toNat_lt_of_isNameChar (h c hc)) false]
  rfl

/-- Where no letter follows it makes no difference whether a word starts. -/
theorem passKey_of_no_letter (h : ∀ c ∈ cs, isNameChar c) (hl : ¬ startsWithLetter cs) (starts : Bool) :
    passKey starts cs = passKey true cs := by
  cases cs with
  | nil => rfl
  | cons c cs =>
    have hcase := char_of_codes (p := fun c => c.isAlpha ∨ c.toLower = c.toUpper) (by decide)
      (toNat_lt_of_isNameChar (h c List.mem_cons_self))
    have hsame : c.toLower = c.toUpper := hcase.resolve_left hl
    simp only [passKey, hsame, ite_self]

/-- A name has the key of its plain spelling. -/
theorem passKey_plainChars (h : ∀ c ∈ cs, isNameChar c) (starts : Bool) :
    passKey starts (plainChars cs) = passKey starts cs := by
  induction cs generalizing starts with
  | nil => rfl
  | cons c cs ih =>
    rw [List.forall_mem_cons] at h
    have ih := ih h.2
    by_cases hmark : c = '_'
    · by_cases hletter : startsWithLetter cs
      · simp [plainChars, hmark, hletter, passKey, ih]
      · simp [plainChars, hmark, hletter, passKey, ih, passKey_of_no_letter h.2 hletter starts]
    · simp [plainChars, passKey, hmark, toLower_of_isNameChar h.1, ih]

theorem plainChars_double (cs : List Char) : plainChars ('_' :: '_' :: cs) = plainChars ('_' :: cs) := by
  have hnone : startsWithLetter ('_' :: cs) = false := rfl
  rw [plainChars, hnone]
  rfl

/-- The plain spelling of a name is how its key is spelled. -/
theorem plainChars_eq_spelled (h : ∀ c ∈ cs, isNameChar c) :
    plainChars cs = (passKey false cs).flatMap spellOut ∧
      plainChars ('_' :: cs) = (passKey true cs).flatMap spellOut := by
  induction cs with
  | nil => exact ⟨rfl, rfl⟩
  | cons c cs ih =>
    rw [List.forall_mem_cons] at h
    obtain ⟨hinside, hstart⟩ := ih h.2
    by_cases hmark : c = '_'
    · subst hmark
      exact ⟨hstart, (plainChars_double cs).trans hstart⟩
    · have hcase := char_of_codes (p := fun c => spellOut c.toLower = [c.toLower] ∧
        spellOut c.toUpper = if c.isAlpha then ['_', c.toLower] else [c.toLower]) (by decide)
        (toNat_lt_of_isNameChar h.1)
      constructor
      · simp [plainChars, passKey, hmark, hcase, hinside]
      · by_cases hletter : c.isAlpha <;> simp [plainChars, passKey, startsWithLetter, hmark, hcase, hinside, hletter]

/-- The key tells the plain spelling, and no more. -/
theorem passKey_eq_iff (ha : ∀ c ∈ as, isNameChar c) (hb : ∀ c ∈ bs, isNameChar c) :
    passKey false as = passKey false bs ↔ plainChars as = plainChars bs := by
  constructor
  · intro h
    rw [(plainChars_eq_spelled ha).1, (plainChars_eq_spelled hb).1, h]
  · intro h
    rw [← passKey_plainChars ha, ← passKey_plainChars hb, h]

/-- But for underscores the plain spelling has the letters of the name. -/
theorem filter_plainChars (h : ∀ c ∈ cs, isNameChar c) :
    (plainChars cs).filter (· ≠ '_') = (cs.filter (· ≠ '_')).map Char.toLower := by
  induction cs with
  | nil => rfl
  | cons c cs ih =>
    rw [List.forall_mem_cons] at h
    have ih := ih h.2
    by_cases hmark : c = '_'
    · cases hletter : startsWithLetter cs <;> simpa [plainChars, hmark, hletter] using ih
    · simpa [plainChars, hmark, toLower_of_isNameChar h.1] using ih

theorem plainChars_of_no_mark (h : '_' ∉ cs) : plainChars cs = cs.map Char.toLower := by
  induction cs with
  | nil => rfl
  | cons c cs ih =>
    rw [List.mem_cons, not_or] at h
    rw [plainChars, if_neg (Ne.symm h.1), ih h.2, List.map_cons]

theorem startsWithLetter_append_mark (as bs : List Char) :
    startsWithLetter (as ++ '_' :: bs) = startsWithLetter as := by
  cases as <;> rfl

theorem plainChars_append_double (as bs : List Char) :
    plainChars (as ++ '_' :: '_' :: bs) = plainChars (as ++ '_' :: bs) := by
  induction as with
  | nil => exact plainChars_double bs
  | cons c as ih => simp only [List.cons_append, plainChars, startsWithLetter_append_mark, ih]

theorem plainChars_append_mark (as : List Char) : plainChars (as ++ ['_']) = plainChars as := by
  induction as with
  | nil => rfl
  | cons c as ih => simp only [List.cons_append, plainChars, startsWithLetter_append_mark, ih]

theorem startsWithLetter_toLower (h : ∀ c ∈ cs, isNameChar c) :
    startsWithLetter (cs.map Char.toLower) = startsWithLetter cs := by
  cases cs with
  | nil => rfl
  | cons c cs => simp [startsWithLetter, toLower_of_isNameChar (h c List.mem_cons_self)]

theorem plainChars_toLower (h : ∀ c ∈ cs, isNameChar c) : plainChars (cs.map Char.toLower) = plainChars cs := by
  induction cs with
  | nil => rfl
  | cons c cs ih =>
    rw [List.forall_mem_cons] at h
    simp only [List.map_cons, plainChars, toLower_of_isNameChar h.1, startsWithLetter_toLower h.2, ih h.2]

theorem plain_of_mem_plainChars (h : ∀ c ∈ cs, isNameChar c) : ∀ c ∈ plainChars cs, c.toNat < 128 ∧ c.toLower = c := by
  induction cs with
  | nil => simp [plainChars]
  | cons c cs ih =>
    rw [List.forall_mem_cons] at h
    have ih := ih h.2
    obtain ⟨_, hascii, hidem, _⟩ := toLower_of_isNameChar h.1
    have hmark : '_'.toNat < 128 ∧ '_'.toLower = '_' := by decide
    rw [plainChars]
    split
    · split
      · exact List.forall_mem_cons.2 ⟨hmark, ih⟩
      · exact ih
    · exact List.forall_mem_cons.2 ⟨⟨hascii, hidem⟩, ih⟩

end Spelling

section Names

variable {a b name : String}

def plainName (name : String) : String :=
  String.ofList (plainChars name.toList)

/-- The name in small letters and without its underscores. -/
def bareName (name : String) : String :=
  String.ofList (Text.lower (name.toList.filter (· ≠ '_')))

/-- The names with one key are those with one plain spelling. -/
theorem lookupKey_eq_iff (ha : ∀ c ∈ a.toList, isNameChar c) (hb : ∀ c ∈ b.toList, isNameChar c) :
    lookupKey a = lookupKey b ↔ plainName a = plainName b := by
  rw [lookupKey, lookupKey, plainName, plainName, String.ofList_inj, String.ofList_inj, lookupKeyChars_eq_passKey ha,
    lookupKeyChars_eq_passKey hb]
  exact passKey_eq_iff ha hb

theorem lower_plainName (h : ∀ c ∈ name.toList, isNameChar c) :
    Text.lower (plainName name).toList = plainChars name.toList := by
  have hplain := plain_of_mem_plainChars h
  rw [plainName, String.toList_ofList, Text.lower_ascii fun c hc => (hplain c hc).1]
  exact (List.map_congr_left fun c hc => (hplain c hc).2).trans (List.map_id _)

theorem bareName_eq (h : ∀ c ∈ name.toList, isNameChar c) :
    bareName name = String.ofList ((plainName name).toList.filter (· ≠ '_')) := by
  have hkept : ∀ c ∈ name.toList.filter (· ≠ '_'), isNameChar c := fun c hc => h c (List.mem_of_mem_filter hc)
  rw [bareName, lower_of_isNameChar hkept, plainName, String.toList_ofList, filter_plainChars h]

theorem bareName_of_lookupKey (ha : ∀ c ∈ a.toList, isNameChar c) (hb : ∀ c ∈ b.toList, isNameChar c)
    (h : lookupKey a = lookupKey b) : bareName a = bareName b := by
  rw [bareName_eq ha, bareName_eq hb, (lookupKey_eq_iff ha hb).1 h]

theorem plainName_of_sameButAsciiCase (ha : ∀ c ∈ a.toList, isNameChar c) (hb : ∀ c ∈ b.toList, isNameChar c)
    (h : Text.sameButAsciiCase a b) : plainName a = plainName b := by
  have hcase : a.toList.map Char.toLower = b.toList.map Char.toLower := eq_of_beq h
  rw [plainName, plainName, ← plainChars_toLower ha, hcase, plainChars_toLower hb]

theorem plainName_double (before behind : String) :
    plainName (before ++ "__" ++ behind) = plainName (before ++ "_" ++ behind) := by
  simp [plainName, String.toList_append, plainChars_append_double]

theorem plainName_append_mark (name : String) : plainName (name ++ "_") = plainName name := by
  simp [plainName, String.toList_append, plainChars_append_mark]

end Names

/-- Names with one key have the same letters and digits, be they small or capital, and so has what is found under a
name. A name keeps its key in another case, with an underscore doubled, and with one more at its end. -/
theorem lookupKey_respelled (b : String) (hb : isLegalName b) :
    (∀ a, isLegalName a → lookupKey a = lookupKey b → bareName a = bareName b) ∧
    (∀ a, isLegalName a → Text.sameButAsciiCase a b → lookupKey a = lookupKey b) ∧
    (∀ before behind, b = before ++ "_" ++ behind → lookupKey (before ++ "__" ++ behind) = lookupKey b) ∧
    lookupKey (b ++ "_") = lookupKey b ∧
    ∀ registry : Registry, registry.Reached → ∀ d, registry.get? b = some d → bareName d.name = bareName b := by
  have hchars := isNameChar_of_legal hb
  refine ⟨fun a ha h => ?_, fun a ha h => ?_, ?_, ?_, fun registry hr d hd => ?_⟩
  · exact bareName_of_lookupKey (isNameChar_of_legal ha) hchars h
  · have hplain := plainName_of_sameButAsciiCase (isNameChar_of_legal ha) hchars h
    exact (lookupKey_eq_iff (isNameChar_of_legal ha) hchars).2 hplain
  · rintro before behind rfl
    have hdouble : ∀ c ∈ (before ++ "__" ++ behind).toList, isNameChar c := by
      simpa [String.toList_append, or_imp, forall_and] using hchars
    exact (lookupKey_eq_iff hdouble hchars).2 (plainName_double before behind)
  · have hmark : ∀ c ∈ (b ++ "_").toList, isNameChar c := isNameChar_of_legal (isLegalName_append hb (by decide))
    exact (lookupKey_eq_iff hmark hchars).2 (plainName_append_mark b)
  · have hlegal := hr.orderly.legal d (hr.orderly.keyed.get?_mem hd)
    exact bareName_of_lookupKey (isNameChar_of_legal hlegal) hchars (hr.orderly.keyed.key_of_get? hd)

/-- An enum of which the name has two words and a digit. -/
def smallDogs : TypeDefinition := ⟨"Small_dog2", [], .enum ["PUP"]⟩

/-- It is found under other spellings of its name, one with the digit as a word of its own. -/
theorem smallDogs_respelled : lookupKey "SMALL__Dog_2_" = lookupKey "Small_dog2" ∧
    bareName "SMALL__Dog_2_" = bareName "Small_dog2" ∧ lookupKey "sMALL_DOG2" = lookupKey "Small_dog2" ∧
    lookupKey "Small__dog2" = lookupKey "Small_dog2" ∧ lookupKey "Small_dog2_" = lookupKey "Small_dog2" ∧
    ∃ registry, Registry.Reached registry ∧ registry.get? "Small_dog2" = some smallDogs ∧
      bareName smallDogs.name = bareName "Small_dog2" := by
  obtain ⟨⟨_, registry⟩, hregistered, hfound⟩ := Except.exists_ok_of_decide (x := Registry.empty.register smallDogs)
    (p := fun registered => registered.2.get? "Small_dog2" = some smallDogs) (by decide +kernel)
  have hmade : TypeDefinition.make "Small_dog2" (.enum ["PUP"]) [] = .ok smallDogs := by decide
  have hreached : Registry.Reached registry := .register .empty hmade hregistered
  have hkey : lookupKey "SMALL__Dog_2_" = lookupKey "Small_dog2" := by decide
  obtain ⟨hbare, hcase, hdouble, hmark, hget⟩ := lookupKey_respelled "Small_dog2" (by decide)
  exact ⟨hkey, hbare _ (by decide) hkey, hcase _ (by decide) (by decide), hdouble "Small" "dog2" (by decide), hmark,
    registry, hreached, hfound, hget registry hreached smallDogs hfound⟩

end TableApi
