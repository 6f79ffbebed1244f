import TableApi.Proofs.DeclaredNames

/-! Which lists of attributes stand for the keys alone. A marker for this may stand anywhere in an entry, in any case,
and in the letters beyond ASCII that case folding brings to those of the marker. -/
namespace TableApi

namespace Text

variable {c d letter : Char}

/-- Case folding by way of capitals: the small letters of the capitals of a character. It brings to one letter of ASCII
what simple case folding does, but for the dotless i. -/
def foldChar (c : Char) : List Char :=
  (upperChar c).flatMap lowerChar

theorem eq_toNat_of_ofNat {code : Nat} (h : Char.ofNat code = d) (hd : d.toNat ≠ 0) : code = d.toNat := by
  subst h
  by_cases hvalid : code.isValidChar
  · rw [Char.ofNat, dif_pos hvalid]
    rfl
  · rw [Char.ofNat, dif_neg hvalid] at hd
    exact absurd rfl hd

/-- A character that is mapped to a single one is this one or stands in a run. -/
theorem run_of_mapCase {runs : List CaseRun} {expansions : List (Nat × List Nat)}
    (hexpansions : ∀ entry ∈ expansions, entry.2.length ≠ 1) (hd : d.toNat ≠ 0)
    (h : (mapCase runs expansions c.toNat).map Char.ofNat = [d]) :
    c = d ∨ ∃ run ∈ runs, run.covers c.toNat ∧ run.apply c.toNat = d.toNat := by
  obtain ⟨code, hcode, hchar⟩ := List.map_eq_singleton_iff.1 h
  unfold mapCase at hcode
  split at hcode
  · next codes hcodes =>
    obtain ⟨before, after, hentries, _⟩ := List.lookup_eq_some_iff.1 hcodes
    exact absurd (by rw [hcode]; rfl) (hexpansions (c.toNat, codes) (by simp [hentries]))
  · split at hcode
    · next run hrun =>
      obtain rfl := List.singleton_inj.1 hcode
      have hcovers : run.covers c.toNat := List.find?_some (p := fun run : CaseRun => run.covers c.toNat) hrun
      exact .inr ⟨run, List.mem_of_find?_eq_some hrun, hcovers, eq_toNat_of_ofNat hchar hd⟩
    · obtain rfl := List.singleton_inj.1 hcode
      rw [Char.ofNat_toNat] at hchar
      exact .inl hchar

/-- Beyond ASCII only the Kelvin sign has a small letter of ASCII. -/
theorem lowerChar_beyond (hc : ¬ c.toNat < 128) (hd : d.toNat ≠ 0) (hascii : d.toNat < 128) (h : lowerChar c = [d]) :
    c = '\u212a' := by
  have hexpansions : ∀ entry ∈ lowerExpansions, entry.2.length ≠ 1 := by decide
  have hruns : ∀ run ∈ lowerRuns, 128 ≤ run.first + run.shift ∨ run.first = 0x212a ∧ run.last = 0x212a := by
    decide +kernel
  rw [lowerChar, if_neg hc] at h
  obtain rfl | ⟨run, hrun, hcovers, happly⟩ := run_of_mapCase hexpansions hd h
  · exact absurd hascii hc
  · simp only [CaseRun.covers, Bool.and_eq_true, decide_eq_true_eq] at hcovers
    rw [CaseRun.apply] at happly
    obtain ⟨hfirst, hlast⟩ := (hruns run hrun).resolve_left (by omega)
    have hcode : c.toNat = 0x212a := by omega
    rw [← Char.ofNat_toNat c, hcode]

/-- Beyond ASCII only the dotless i and the long s have capitals of ASCII, and no letter but itself has the Kelvin sign
as its capital. -/
theorem upperChar_beyond (hc : ¬ c.toNat < 128) (hd : d.toNat ≠ 0) (h : upperChar c = [d]) :
    (d.toNat < 128 → c = '\u0131' ∨ c = '\u017f') ∧ (d = '\u212a' → c = d) := by
  have hexpansions : ∀ entry ∈ upperExpansions, entry.2.length ≠ 1 := by decide
  have hruns : ∀ run ∈ upperRuns, (128 ≤ run.first + run.shift ∨ run.first = 0x131 ∧ run.last = 0x131 ∨
      run.first = 0x17f ∧ run.last = 0x17f) ∧ (0x212a < run.first + run.shift ∨ run.last + run.shift < 0x212a) := by
    decide +kernel
  rw [upperChar, if_neg hc] at h
  obtain rfl | ⟨run, hrun, hcovers, happly⟩ := run_of_mapCase hexpansions hd h
  · exact ⟨fun hascii => absurd hascii hc, fun _ => rfl⟩
  · simp only [CaseRun.covers, Bool.and_eq_true, decide_eq_true_eq] at hcovers
    rw [CaseRun.apply] at happly
    obtain ⟨hlow, hkelvin⟩ := hruns run hrun
    constructor
    · intro hascii
      have hcode : c.toNat = 0x131 ∨ c.toNat = 0x17f := by omega
      rw [← Char.ofNat_toNat c]
      exact hcode.imp (congrArg Char.ofNat) (congrArg Char.ofNat)
    · rintro rfl
      have hcode : run.apply c.toNat = 0x212a := happly
      rw [CaseRun.apply] at hcode
      omega

/-- What folds to one character has one capital. -/
theorem foldChar_eq_singleton_iff : foldChar c = [letter] ↔ ∃ d, upperChar c = [d] ∧ lowerChar d = [letter] := by
  constructor
  · intro h
    unfold foldChar at h
    cases hupper : upperChar c with
    | nil => exact absurd hupper (upperChar_ne_nil c)
    | cons d ds =>
      rw [hupper, List.flatMap_cons, List.append_eq_singleton_iff] at h
      obtain ⟨hd, _⟩ | ⟨hd, hds⟩ := h
      · exact absurd hd (lowerChar_ne_nil d)
      · cases ds with
        | nil => exact ⟨d, rfl, hd⟩
        | cons e ds =>
          rw [List.flatMap_cons, List.append_eq_nil_iff] at hds
          exact absurd hds.1 (lowerChar_ne_nil e)
  · rintro ⟨d, hupper, hlower⟩
    rw [foldChar, hupper, List.flatMap_singleton, hlower]

/-- Beyond ASCII only the Kelvin sign and the long s fold to small letters of ASCII other than i. -/
theorem foldChar_beyond_iff (hc : ¬ c.toNat < 128) (hsmall : 97 ≤ letter.toNat ∧ letter.toNat ≤ 122)
    (hi : letter ≠ 'i') :
    foldChar c = [letter] ↔ letter = 'k' ∧ c = '\u212a' ∨ letter = 's' ∧ c = '\u017f' := by
  rw [foldChar_eq_singleton_iff]
  constructor
  · rintro ⟨d, hupper, hlower⟩
    by_cases hd : d.toNat < 128
    · rw [lowerChar_ascii hd, List.singleton_inj] at hlower
      have hzero : d.toNat ≠ 0 := by
        intro hzero
        rw [← Char.ofNat_toNat d, hzero] at hlower
        subst hlower
        exact absurd hsmall (by decide)
      rcases (upperChar_beyond hc hzero hupper).1 hd with rfl | rfl
      · have hcapital : upperChar '\u0131' = ['I'] := by decide +kernel
        obtain rfl := List.singleton_inj.1 (hcapital.symm.trans hupper)
        exact absurd hlower.symm hi
      · have hcapital : upperChar '\u017f' = ['S'] := by decide +kernel
        obtain rfl := List.singleton_inj.1 (hcapital.symm.trans hupper)
        exact .inr ⟨hlower.symm, rfl⟩
    · obtain rfl := lowerChar_beyond hd (by omega) (by omega) hlower
      obtain rfl := (upperChar_beyond hc (by decide) hupper).2 rfl
      have hkelvin : lowerChar '\u212a' = ['k'] := by decide +kernel
      exact .inl ⟨(List.singleton_inj.1 (hkelvin.symm.trans hlower)).symm, rfl⟩
  · rintro (⟨rfl, rfl⟩ | ⟨rfl, rfl⟩)
    · exact ⟨'\u212a', by decide +kernel⟩
    · exact ⟨'S', by decide +kernel⟩

theorem foldChar_ascii (hc : c.toNat < 128) : foldChar c = [c.toLower] := by
  have hcase := char_of_codes (p := fun c => c.toUpper.toNat < 128 ∧ c.toUpper.toLower = c.toLower) (by decide) hc
  rw [foldChar, upperChar_ascii hc, List.flatMap_singleton, lowerChar_ascii hcase.1, hcase.2]

theorem toLower_beyond (hc : ¬ c.toNat < 128) : c.toLower = c := by
  unfold Char.toLower
  split
  · next hupper =>
    have hlast : c.toNat ≤ 90 := hupper.2
    omega
  · rfl

end Text

namespace Projection

variable {c letter : Char} {cs rest word : List Char} {entry : String} {entries : List String}

/-- A character is taken for a letter of the marker exactly if it folds to the letter. -/
theorem foldsTo_iff (hl : letter.isLower) (hi : letter ≠ 'i') : foldsTo letter c ↔ Text.foldChar c = [letter] := by
  have hsmall : 97 ≤ letter.toNat ∧ letter.toNat ≤ 122 := by
    obtain ⟨hfirst, hlast⟩ := (Bool.and_eq_true _ _).mp hl
    exact ⟨of_decide_eq_true hfirst, of_decide_eq_true hlast⟩
  by_cases hc : c.toNat < 128
  · have hkelvin : c ≠ '\u212a' := by rintro rfl; exact absurd hc (by decide)
    have hlong : c ≠ '\u017f' := by rintro rfl; exact absurd hc (by decide)
    simp [foldsTo, Text.foldChar_ascii hc, hkelvin, hlong]
  · have hne : c.toLower ≠ letter := by
      rw [Text.toLower_beyond hc]
      rintro rfl
      omega
    simp [foldsTo, Text.foldChar_beyond_iff hc hsmall hi, hne]

/-- The text is the word in some case. -/
def Folds (word cs : List Char) : Prop :=
  cs.map Text.foldChar = word.map ([·])

/-- The marker for keys only: `key`, maybe `s`, maybe one character that does not end a line, `only`, in any case. -/
def IsMarker (cs : List Char) : Prop :=
  ∃ key plural gap only, cs = key ++ plural ++ gap ++ only ∧ Folds "key".toList key ∧
    (plural = [] ∨ Folds "s".toList plural) ∧ (gap.length ≤ 1 ∧ '\n' ∉ gap) ∧ Folds "only".toList only

/-- A marker stands somewhere in the entry. -/
def MarksKeysOnly (entry : String) : Prop :=
  ∃ marker, IsMarker marker ∧ marker <:+: entry.toList

theorem folds_cons_iff : Folds (letter :: word) cs ↔
    ∃ c start, cs = c :: start ∧ Text.foldChar c = [letter] ∧ Folds word start := by
  cases cs <;> simp [Folds]

theorem dropWord_eq_some_iff (hw : ∀ letter ∈ word, letter.isLower ∧ letter ≠ 'i') :
    dropWord word cs = some rest ↔ ∃ start, Folds word start ∧ cs = start ++ rest := by
  induction word generalizing cs with
  | nil => simp [dropWord, Folds, eq_comm]
  | cons letter word ih =>
    obtain ⟨⟨hl, hi⟩, hw⟩ := List.forall_mem_cons.1 hw
    simp only [folds_cons_iff]
    constructor
    · intro h
      cases cs with
      | nil => cases h
      | cons c cs =>
        rw [dropWord] at h
        split at h
        · next hfold =>
          obtain ⟨start, hstart, rfl⟩ := (ih hw).1 h
          exact ⟨c :: start, ⟨c, start, rfl, (foldsTo_iff hl hi).1 hfold, hstart⟩, rfl⟩
        · cases h
    · rintro ⟨_, ⟨c, start, rfl, hfold, hstart⟩, rfl⟩
      rw [List.cons_append, dropWord, if_pos ((foldsTo_iff hl hi).2 hfold)]
      exact (ih hw).2 ⟨start, hstart, rfl⟩

/-- A word is dropped in one way at most, so a test on what is behind it is for some way to drop it. -/
theorem behindWord_iff {p : List Char → Bool} (hw : ∀ letter ∈ word, letter.isLower ∧ letter ≠ 'i') :
    ((dropWord word cs).map p).getD false ↔ ∃ start rest, Folds word start ∧ cs = start ++ rest ∧ p rest := by
  constructor
  · intro h
    cases hdrop : dropWord word cs with
    | none => simp [hdrop] at h
    | some rest =>
      obtain ⟨start, hstart, hcs⟩ := (dropWord_eq_some_iff hw).1 hdrop
      exact ⟨start, rest, hstart, hcs, by simpa [hdrop] using h⟩
  · rintro ⟨start, rest, hstart, hcs, hp⟩
    rw [(dropWord_eq_some_iff hw).2 ⟨start, hstart, hcs⟩]
    exact hp

theorem startsWithOnly_iff : startsWithOnly cs ↔ ∃ only rest, Folds "only".toList only ∧ cs = only ++ rest := by
  have hword : ∀ letter ∈ ['o', 'n', 'l', 'y'], letter.isLower ∧ letter ≠ 'i' := by simp
  rw [startsWithOnly, Option.isSome_iff_exists]
  simp only [dropWord_eq_some_iff hword]
  exact exists_comm

theorem onlyWithinOne_iff : onlyWithinOne cs ↔
    ∃ gap only rest, (gap.length ≤ 1 ∧ '\n' ∉ gap) ∧ Folds "only".toList only ∧ cs = gap ++ (only ++ rest) := by
  unfold onlyWithinOne
  rw [Bool.or_eq_true, startsWithOnly_iff]
  constructor
  · rintro (⟨only, rest, honly, rfl⟩ | hgap)
    · exact ⟨[], only, rest, by simp, honly, rfl⟩
    · cases cs with
      | nil => cases hgap
      | cons c cs =>
        rw [Bool.and_eq_true, startsWithOnly_iff] at hgap
        obtain ⟨hc, only, rest, honly, rfl⟩ := hgap
        exact ⟨[c], only, rest, by simpa using Ne.symm (bne_iff_ne.1 hc), honly, rfl⟩
  · rintro ⟨gap, only, rest, ⟨hlength, hline⟩, honly, rfl⟩
    cases gap with
    | nil => exact .inl ⟨only, rest, honly, rfl⟩
    | cons c gap =>
      obtain rfl : gap = [] := by simpa using hlength
      right
      dsimp only [List.cons_append, List.nil_append]
      rw [Bool.and_eq_true, startsWithOnly_iff]
      exact ⟨bne_iff_ne.2 fun hc => hline (hc ▸ List.mem_cons_self), only, rest, honly, rfl⟩

theorem startsWithMarker_iff : startsWithMarker cs ↔ ∃ marker, IsMarker marker ∧ marker <+: cs := by
  have hkey : ∀ letter ∈ ['k', 'e', 'y'], letter.isLower ∧ letter ≠ 'i' := by simp
  have hs : ∀ letter ∈ ['s'], letter.isLower ∧ letter ≠ 'i' := by simp
  have hdrop : startsWithMarker cs = ((dropWord ['k', 'e', 'y'] cs).map fun rest =>
      onlyWithinOne rest || ((dropWord ['s'] rest).map onlyWithinOne).getD false).getD false := by
    unfold startsWithMarker
    cases dropWord ['k', 'e', 'y'] cs <;> rfl
  rw [hdrop, behindWord_iff hkey]
  simp only [Bool.or_eq_true, behindWord_iff hs, onlyWithinOne_iff]
  constructor
  · rintro ⟨key, _, hkey, rfl, ⟨gap, only, more, hgap, honly, rfl⟩ |
      ⟨plural, _, hplural, rfl, gap, only, more, hgap, honly, rfl⟩⟩
    · exact ⟨key ++ [] ++ gap ++ only, ⟨key, [], gap, only, rfl, hkey, .inl rfl, hgap, honly⟩, more, by simp⟩
    · exact ⟨key ++ plural ++ gap ++ only, ⟨key, plural, gap, only, rfl, hkey, .inr hplural, hgap, honly⟩, more,
        by simp⟩
  · rintro ⟨_, ⟨key, plural, gap, only, rfl, hkey, rfl | hplural, hgap, honly⟩, more, rfl⟩
    · exact ⟨key, gap ++ (only ++ more), hkey, by simp, .inl ⟨gap, only, more, hgap, honly, rfl⟩⟩
    · exact ⟨key, plural ++ (gap ++ (only ++ more)), hkey, by simp,
        .inr ⟨plural, _, hplural, rfl, gap, only, more, hgap, honly, rfl⟩⟩

theorem not_isMarker_nil : ¬ IsMarker [] := by
  rintro ⟨key, plural, gap, only, h, hkey, -⟩
  obtain rfl : key = [] := by simp_all
  cases hkey

theorem holdsMarker_iff : holdsMarker cs ↔ ∃ marker, IsMarker marker ∧ marker <:+: cs := by
  induction cs with
  | nil => simp [holdsMarker, not_isMarker_nil]
  | cons c cs ih =>
    rw [holdsMarker, Bool.or_eq_true, startsWithMarker_iff, ih]
    simp only [List.infix_cons_iff, and_or_left, exists_or]

instance : Decidable (MarksKeysOnly entry) :=
  decidable_of_iff (holdsMarker entry.toList) holdsMarker_iff

theorem ofInclude_eq (entries : List String) : ofInclude entries =
    if entries = [] then all else if ∃ entry ∈ entries, MarksKeysOnly entry then keysOnly else including entries := by
  have hany : entries.any (fun entry => holdsMarker entry.toList) = true ↔ ∃ entry ∈ entries, MarksKeysOnly entry := by
    rw [List.any_eq_true]
    exact exists_congr fun entry => and_congr_right fun _ => holdsMarker_iff
  simp only [ofInclude, List.isEmpty_iff, hany]

theorem ofInclude_eq_all_iff : ofInclude entries = all ↔ entries = [] := by
  rw [ofInclude_eq]
  split
  · next hnil => exact iff_of_true rfl hnil
  · next hne => split <;> exact iff_of_false nofun hne

theorem ofInclude_eq_keysOnly_iff : ofInclude entries = keysOnly ↔ ∃ entry ∈ entries, MarksKeysOnly entry := by
  rw [ofInclude_eq]
  split
  · next hnil => simp [hnil]
  · split
    · next hmarked => exact iff_of_true rfl hmarked
    · next hmarked => exact iff_of_false nofun hmarked

theorem ofInclude_eq_including_iff {attributes : List String} : ofInclude entries = including attributes ↔
    attributes = entries ∧ entries ≠ [] ∧ ∀ entry ∈ entries, ¬ MarksKeysOnly entry := by
  rw [ofInclude_eq]
  split
  · next hnil => simp [hnil]
  · next hne =>
    split
    · next hmarked =>
      obtain ⟨entry, he, hmark⟩ := hmarked
      exact iff_of_false nofun fun ⟨_, _, hnone⟩ => hnone entry he hmark
    · next hmarked =>
      have hnone : ∀ entry ∈ entries, ¬ MarksKeysOnly entry := fun entry he hmark => hmarked ⟨entry, he, hmark⟩
      rw [including.injEq, eq_comm, and_iff_left ⟨hne, hnone⟩]

/-- Nothing listed is everything, a marker in any place is for keys only, and any other list is taken as it is. So a
marker may be put anywhere, and the order of a list does not matter to the kind. -/
theorem ofInclude_kinds (entries : List String) :
    (ofInclude entries = all ↔ entries = []) ∧
    (ofInclude entries = keysOnly ↔ ∃ entry ∈ entries, MarksKeysOnly entry) ∧
    (∀ attributes, ofInclude entries = including attributes ↔
      attributes = entries ∧ entries ≠ [] ∧ ∀ entry ∈ entries, ¬ MarksKeysOnly entry) ∧
    (∀ before behind marker, entries = before ++ behind → MarksKeysOnly marker →
      ofInclude (before ++ marker :: behind) = keysOnly) ∧
    ∀ other : List String, other.Perm entries → (ofInclude other).typeName = (ofInclude entries).typeName := by
  refine ⟨ofInclude_eq_all_iff, ofInclude_eq_keysOnly_iff, fun _ => ofInclude_eq_including_iff, ?_, ?_⟩
  · intro before behind marker _ hmarker
    exact ofInclude_eq_keysOnly_iff.2 ⟨marker, by simp, hmarker⟩
  · intro other hperm
    have hnil : other = [] ↔ entries = [] :=
      ⟨fun h => List.nil_perm.1 (h ▸ hperm), fun h => List.perm_nil.1 (h ▸ hperm)⟩
    have hmarked : (∃ entry ∈ other, MarksKeysOnly entry) ↔ ∃ entry ∈ entries, MarksKeysOnly entry :=
      exists_congr fun entry => and_congr_left fun _ => hperm.mem_iff
    simp only [ofInclude_eq, hnil, hmarked]
    split
    · rfl
    · split <;> rfl

/-- The letters of the marker in foreign forms, within a longer entry. A line that ends keeps its words apart. -/
theorem foreign_marker_found : ofInclude ["name", "all \u212aEY\u017f-Only now", "age"] = keysOnly ∧
    (ofInclude ["all \u212aEY\u017f-Only now", "age", "name"]).typeName = "KEYS_ONLY" ∧
    ofInclude ["keyssonly"] = keysOnly ∧
    ofInclude ["keys\nonly", "monkey"] = including ["keys\nonly", "monkey"] := by
  have hforeign : MarksKeysOnly "all \u212aEY\u017f-Only now" := by decide
  have hdouble : MarksKeysOnly "keyssonly" := by decide
  obtain ⟨_, _, _, hinsert, _⟩ := ofInclude_kinds ["name", "age"]
  have hput := hinsert ["name"] ["age"] _ rfl hforeign
  obtain ⟨_, _, _, _, hperm⟩ := ofInclude_kinds ["name", "all \u212aEY\u017f-Only now", "age"]
  have hkind := hperm ["all \u212aEY\u017f-Only now", "age", "name"] (by decide)
  obtain ⟨_, _, hkept, _, _⟩ := ofInclude_kinds ["keys\nonly", "monkey"]
  obtain ⟨_, hmarked, _⟩ := ofInclude_kinds ["keyssonly"]
  exact ⟨hput, hkind.trans (congrArg typeName hput), hmarked.2 ⟨_, List.mem_cons_self, hdouble⟩,
    (hkept _).2 ⟨rfl, by decide, by decide⟩⟩

end Projection

end TableApi
