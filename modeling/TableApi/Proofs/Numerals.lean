import Mathlib.Data.List.Basic
import Mathlib.Data.List.DropRight
import Mathlib.Data.List.TakeWhile
import TableApi.Json.Printer
import TableApi.Json.Token

/-! Numbers as they are written. The text of every number is a numeral, and is taken in up to its end as that numeral;
a whole number of 64 bits is the value of its numeral. -/
namespace TableApi

section Digits

variable {digits cs rest : List Char} {n : Nat}

def AllDigits (text : List Char) : Prop :=
  ∀ c ∈ text, c.isDigit = true

theorem allDigits_replicate_zero (n : Nat) : AllDigits (List.replicate n '0') := by
  intro c hc
  rw [List.eq_of_mem_replicate hc]
  rfl

theorem AllDigits.append (hd : AllDigits digits) (hc : AllDigits cs) : AllDigits (digits ++ cs) :=
  List.forall_mem_append.2 ⟨hd, hc⟩

theorem AllDigits.take (h : AllDigits digits) (n : Nat) : AllDigits (digits.take n) :=
  fun c hc => h c (List.mem_of_mem_take hc)

theorem AllDigits.drop (h : AllDigits digits) (n : Nat) : AllDigits (digits.drop n) :=
  fun c hc => h c (List.mem_of_mem_drop hc)

theorem allDigits_toDigits (n : Nat) : AllDigits (Nat.toDigits 10 n) :=
  fun _ hc => Nat.isDigit_of_mem_toDigits (by decide) (by decide) hc

/-- Digits start with a zero only where they are no others. -/
theorem head_toDigits (h : (Nat.toDigits 10 n).head? = some '0') : n = 0 := by
  induction n using Nat.strongRecOn with
  | ind n ih =>
    by_cases hless : n < 10
    · rw [Nat.toDigits_of_lt_base hless, List.head?_singleton, Option.some.injEq] at h
      exact Nat.digitChar_eq_zero.1 h
    · rw [Nat.toDigits_of_base_le (by decide) (by omega), List.head?_append_of_ne_nil _ Nat.toDigits_ne_nil] at h
      have htenth := ih (n / 10) (by omega) h
      omega

theorem digitsValue_toDigits (n : Nat) : Json.digitsValue (Nat.toDigits 10 n) = n := by
  have hfold : (fun (value : Nat) (d : Char) => value * 10 + (d.toNat - '0'.toNat)) =
      fun value d => 10 * value + (d.toNat - '0'.toNat) := by
    funext value d
    rw [Nat.mul_comm]
  rw [Json.digitsValue, hfold, ← Nat.ofDigitChars_eq_foldl, Nat.ofDigitChars_ten_toDigits]

end Digits

namespace Json

/-- Characters with which a numeral could go on. -/
def isNumeralChar (c : Char) : Bool :=
  c.isDigit || c = '.' || c = 'e' || c = 'E'

/-- A numeral that stands before the text ends there. -/
def Delimited (text : List Char) : Prop :=
  ∀ c ∈ text.head?, isNumeralChar c = false

namespace Numeral

/-- What stands behind the whole digits of a numeral. -/
def fractionChars : List Char → List Char
  | [] => []
  | digits => '.' :: digits

theorem fractionChars_of_ne_nil {digits : List Char} (h : digits ≠ []) : fractionChars digits = '.' :: digits := by
  cases digits with
  | nil => exact absurd rfl h
  | cons => rfl

def powerChars : Option (Bool × List Char) → List Char
  | none => []
  | some (negative, digits) => 'e' :: (if negative then '-' else '+') :: digits

def chars (n : Numeral) : List Char :=
  (if n.negative then ['-'] else []) ++ (n.whole ++ (fractionChars n.fraction ++ powerChars n.power))

/-- A numeral as JSON has them: with a digit wherever one has to be, and without needless zeros before it. -/
structure WellFormed (n : Numeral) : Prop where
  whole : AllDigits n.whole
  nonempty : n.whole ≠ []
  leading : n.whole.head? = some '0' → n.whole = ['0']
  fraction : AllDigits n.fraction
  power : ∀ power ∈ n.power, AllDigits power.2 ∧ power.2 ≠ []

end Numeral

section Reading

variable {digits cs rest : List Char}

/-- Digits are taken as far as they go. -/
theorem span_digits (hd : AllDigits digits) (hr : ∀ c ∈ rest.head?, c.isDigit = false) :
    (digits ++ rest).takeWhile Char.isDigit = digits ∧ (digits ++ rest).dropWhile Char.isDigit = rest := by
  have hstop : rest.takeWhile Char.isDigit = [] ∧ rest.dropWhile Char.isDigit = rest := by
    cases rest with
    | nil => exact ⟨rfl, rfl⟩
    | cons c rest =>
      have hc := hr c rfl
      simp [hc]
  rw [List.takeWhile_append_of_pos hd, List.dropWhile_append_of_pos hd, hstop.1, List.append_nil]
  exact ⟨rfl, hstop.2⟩

theorem readSign_chars {negative : Bool} (hd : AllDigits digits) (hne : digits ≠ []) :
    readSign ((if negative then ['-'] else []) ++ (digits ++ rest)) = (negative, digits ++ rest) := by
  cases negative with
  | true => rfl
  | false =>
    cases digits with
    | nil => exact absurd rfl hne
    | cons c digits =>
      have hc : c ≠ '-' := by
        rintro rfl
        exact absurd (hd _ List.mem_cons_self) (by decide)
      simp [readSign, hc]

theorem readWhole_chars (hd : AllDigits digits) (hne : digits ≠ []) (hlead : digits.head? = some '0' → digits = ['0'])
    (hr : ∀ c ∈ rest.head?, c.isDigit = false) : readWhole (digits ++ rest) = some (digits, rest) := by
  obtain ⟨htake, hdrop⟩ := span_digits hd hr
  have hwhole : ¬ (digits = [] ∨ (digits.head? = some '0' ∧ digits ≠ ['0'])) := by
    rintro (hnil | ⟨hhead, hother⟩)
    · exact hne hnil
    · exact hother (hlead hhead)
  rw [readWhole]
  simp only [htake, hdrop]
  rw [if_neg hwhole]

theorem readFraction_chars (hd : AllDigits digits) (hr : ∀ c ∈ rest.head?, c.isDigit = false ∧ c ≠ '.') :
    readFraction (Numeral.fractionChars digits ++ rest) = some (digits, rest) := by
  cases digits with
  | nil =>
    cases rest with
    | nil => rfl
    | cons c rest => simp [Numeral.fractionChars, readFraction, (hr c rfl).2]
  | cons c digits =>
    obtain ⟨htake, hdrop⟩ := span_digits hd fun c hc => (hr c hc).1
    rw [Numeral.fractionChars, List.cons_append, readFraction]
    · simp only [htake, hdrop]
      rw [if_neg (List.cons_ne_nil c digits)]
    · exact List.cons_ne_nil c digits

theorem readPower_chars {power : Option (Bool × List Char)} (hp : ∀ p ∈ power, AllDigits p.2 ∧ p.2 ≠ [])
    (hr : Delimited rest) : readPower (Numeral.powerChars power ++ rest) = some (power, rest) := by
  cases power with
  | none =>
    cases rest with
    | nil => rfl
    | cons c rest =>
      have hc := hr c rfl
      simp only [isNumeralChar, Bool.or_eq_false_iff, decide_eq_false_iff_not] at hc
      rw [Numeral.powerChars, List.nil_append, readPower, if_neg (by simp [hc])]
  | some p =>
    obtain ⟨negative, digits⟩ := p
    obtain ⟨hdigits, hne⟩ := hp _ rfl
    have hend : ∀ c ∈ rest.head?, c.isDigit = false := fun c hc => by
      have hchar := hr c hc
      simp only [isNumeralChar, Bool.or_eq_false_iff] at hchar
      exact hchar.1.1.1
    obtain ⟨htake, hdrop⟩ := span_digits hdigits hend
    have hsign : readPowerSign ((if negative then '-' else '+') :: (digits ++ rest)) = (negative, digits ++ rest) := by
      cases negative <;> rfl
    rw [Numeral.powerChars, List.cons_append, List.cons_append, readPower, if_pos (.inl rfl)]
    simp only [hsign, htake, hdrop]
    rw [if_neg hne]

end Reading

namespace Numeral

variable {n : Numeral} {rest : List Char}

/-- What stands behind the fraction does not belong to it. -/
theorem head_powerChars (power : Option (Bool × List Char)) (hr : Delimited rest) :
    ∀ c ∈ (powerChars power ++ rest).head?, c.isDigit = false ∧ c ≠ '.' := by
  intro c hc
  cases power with
  | none =>
    have hchar := hr c hc
    simp only [isNumeralChar, Bool.or_eq_false_iff, decide_eq_false_iff_not] at hchar
    exact ⟨hchar.1.1.1, hchar.1.1.2⟩
  | some p =>
    cases hc
    decide

/-- A numeral that is well-formed is read as it is written. -/
theorem WellFormed.readNumeral (h : n.WellFormed) (hr : Delimited rest) :
    readNumeral (n.chars ++ rest) = some (n, rest) := by
  have hpower := head_powerChars n.power hr
  have hfraction : ∀ c ∈ (fractionChars n.fraction ++ (powerChars n.power ++ rest)).head?, c.isDigit = false := by
    intro c hc
    cases hf : n.fraction with
    | nil =>
      rw [hf] at hc
      exact (hpower c hc).1
    | cons d ds =>
      rw [hf] at hc
      cases hc
      decide
  have htext : n.chars ++ rest = (if n.negative then ['-'] else []) ++
      (n.whole ++ (fractionChars n.fraction ++ (powerChars n.power ++ rest))) := by
    simp only [chars, List.append_assoc]
  rw [htext, Json.readNumeral, readSign_chars h.whole h.nonempty]
  simp only [Option.bind_eq_bind, Option.bind_some, readWhole_chars h.whole h.nonempty h.leading hfraction,
    readFraction_chars h.fraction hpower, readPower_chars h.power hr]
  rfl

theorem WellFormed.head (h : n.WellFormed) : ∃ c cs, n.chars = c :: cs ∧ (c = '-' ∨ c.isDigit = true) := by
  rw [chars]
  cases n.negative with
  | true => exact ⟨_, _, rfl, .inl rfl⟩
  | false =>
    cases hw : n.whole with
    | nil => exact absurd hw h.nonempty
    | cons c cs => exact ⟨c, _, rfl, .inr (h.whole c (by simp [hw]))⟩

/-- The numeral of a whole number. -/
def ofInt (n : Int) : Numeral :=
  ⟨n < 0, Nat.toDigits 10 n.natAbs, [], none⟩

theorem chars_ofInt (n : Int) : (toString n).toList = (ofInt n).chars := by
  cases n with
  | ofNat n =>
    have htext : toString (Int.ofNat n) = String.ofList (Nat.toDigits 10 n) := Nat.toString_eq_ofList_toDigits
    have hsign : decide (Int.ofNat n < 0) = false := decide_eq_false (Int.not_lt.2 (Int.natCast_nonneg n))
    rw [htext, String.toList_ofList, chars, ofInt, hsign]
    simp [fractionChars, powerChars]
  | negSucc n =>
    have htext : toString (Int.negSucc n) = "-" ++ String.ofList (Nat.toDigits 10 (n + 1)) :=
      congrArg ("-" ++ ·) Nat.toString_eq_ofList_toDigits
    rw [htext, String.toList_append, String.toList_ofList, chars, ofInt, decide_eq_true (Int.negSucc_lt_zero n)]
    simp [fractionChars, powerChars]

theorem wellFormed_ofInt (n : Int) : (ofInt n).WellFormed where
  whole := allDigits_toDigits _
  nonempty := Nat.toDigits_ne_nil
  leading h := by
    have hzero : n.natAbs = 0 := head_toDigits h
    simp [ofInt, hzero]
  fraction := fun _ hc => absurd hc List.not_mem_nil
  power := fun _ hp => by cases hp

/-- A whole number that fits 64 bits is what its numeral stands for. -/
theorem toJson_ofInt {n : Int} (hlow : -UInt64.size ≤ 2 * n) (hhigh : n < UInt64.size) :
    (ofInt n).toJson = .int n := by
  have hvalue : digitsValue (ofInt n).whole = n.natAbs := digitsValue_toDigits _
  rw [toJson, hvalue]
  by_cases hneg : n < 0
  · have hsign : (ofInt n).negative = true := decide_eq_true hneg
    have hfits : 0 < n.natAbs ∧ 2 * n.natAbs ≤ UInt64.size := by omega
    rw [if_pos ⟨rfl, rfl, by rwa [if_pos hsign]⟩, if_pos hsign]
    exact congrArg int (by omega)
  · have hsign : ¬ (ofInt n).negative = true := fun he => hneg (of_decide_eq_true he)
    have hfits : n.natAbs < UInt64.size := by omega
    rw [if_pos ⟨rfl, rfl, by rwa [if_neg hsign]⟩, if_neg hsign]
    exact congrArg int (by omega)

end Numeral

end Json

namespace Double

variable {x : Double} {place : Int} {count digits : Nat}

/-- A number that is not zero lies nearer to zero than to no other. -/
theorem roundsTo_zero (h : x.mantissa ≠ 0) : x.roundsTo 0 place = false := by
  have hlow : 0 < x.bounds.1 * Nat.pow 10 (-place).toNat := by
    refine Nat.mul_pos (Nat.mul_pos ?_ (Nat.pow_pos (by decide))) (Nat.pow_pos (by decide))
    split <;> omega
  unfold roundsTo
  simp only [Nat.mul_zero, Nat.zero_mul]
  split
  · simp only [Bool.and_eq_false_iff, decide_eq_false_iff_not]
    omega
  · simp only [Bool.and_eq_false_iff, decide_eq_false_iff_not]
    omega

theorem roundsTo_of_withDigits (h : x.withDigits count = some (digits, place)) : x.roundsTo digits place = true := by
  unfold withDigits at h
  extract_lets at h
  split_ifs at h with hnearest hother
  · obtain ⟨rfl, rfl⟩ := Prod.mk.inj (Option.some.inj h)
    exact hnearest
  · obtain ⟨rfl, rfl⟩ := Prod.mk.inj (Option.some.inj h)
    exact hother

theorem shortestDigits_ne_zero (h : x.mantissa ≠ 0) : x.shortestDigits.1 ≠ 0 := by
  unfold shortestDigits
  cases hfound : (List.range' 1 17).findSome? x.withDigits with
  | none => exact h
  | some found =>
    obtain ⟨digits, place⟩ := found
    obtain ⟨count, -, hcount⟩ := List.exists_of_findSome?_eq_some hfound
    have hrounds := roundsTo_of_withDigits hcount
    rintro hzero
    rw [Option.getD_some] at hzero
    cases hzero
    rw [roundsTo_zero h] at hrounds
    cases hrounds

/-- The digits of a number start with a zero only for zero itself. -/
theorem digits_decimalForm (x : Double) : AllDigits x.decimalForm.1 ∧ x.decimalForm.1 ≠ [] ∧
    (x.decimalForm.1.head? = some '0' → x.decimalForm = (['0'], 1)) := by
  unfold decimalForm
  split
  · exact ⟨allDigits_replicate_zero 1, List.cons_ne_nil _ _, fun _ => rfl⟩
  · rename_i hmantissa
    have hne := shortestDigits_ne_zero hmantissa
    dsimp only
    have hfront := List.rdropWhile_prefix (· = '0') (Nat.toDigits 10 x.shortestDigits.1)
    have hsome : List.rdropWhile (· = '0') (Nat.toDigits 10 x.shortestDigits.1) ≠ [] := by
      rw [Ne, List.rdropWhile_eq_nil_iff]
      intro hzeros
      cases hd : Nat.toDigits 10 x.shortestDigits.1 with
      | nil => exact Nat.toDigits_ne_nil hd
      | cons c cs =>
        have hc : c = '0' := by simpa using hzeros c (by simp [hd])
        exact hne (head_toDigits (by rw [hd, hc, List.head?_cons]))
    refine ⟨fun c hc => allDigits_toDigits _ c (hfront.subset hc), hsome, fun hhead => ?_⟩
    obtain ⟨zeros, hall⟩ := hfront
    refine absurd (head_toDigits ?_) hne
    rw [← hall, List.head?_append_of_ne_nil _ hsome]
    exact hhead

/-- The numeral of a number: positional or with an exponent. -/
def numeral (x : Double) : Json.Numeral :=
  let (digits, point) := x.decimalForm
  if 0 < point ∧ point ≤ 16 then
    if (digits.length : Int) ≤ point then
      ⟨x.negative, digits ++ List.replicate (point - digits.length).toNat '0', ['0'], none⟩
    else ⟨x.negative, digits.take point.toNat, digits.drop point.toNat, none⟩
  else if -5 < point ∧ point ≤ 0 then ⟨x.negative, ['0'], List.replicate (-point).toNat '0' ++ digits, none⟩
  else ⟨x.negative, digits.take 1, digits.drop 1, some (point - 1 < 0, Nat.toDigits 10 (point - 1).natAbs)⟩

theorem chars_numeral (x : Double) : x.render.toList = x.numeral.chars := by
  have hsign : ∀ body : List Char, (if x.negative then '-' :: body else body) =
      (if x.negative then ['-'] else []) ++ body := by
    intro body
    cases x.negative <;> rfl
  have hchars : ∀ whole fraction power, Json.Numeral.chars ⟨x.negative, whole, fraction, power⟩ =
      (if x.negative then ['-'] else []) ++
        (whole ++ (Json.Numeral.fractionChars fraction ++ Json.Numeral.powerChars power)) := fun _ _ _ => rfl
  obtain ⟨-, hne, -⟩ := digits_decimalForm x
  unfold render numeral
  generalize x.decimalForm = form at hne ⊢
  obtain ⟨digits, point⟩ := form
  dsimp only at hne ⊢
  rw [String.toList_ofList, hsign]
  by_cases hpositional : 0 < point ∧ point ≤ 16
  · rw [if_pos hpositional, if_pos hpositional]
    by_cases hwhole : (digits.length : Int) ≤ point
    · rw [if_pos hwhole, if_pos hwhole, hchars]
      simp [Json.Numeral.fractionChars, Json.Numeral.powerChars]
    · have hrest : digits.drop point.toNat ≠ [] := by
        rw [Ne, List.drop_eq_nil_iff]
        omega
      rw [if_neg hwhole, if_neg hwhole, hchars, Json.Numeral.fractionChars_of_ne_nil hrest]
      simp [Json.Numeral.powerChars]
  · rw [if_neg hpositional, if_neg hpositional]
    by_cases hsmall : -5 < point ∧ point ≤ 0
    · have hrest : List.replicate (-point).toNat '0' ++ digits ≠ [] := List.append_ne_nil_of_right_ne_nil _ hne
      rw [if_pos hsmall, if_pos hsmall, hchars, Json.Numeral.fractionChars_of_ne_nil hrest]
      simp [Json.Numeral.powerChars]
    · have hfraction : (if digits.length ≤ 1 then [] else '.' :: digits.drop 1) =
          Json.Numeral.fractionChars (digits.drop 1) := by
        split
        · rw [List.drop_eq_nil_of_le ‹_›]
          rfl
        · exact (Json.Numeral.fractionChars_of_ne_nil (by rw [Ne, List.drop_eq_nil_iff]; assumption)).symm
      rw [if_neg hsmall, if_neg hsmall, hchars, hfraction]
      simp [Json.Numeral.powerChars]

theorem wellFormed_numeral (x : Double) : x.numeral.WellFormed := by
  obtain ⟨hdigits, hne, hlead⟩ := digits_decimalForm x
  have hzero : AllDigits ['0'] := allDigits_replicate_zero 1
  unfold numeral
  generalize x.decimalForm = form at hdigits hne hlead ⊢
  obtain ⟨digits, point⟩ := form
  dsimp only at hdigits hne hlead ⊢
  -- The first of the digits is that of the whole part, and is a zero only where the number is zero.
  have htake : ∀ n, n ≠ 0 → digits.take n ≠ [] ∧ ((digits.take n).head? = some '0' → digits.take n = ['0']) := by
    intro n hn
    refine ⟨by simp [hn, hne], fun hhead => ?_⟩
    rw [List.head?_take, if_neg hn] at hhead
    cases hlead hhead
    exact List.take_of_length_le (Nat.one_le_iff_ne_zero.2 hn)
  split_ifs with hpositional hwhole hsmall
  · refine ⟨hdigits.append (allDigits_replicate_zero _), List.append_ne_nil_of_left_ne_nil hne _, ?_, hzero, by simp⟩
    intro hhead
    rw [List.head?_append_of_ne_nil _ hne] at hhead
    cases hlead hhead
    rfl
  · obtain ⟨hsome, hfirst⟩ := htake point.toNat (by omega)
    exact ⟨hdigits.take _, hsome, hfirst, hdigits.drop _, by simp⟩
  · exact ⟨hzero, by simp, fun _ => rfl, (allDigits_replicate_zero _).append hdigits, by simp⟩
  · obtain ⟨hsome, hfirst⟩ := htake 1 Nat.one_ne_zero
    refine ⟨hdigits.take _, hsome, hfirst, hdigits.drop _, ?_⟩
    rintro _ ⟨⟩
    exact ⟨allDigits_toDigits _, Nat.toDigits_ne_nil⟩

end Double

end TableApi
