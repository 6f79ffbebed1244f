import TableApi.Json.Basic

/-! The words of a JSON text: punctuation, texts in quotes, and words that are values by themselves. -/
namespace TableApi.Json

inductive Token where
  | openArray | closeArray | openObject | closeObject | comma | colon
  /-- A text in quotes; none when it holds half a surrogate pair. -/
  | text (value : Option String)
  | scalar (value : Json)
  deriving DecidableEq, Repr

/-- What one position of a quoted text spells: a character or half a surrogate pair. -/
inductive Piece where
  | char (c : Char)
  | half (code : Nat)
  deriving DecidableEq, Repr

def isSpace (c : Char) : Bool :=
  c = ' ' || c = '\n' || c = '\t' || c = '\r'

def hexValue (c : Char) : Option Nat :=
  if '0' ≤ c ∧ c ≤ '9' then some (c.toNat - '0'.toNat)
  else if 'a' ≤ c ∧ c ≤ 'f' then some (c.toNat - 'a'.toNat + 10)
  else if 'A' ≤ c ∧ c ≤ 'F' then some (c.toNat - 'A'.toNat + 10)
  else none

def unitOfHex (a b c d : Char) : Option Piece := do
  let code := ((← hexValue a) * 16 + (← hexValue b)) * 256 + (← hexValue c) * 16 + (← hexValue d)
  return if 0xD800 ≤ code ∧ code ≤ 0xDFFF then .half code else .char (Char.ofNat code)

def escaped : Char → Option Piece
  | '"' => some (.char '"')
  | '\\' => some (.char '\\')
  | '/' => some (.char '/')
  | 'b' => some (.char '\x08')
  | 'f' => some (.char '\x0c')
  | 'n' => some (.char '\n')
  | 'r' => some (.char '\r')
  | 't' => some (.char '\t')
  | _ => none

/-- The pieces of a text up to its closing quote, and what follows. -/
def readPieces : List Char → Option (List Piece × List Char)
  | [] => none
  | '"' :: rest => some ([], rest)
  | '\\' :: 'u' :: a :: b :: c :: d :: rest => do
    let piece ← unitOfHex a b c d
    let (pieces, after) ← readPieces rest
    return (piece :: pieces, after)
  | '\\' :: c :: rest => do
    let piece ← escaped c
    let (pieces, after) ← readPieces rest
    return (piece :: pieces, after)
  | c :: rest =>
    if c.toNat < 0x20 || c = '\\' then none
    else do
      let (pieces, after) ← readPieces rest
      return (.char c :: pieces, after)

theorem readPieces_shorter {cs after : List Char} {pieces : List Piece}
    (h : readPieces cs = some (pieces, after)) : after.length < cs.length := by
  fun_induction readPieces cs generalizing pieces with
  | case1 => simp at h
  | case2 rest => simp at h; simp [← h.2]
  | case3 a b c d rest ih =>
    simp only [Option.bind_eq_bind, Option.bind_eq_some_iff, Option.pure_def, Option.some.injEq,
      Prod.mk.injEq, Prod.exists] at h
    obtain ⟨_, _, ps, af, hr, _, rfl⟩ := h
    have := ih hr
    simp only [List.length_cons]; omega
  | case4 c rest _ ih =>
    simp only [Option.bind_eq_bind, Option.bind_eq_some_iff, Option.pure_def, Option.some.injEq,
      Prod.mk.injEq, Prod.exists] at h
    obtain ⟨_, _, ps, af, hr, _, rfl⟩ := h
    have := ih hr
    simp only [List.length_cons]; omega
  | case5 => simp at h
  | case6 c rest _ _ _ _ ih =>
    simp only [Option.bind_eq_bind, Option.bind_eq_some_iff, Option.pure_def, Option.some.injEq,
      Prod.mk.injEq, Prod.exists] at h
    obtain ⟨ps, af, hr, _, rfl⟩ := h
    have := ih hr
    simp only [List.length_cons]; omega

/-- Joins each leading half with the trailing half behind it; none when a half stands alone. -/
def joinHalves : List Piece → Option (List Char)
  | [] => some []
  | .char c :: rest => (joinHalves rest).map (c :: ·)
  | .half a :: .half b :: rest =>
    if a < 0xDC00 ∧ 0xDC00 ≤ b then
      (joinHalves rest).map (Char.ofNat ((a - 0xD800) * 0x400 + (b - 0xDC00) + 0x10000) :: ·)
    else none
  | .half _ :: _ => none

/-- A number as it is written. -/
structure Numeral where
  negative : Bool
  whole : List Char
  fraction : List Char
  /-- Sign and digits of the exponent. -/
  power : Option (Bool × List Char)
  deriving DecidableEq, Repr

def digitsValue (digits : List Char) : Nat :=
  digits.foldl (fun n d => n * 10 + (d.toNat - '0'.toNat)) 0

/-- Appends digits to a significand as long as it stays below `2 ^ 64`; gives the digits left over. -/
def appendDigits (significand : Nat) : List Char → Nat × List Char
  | [] => (significand, [])
  | d :: rest =>
    let next := significand * 10 + (d.toNat - '0'.toNat)
    if next < UInt64.size then appendDigits next rest else (significand, d :: rest)

namespace Numeral

/-- Whole digits past the significand count as places, decimals past it are dropped. -/
def toDouble (n : Numeral) : Option Double := do
  let (significand, dropped) := appendDigits 0 n.whole
  let (significand, unused) := appendDigits significand n.fraction
  let places : Int := dropped.length - (n.fraction.length - unused.length : Nat)
  let power : Int := match n.power with
    | none => 0
    | some (true, digits) => -digitsValue digits
    | some (false, digits) => digitsValue digits
  let magnitude ← (← Double.ofNat significand).timesTenTo (places + power)
  return if n.negative then magnitude.neg else magnitude

/-- A whole number that fits 64 bits, with or without sign, stays one; minus zero does not. -/
def toJson (n : Numeral) : Json :=
  let value := digitsValue n.whole
  if n.fraction.isEmpty ∧ n.power.isNone ∧
      (if n.negative then 0 < value ∧ 2 * value ≤ UInt64.size else value < UInt64.size) then
    .int (if n.negative then -value else value)
  else
    match n.toDouble with
    | some x => .double x
    | none => .unreadable

end Numeral

def readSign : List Char → Bool × List Char
  | '-' :: rest => (true, rest)
  | cs => (false, cs)

def readWhole (cs : List Char) : Option (List Char × List Char) :=
  let digits := cs.takeWhile Char.isDigit
  let rest := cs.dropWhile Char.isDigit
  if digits = [] ∨ (digits.head? = some '0' ∧ digits ≠ ['0']) then none else some (digits, rest)

def readFraction : List Char → Option (List Char × List Char)
  | '.' :: cs =>
    let digits := cs.takeWhile Char.isDigit
    if digits = [] then none else some (digits, cs.dropWhile Char.isDigit)
  | cs => some ([], cs)

def readPowerSign : List Char → Bool × List Char
  | '-' :: rest => (true, rest)
  | '+' :: rest => (false, rest)
  | cs => (false, cs)

def readPower : List Char → Option (Option (Bool × List Char) × List Char)
  | [] => some (none, [])
  | c :: cs =>
    if c = 'e' ∨ c = 'E' then
      let (negative, cs) := readPowerSign cs
      let digits := cs.takeWhile Char.isDigit
      if digits = [] then none else some (some (negative, digits), cs.dropWhile Char.isDigit)
    else some (none, c :: cs)

def readNumeral (cs : List Char) : Option (Numeral × List Char) := do
  let (negative, cs) := readSign cs
  let (whole, cs) ← readWhole cs
  let (fraction, cs) ← readFraction cs
  let (power, cs) ← readPower cs
  return (⟨negative, whole, fraction, power⟩, cs)

theorem length_dropWhile_le (p : Char → Bool) (cs : List Char) :
    (cs.dropWhile p).length ≤ cs.length :=
  (List.dropWhile_sublist p).length_le

theorem readSign_length (cs : List Char) : (readSign cs).2.length ≤ cs.length := by
  unfold readSign; split <;> simp

theorem readWhole_shorter {cs digits rest : List Char} (h : readWhole cs = some (digits, rest)) :
    rest.length < cs.length := by
  simp only [readWhole] at h
  split at h
  · simp at h
  · rename_i hd
    simp only [Option.some.injEq, Prod.mk.injEq] at h
    have hn : cs.takeWhile Char.isDigit ≠ [] := fun e => hd (Or.inl e)
    have hl : cs.length = (cs.takeWhile Char.isDigit).length + (cs.dropWhile Char.isDigit).length := by
      rw [← List.length_append, List.takeWhile_append_dropWhile]
    have := List.length_pos_iff.2 hn
    rw [← h.2]; omega

theorem readFraction_length {cs digits rest : List Char} (h : readFraction cs = some (digits, rest)) :
    rest.length ≤ cs.length := by
  unfold readFraction at h
  split at h
  · simp only at h
    split at h
    · simp at h
    · simp only [Option.some.injEq, Prod.mk.injEq] at h
      have := length_dropWhile_le Char.isDigit ‹List Char›
      rw [← h.2, List.length_cons]; omega
  · simp at h; simp [h.2]

theorem readPowerSign_length (cs : List Char) : (readPowerSign cs).2.length ≤ cs.length := by
  unfold readPowerSign; split <;> simp

theorem readPower_length {cs rest : List Char} {power : Option (Bool × List Char)}
    (h : readPower cs = some (power, rest)) : rest.length ≤ cs.length := by
  unfold readPower at h
  split at h
  · simp at h; simp [h.2]
  · rename_i c cs
    split at h
    · simp only at h
      split at h
      · simp at h
      · simp only [Option.some.injEq, Prod.mk.injEq] at h
        have h₁ := length_dropWhile_le Char.isDigit (readPowerSign cs).2
        have h₂ := readPowerSign_length cs
        rw [← h.2, List.length_cons]; omega
    · simp at h; simp [← h.2]

theorem readNumeral_shorter {cs rest : List Char} {n : Numeral}
    (h : readNumeral cs = some (n, rest)) : rest.length < cs.length := by
  simp only [readNumeral, Option.bind_eq_bind, Option.bind_eq_some_iff, Option.pure_def,
    Option.some.injEq, Prod.mk.injEq, Prod.exists] at h
  obtain ⟨_, _, h₁, _, _, h₂, _, _, h₃, _, rfl⟩ := h
  have := readSign_length cs
  have := readWhole_shorter h₁
  have := readFraction_length h₂
  have := readPower_length h₃
  omega

/-- The first word of a text that does not start with space. -/
def readToken : List Char → Option (Token × List Char)
  | '[' :: rest => some (.openArray, rest)
  | ']' :: rest => some (.closeArray, rest)
  | '{' :: rest => some (.openObject, rest)
  | '}' :: rest => some (.closeObject, rest)
  | ',' :: rest => some (.comma, rest)
  | ':' :: rest => some (.colon, rest)
  | 'n' :: 'u' :: 'l' :: 'l' :: rest => some (.scalar .null, rest)
  | 't' :: 'r' :: 'u' :: 'e' :: rest => some (.scalar (.bool true), rest)
  | 'f' :: 'a' :: 'l' :: 's' :: 'e' :: rest => some (.scalar (.bool false), rest)
  | '"' :: rest =>
    (readPieces rest).map fun (pieces, after) => (.text ((joinHalves pieces).map String.ofList), after)
  | cs => (readNumeral cs).map fun (n, rest) => (.scalar n.toJson, rest)

theorem readToken_shorter {cs rest : List Char} {t : Token} (h : readToken cs = some (t, rest)) :
    rest.length < cs.length := by
  unfold readToken at h
  split at h
  case h_10 =>
    simp only [Option.map_eq_some_iff, Prod.mk.injEq, Prod.exists] at h
    obtain ⟨_, _, hr, _, rfl⟩ := h
    have := readPieces_shorter hr
    simp only [List.length_cons]; omega
  case h_11 =>
    simp only [Option.map_eq_some_iff, Prod.mk.injEq, Prod.exists] at h
    obtain ⟨_, _, hr, _, rfl⟩ := h
    exact readNumeral_shorter hr
  all_goals simp at h; simp only [← h.2, List.length_cons]; omega

/-- All words of a text; none when some part of it is no word. -/
def tokens (cs : List Char) : Option (List Token) :=
  match _spaceless : cs.dropWhile isSpace with
  | [] => some []
  | c :: rest =>
    match _first : readToken (c :: rest) with
    | none => none
    | some (t, after) => (tokens after).map (t :: ·)
termination_by cs.length
decreasing_by
  have := readToken_shorter _first
  have := length_dropWhile_le isSpace cs
  rw [_spaceless] at this
  omega

end TableApi.Json
