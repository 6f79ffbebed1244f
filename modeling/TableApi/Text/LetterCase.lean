import TableApi.Text.CaseTable

/-! Upper and lower case by the full mappings of the Unicode standard. Within ASCII these are the
mappings of `Char`. A capital sigma that ends a word becomes the final small sigma. -/
namespace TableApi.Text

def mapCase (runs : List CaseRun) (expansions : List (Nat × List Nat)) (code : Nat) : List Nat :=
  match expansions.lookup code with
  | some codes => codes
  | none =>
    match runs.find? (·.covers code) with
    | some run => [run.apply code]
    | none => [code]

def upperChar (c : Char) : List Char :=
  if c.toNat < 128 then [c.toUpper]
  else (mapCase upperRuns upperExpansions c.toNat).map Char.ofNat

/-- The lowercase of a character that has no regard to its neighbours. -/
def lowerChar (c : Char) : List Char :=
  if c.toNat < 128 then [c.toLower]
  else (mapCase lowerRuns lowerExpansions c.toNat).map Char.ofNat

def isCased (c : Char) : Bool :=
  casedRanges.any (·.contains c.toNat)

def isCaseIgnorable (c : Char) : Bool :=
  caseIgnorableRanges.any (·.contains c.toNat)

/-- Whether the first character that is not looked past is a letter with case. -/
def startsCased (cs : List Char) : Bool :=
  match cs.dropWhile isCaseIgnorable with
  | [] => false
  | c :: _ => isCased c

/-- A sigma is final when a letter stands before it and none after it. -/
def lowerSigma (before after : List Char) : Char :=
  if startsCased before && !startsCased after then 'ς' else 'σ'

/-- Lowercase of what follows `before`, which is kept in reverse. -/
def lowerAfter (before : List Char) : List Char → List Char
  | [] => []
  | c :: cs =>
    (if c = 'Σ' then [lowerSigma before cs] else lowerChar c) ++ lowerAfter (c :: before) cs

def lower (cs : List Char) : List Char :=
  lowerAfter [] cs

/-- The first character in upper case, the others as they are. -/
def capitalizeChars : List Char → List Char
  | [] => []
  | c :: cs => upperChar c ++ cs

def capitalize (s : String) : String :=
  String.ofList (capitalizeChars s.toList)

theorem upperChar_ascii {c : Char} (h : c.toNat < 128) : upperChar c = [c.toUpper] := by
  simp [upperChar, h]

theorem lowerChar_ascii {c : Char} (h : c.toNat < 128) : lowerChar c = [c.toLower] := by
  simp [lowerChar, h]

theorem lowerAfter_ascii (before : List Char) {cs : List Char} (h : ∀ c ∈ cs, c.toNat < 128) :
    lowerAfter before cs = cs.map Char.toLower := by
  induction cs generalizing before with
  | nil => rfl
  | cons c cs ih =>
    have hc : c.toNat < 128 := h c (by simp)
    have hs : c ≠ 'Σ' := by rintro rfl; exact absurd hc (by decide)
    simp [lowerAfter, hs, lowerChar_ascii hc, ih _ fun d hd => h d (by simp [hd])]

theorem lower_ascii {cs : List Char} (h : ∀ c ∈ cs, c.toNat < 128) : lower cs = cs.map Char.toLower :=
  lowerAfter_ascii [] h

/-- Equal but for the case of ASCII letters. -/
def sameButAsciiCase (s t : String) : Bool :=
  s.toList.map Char.toLower == t.toList.map Char.toLower

end TableApi.Text
