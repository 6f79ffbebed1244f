/-! Cutting a text at a separator. -/
namespace TableApi.Text

/-- The parts between separators; there is always a first. -/
def split (separator : Char) : List Char → List Char × List (List Char)
  | [] => ([], [])
  | c :: cs =>
    let (first, later) := split separator cs
    if c = separator then ([], first :: later) else (c :: first, later)

/-- What stands before and behind the first separator, if there is one. -/
def splitOnce (separator : Char) : List Char → List Char × Option (List Char)
  | [] => ([], none)
  | c :: cs =>
    if c = separator then ([], some cs)
    else
      let (before, behind) := splitOnce separator cs
      (c :: before, behind)

/-- Whether one text stands somewhere in another. -/
def hasInside (part : List Char) : List Char → Bool
  | [] => part.isEmpty
  | c :: cs => part.isPrefixOf (c :: cs) || hasInside part cs

theorem hasInside_iff (part cs : List Char) : hasInside part cs = true ↔ part <:+: cs := by
  induction cs with
  | nil => simp [hasInside]
  | cons c cs ih => simp [hasInside, ih, List.infix_cons_iff]

end TableApi.Text
