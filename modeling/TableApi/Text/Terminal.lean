/-! Text for an output that is no terminal: escape sequences and control characters are left out. -/
namespace TableApi.Text

/-- How much of an escape sequence was read. -/
inductive EscapeState where
  | outside
  /-- Behind the escape character and characters that go between. -/
  | started
  /-- In a control sequence, which ends with a letter or a sign of that row. -/
  | control
  /-- In a text for the terminal, which ends with a bell. -/
  | message
  /-- In a text for the terminal that only another escape ends. -/
  | passage
  deriving DecidableEq, Repr

def isPrinted (c : Char) : Bool :=
  (0x20 ≤ c.toNat && c.toNat ≠ 0x7F) || c = '\t' || c = '\n' || c = '\r' || c = '\x0c'

def EscapeState.next (state : EscapeState) (c : Char) : EscapeState :=
  if c = '\x1b' then .started
  else if c = '\x18' ∨ c = '\x1a' then .outside
  else
    match state with
    | .outside => .outside
    | .started =>
      if c = '[' then .control
      else if c = ']' then .message
      else if c = 'P' ∨ c = 'X' ∨ c = '^' ∨ c = '_' then .passage
      else if 0x30 ≤ c.toNat ∧ c.toNat ≤ 0x7E then .outside
      else .started
    | .control => if 0x40 ≤ c.toNat ∧ c.toNat ≤ 0x7E then .outside else .control
    | .message => if c = '\x07' then .outside else .message
    | .passage => .passage

def withoutEscapesFrom (state : EscapeState) : List Char → List Char
  | [] => []
  | c :: cs =>
    let rest := withoutEscapesFrom (state.next c) cs
    if state = .outside ∧ isPrinted c then c :: rest else rest

def withoutEscapes (text : String) : String :=
  String.ofList (withoutEscapesFrom .outside text.toList)

end TableApi.Text
