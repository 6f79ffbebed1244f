import TableApi.Json.Basic
import TableApi.OrderedMap

/-! Reading domain values off JSON values: plain values, lists, records with known members, and the
choice among named constants. -/
namespace TableApi.Json

def string? : Json → Option String
  | .string s => some s
  | _ => none

def bool? : Json → Option Bool
  | .bool b => some b
  | _ => none

/-- A whole number that fits 32 bits without sign. -/
def word32? : Json → Option UInt32
  | .int n => if 0 ≤ n ∧ n < UInt32.size then some (UInt32.ofNat n.toNat) else none
  | _ => none

def list? (read : Json → Option α) : Json → Option (List α)
  | .array items => items.mapM read
  | _ => none

/-- An object as a map from the names of its members. -/
def map? (read : Json → Option α) : Json → Option (OrderedMap α)
  | .object members =>
    (members.mapM fun member => (read member.2).map (member.1, ·)).map OrderedMap.ofList
  | _ => none

/-- One of several named constants: its name, or an object that gives the name the value null. -/
def constant? : Json → Option String
  | .string s => some s
  | .object [(name, .null)] => some name
  | _ => none

/-- Reads only what can be kept as a whole, members without a meaning included. -/
def keeping (read : Json → Option α) (value : Json) : Option α :=
  if value.readable then read value else none

/-- The values given for the members of a record, each member with all its spellings. A record is an
object, in which members without a meaning are passed over and none may be given twice, or an array
of the members in order, which may end early. -/
def slots (spellings : List (List String)) : Json → Option (List (Option Json))
  | .object members => spellings.mapM fun names =>
    match members.filter (names.contains ·.1) with
    | [] => some none
    | [member] => some (some member.2)
    | _ => none
  | .array items =>
    if items.length ≤ spellings.length then
      some (items.map some ++ List.replicate (spellings.length - items.length) none)
    else none
  | _ => none

def required (read : Json → Option α) : Option Json → Option α
  | some value => read value
  | none => none

/-- A member that may be missing or null. -/
def optional (read : Json → Option α) : Option Json → Option (Option α)
  | none | some .null => some none
  | some value => (read value).map some

/-- A member that may be missing, but not null. -/
def defaulted (default : α) (read : Json → Option α) : Option Json → Option α
  | none => some default
  | some value => read value

/-- A member that is written only when there is a value. -/
def memberIfSome (name : String) (write : α → Json) : Option α → List (String × Json)
  | none => []
  | some value => [(name, write value)]

def ofOption (write : α → Json) : Option α → Json
  | none => .null
  | some value => write value

def ofStrings (strings : List String) : Json :=
  .array (strings.map .string)

theorem list?_ofStrings (strings : List String) : (ofStrings strings).list? string? = some strings := by
  induction strings with
  | nil => rfl
  | cons s rest ih =>
    simp only [ofStrings, list?] at ih
    simp [ofStrings, list?, string?, ih]

def ofWord32 (n : UInt32) : Json :=
  .int n.toNat

theorem word32?_ofWord32 (n : UInt32) : (ofWord32 n).word32? = some n := by
  have h : 0 ≤ (n.toNat : Int) ∧ (n.toNat : Int) < UInt32.size :=
    ⟨by omega, by exact_mod_cast n.toNat_lt_size⟩
  rw [ofWord32, word32?, if_pos h, Int.toNat_natCast, UInt32.ofNat_toNat]

end TableApi.Json
