import TableApi.Double.Basic

/-! Values of JSON documents. An object is the list of its members as they are written, with
repetitions. -/
namespace TableApi

inductive Json where
  | null
  | bool (value : Bool)
  | int (value : Int)
  | double (value : Double)
  | string (value : String)
  | array (items : List Json)
  | object (members : List (String × Json))
  /-- A well-formed piece without a value: half a surrogate pair, a number past every double, or
  nesting past the limit. It may be skipped but not kept. -/
  | unreadable
  deriving Repr, Inhabited

namespace Json

mutual

def decEq : (a b : Json) → Decidable (a = b)
  | .null, .null => isTrue rfl
  | .unreadable, .unreadable => isTrue rfl
  | .bool a, .bool b => if h : a = b then isTrue (h ▸ rfl) else isFalse (by simpa using h)
  | .int a, .int b => if h : a = b then isTrue (h ▸ rfl) else isFalse (by simpa using h)
  | .double a, .double b => if h : a = b then isTrue (h ▸ rfl) else isFalse (by simpa using h)
  | .string a, .string b => if h : a = b then isTrue (h ▸ rfl) else isFalse (by simpa using h)
  | .array a, .array b =>
    match decEqItems a b with
    | isTrue h => isTrue (h ▸ rfl)
    | isFalse h => isFalse (by simpa using h)
  | .object a, .object b =>
    match decEqMembers a b with
    | isTrue h => isTrue (h ▸ rfl)
    | isFalse h => isFalse (by simpa using h)
  | .null, .bool _ | .null, .int _ | .null, .double _ | .null, .string _ | .null, .array _
  | .null, .object _ | .null, .unreadable => isFalse (by simp)
  | .bool _, .null | .bool _, .int _ | .bool _, .double _ | .bool _, .string _ | .bool _, .array _
  | .bool _, .object _ | .bool _, .unreadable => isFalse (by simp)
  | .int _, .null | .int _, .bool _ | .int _, .double _ | .int _, .string _ | .int _, .array _
  | .int _, .object _ | .int _, .unreadable => isFalse (by simp)
  | .double _, .null | .double _, .bool _ | .double _, .int _ | .double _, .string _
  | .double _, .array _ | .double _, .object _ | .double _, .unreadable => isFalse (by simp)
  | .string _, .null | .string _, .bool _ | .string _, .int _ | .string _, .double _
  | .string _, .array _ | .string _, .object _ | .string _, .unreadable => isFalse (by simp)
  | .array _, .null | .array _, .bool _ | .array _, .int _ | .array _, .double _
  | .array _, .string _ | .array _, .object _ | .array _, .unreadable => isFalse (by simp)
  | .object _, .null | .object _, .bool _ | .object _, .int _ | .object _, .double _
  | .object _, .string _ | .object _, .array _ | .object _, .unreadable => isFalse (by simp)
  | .unreadable, .null | .unreadable, .bool _ | .unreadable, .int _ | .unreadable, .double _
  | .unreadable, .string _ | .unreadable, .array _ | .unreadable, .object _ => isFalse (by simp)

def decEqItems : (a b : List Json) → Decidable (a = b)
  | [], [] => isTrue rfl
  | [], _ :: _ => isFalse (by simp)
  | _ :: _, [] => isFalse (by simp)
  | a :: as, b :: bs =>
    match decEq a b, decEqItems as bs with
    | isTrue h, isTrue hs => isTrue (by rw [h, hs])
    | isFalse h, _ => isFalse (by simp [h])
    | _, isFalse hs => isFalse (by simp [hs])

def decEqMembers : (a b : List (String × Json)) → Decidable (a = b)
  | [], [] => isTrue rfl
  | [], _ :: _ => isFalse (by simp)
  | _ :: _, [] => isFalse (by simp)
  | (m, a) :: as, (n, b) :: bs =>
    match decEq a b, decEqMembers as bs with
    | isTrue h, isTrue hs =>
      if hn : m = n then isTrue (by rw [hn, h, hs]) else isFalse (by simp [hn])
    | isFalse h, _ => isFalse (by simp [h])
    | _, isFalse hs => isFalse (by simp [hs])

end

instance : DecidableEq Json := decEq

mutual

/-- Whether the value can be kept: it holds no unreadable piece. -/
def readable : Json → Bool
  | .unreadable => false
  | .array items => readableItems items
  | .object members => readableMembers members
  | _ => true

def readableItems : List Json → Bool
  | [] => true
  | item :: items => item.readable && readableItems items

def readableMembers : List (String × Json) → Bool
  | [] => true
  | (_, value) :: members => value.readable && readableMembers members

end

end Json

end TableApi
