import TableApi.Proofs.JsonWords
import TableApi.Proofs.ReadableRequests

/-! What storage is asked for once the calls of a request have been replaced. Every request is a JSON object then, with
members in a fixed order; the names that are written into it stay within their quotes. -/
namespace TableApi

open Json (Token)

section Calls

/-- How calls begin that are replaced by values. -/
def calls : List String :=
  ["$util.dynamodb.toDynamoDBJson(", "$util.dynamodb.toMapValuesJson($input)"]

/-- The text with `null` for each call. Within a call the parentheses that are open are counted. -/
def nullCalls : Option Nat → List Char → List Char
  | _, [] => []
  | none, c :: cs =>
    if calls.any (·.toList.isPrefixOf (c :: cs)) then "null".toList ++ nullCalls (some 0) cs
    else c :: nullCalls none cs
  | some opened, c :: cs =>
    if c = '(' then nullCalls (some (opened + 1)) cs
    else if c = ')' then nullCalls (if opened ≤ 1 then none else some (opened - 1)) cs
    else nullCalls (some opened) cs

variable {text rest : List Char} {opened : Nat}

end Calls

section Pieces

/-- Characters that stand for themselves between quotes and call nothing. -/
def isQuotable (c : Char) : Bool :=
  Json.isPlain c && c ≠ '$'

def Quotable (text : String) : Prop :=
  text.toList.all isQuotable = true

instance (text : String) : Decidable (Quotable text) := by
  unfold Quotable
  infer_instance

variable {a b text name : String} {words more : List Token}

theorem quotable_iff : Quotable text ↔ ∀ c ∈ text.toList, isQuotable c = true :=
  List.all_eq_true

theorem Quotable.append (ha : Quotable a) (hb : Quotable b) : Quotable (a ++ b) := by
  rw [quotable_iff] at ha hb ⊢
  rw [String.toList_append]
  exact List.forall_mem_append.2 ⟨ha, hb⟩

/-- With its calls replaced the text has the words, and after them those of what follows it. -/
def Tells (text : String) (words : List Token) : Prop :=
  ∀ rest, Json.tokens (nullCalls none (text.toList ++ rest)) =
    (Json.tokens (nullCalls none rest)).map (words ++ ·)

theorem Tells.append (ha : Tells a words) (hb : Tells b more) : Tells (a ++ b) (words ++ more) := by
  intro rest
  rw [String.toList_append, List.append_assoc, ha, hb, Option.map_map]
  congr 1
  funext later
  exact (List.append_assoc _ _ _).symm

theorem Tells.congr (h : Tells text words) (hwords : words = more) : Tells text more :=
  hwords ▸ h

end Pieces

section Objects

open Json (words furtherMembers)

variable {α : Type} {write : α → String} {member : α → String × Json} {as : List α}

end Objects

section Documents

namespace KeyShape

/-- The addressed key, with a value for each of its attributes. -/
def document (shape : KeyShape) : Json :=
  .object (shape.assignments.map fun assignment => (assignment.name, .null))

end KeyShape

namespace KeyCondition

/-- The condition on the keys of these names, with a value for each of them. -/
def documentOf (names : List String) : Json :=
  .object [("expression", .string (String.intercalate " AND " (names.map renderEquality))),
    ("expressionNames", .object (names.map fun name => ("#" ++ name, .string name))),
    ("expressionValues", .object (names.map fun name => (":" ++ name, .null)))]

def document (condition : KeyCondition) : Json :=
  documentOf condition.keys

variable {condition : KeyCondition}

end KeyCondition

namespace RequestTemplate

/-- The members that stand behind the action. -/
def members : RequestTemplate → List (String × Json)
  | scan => []
  | getItem key | deleteItem key => [("key", key.document)]
  | query index condition => Json.memberIfSome "index" .string index ++ [("query", condition.document)]
  | putItem key projected => ("key", key.document) :: if projected then [("attributeValues", .null)] else []

/-- The request, with a value for each call. -/
def document (template : RequestTemplate) : Json :=
  .object (("version", .string "2017-02-28") :: ("operation", .string template.action.word) :: template.members)

end RequestTemplate

end Documents

section Bindings

namespace Candidate

variable {table : Table} {o : Operation}

end Candidate

end Bindings

end TableApi
