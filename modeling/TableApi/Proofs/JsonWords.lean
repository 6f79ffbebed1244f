import Mathlib.Data.List.Basic
import TableApi.Json.Reader

/-! How a value is read from its words. The words of a value stand for it wherever it is nested, and no value that is
not nested too deep is read as another. -/
namespace TableApi.Json

section Words

mutual

def words : Json → List Token
  | .string text => [.text (some text)]
  | .unreadable => [.text none]
  | .array [] => [.openArray, .closeArray]
  | .array (item :: items) => .openArray :: item.words ++ (furtherItems items ++ [.closeArray])
  | .object [] => [.openObject, .closeObject]
  | .object ((name, value) :: members) =>
    .openObject :: .text (some name) :: .colon :: value.words ++ (furtherMembers members ++ [.closeObject])
  | value => [.scalar value]

/-- The words of items that stand behind another. -/
def furtherItems : List Json → List Token
  | [] => []
  | item :: items => .comma :: item.words ++ furtherItems items

/-- The words of members that stand behind another. -/
def furtherMembers : List (String × Json) → List Token
  | [] => []
  | (name, value) :: members =>
    .comma :: .text (some name) :: .colon :: value.words ++ furtherMembers members

end

mutual

/-- How deep containers are nested in the value. -/
def depth : Json → Nat
  | .array items => depthOfItems items + 1
  | .object members => depthOfMembers members + 1
  | _ => 0

def depthOfItems : List Json → Nat
  | [] => 0
  | item :: items => max item.depth (depthOfItems items)

def depthOfMembers : List (String × Json) → Nat
  | [] => 0
  | (_, value) :: members => max value.depth (depthOfMembers members)

end

theorem depthOfMembers_le {bound : Nat} {members : List (String × Json)}
    (h : ∀ member ∈ members, member.2.depth ≤ bound) : depthOfMembers members ≤ bound := by
  induction members with
  | nil => exact Nat.zero_le _
  | cons member members ih =>
    rw [List.forall_mem_cons] at h
    exact Nat.max_le.2 ⟨h.1, ih h.2⟩

end Words

section Reading

variable {level : Nat} {outer : List Container}

/-- An array in so many containers, as it is read. -/
def arrayAt (level : Nat) (items : List Json) : Json :=
  if level < maxDepth then .array items else .unreadable

/-- An object in so many containers, as it is read. -/
def objectAt (level : Nat) (members : List (String × Json)) : Json :=
  if level < maxDepth then .object members else .unreadable

/-- A member with a name that can be read. -/
def given (member : String × Json) : ReadMember :=
  (some member.1, member.2)

theorem closeItems_reverse (items : List Json) : closeItems outer items.reverse = arrayAt outer.length items := by
  rw [closeItems, arrayAt, List.reverse_reverse]

theorem closeMembers_reverse (members : List (String × Json)) :
    closeMembers outer (members.map given).reverse = objectAt outer.length members := by
  have hall : (members.map given).mapM (fun member => member.1.map (·, member.2)) = some members := by
    induction members with
    | nil => rfl
    | cons member members ih => simp [given, ih]
  rw [closeMembers, objectAt, List.reverse_reverse, hall]

/-- Words that are taken in as a value wherever one is expected within so many containers. -/
def Reads (level : Nat) (words : List Token) (value : Json) : Prop :=
  ∀ (outer : List Container) (mayClose : Bool), outer.length = level →
    words.foldlM step (.value outer mayClose) = some (.continuation outer value)

/-- The words of items with commas between them. -/
def separated : List (List Token) → List Token
  | [] => []
  | first :: others => first ++ others.flatMap (Token.comma :: ·)

theorem read_more_items {texts : List (List Token)} {items : List Json}
    (h : List.Forall₂ (Reads (outer.length + 1)) texts items) (read : List Json) (last : Json) :
    (texts.flatMap (Token.comma :: ·) ++ [Token.closeArray]).foldlM step (.continuation (.items read :: outer) last) =
      some (.continuation outer (closeItems outer (items.reverse ++ last :: read))) := by
  induction h generalizing read last with
  | nil => rfl
  | @cons text item texts items hitem _ ih =>
    rw [List.flatMap_cons, List.append_assoc]
    change (text ++ (texts.flatMap (Token.comma :: ·) ++ [Token.closeArray])).foldlM step
      (.value (.items (last :: read) :: outer) false) = _
    rw [List.foldlM_append, hitem _ false rfl, List.reverse_cons, List.append_assoc]
    exact ih (last :: read) item

theorem reads_array {texts : List (List Token)} {items : List Json}
    (h : List.Forall₂ (Reads (level + 1)) texts items) :
    Reads level (.openArray :: separated texts ++ [.closeArray]) (arrayAt level items) := by
  rintro outer mayClose rfl
  rw [← closeItems_reverse]
  cases h with
  | nil => rfl
  | @cons text item texts items hitem hitems =>
    rw [separated, List.cons_append, List.append_assoc, List.reverse_cons]
    change (text ++ (texts.flatMap (Token.comma :: ·) ++ [Token.closeArray])).foldlM step
      (.value (.items [] :: outer) true) = _
    rw [List.foldlM_append, hitem _ true rfl]
    exact read_more_items hitems [] item

/-- The words of a member, from those of its value. -/
def memberWords (member : String × List Token) : List Token :=
  .text (some member.1) :: .colon :: member.2

def ReadsMember (level : Nat) (text : String × List Token) (member : String × Json) : Prop :=
  text.1 = member.1 ∧ Reads level text.2 member.2

theorem read_member {text : String × List Token} {member : String × Json} {read : List ReadMember} {mayClose : Bool}
    (h : ReadsMember (outer.length + 1) text member) :
    (memberWords text).foldlM step (.name outer read mayClose) =
      some (.continuation (.members read (some member.1) :: outer) member.2) := by
  rw [← h.1]
  exact h.2 (.members read (some text.1) :: outer) false rfl

theorem read_more_members {texts : List (String × List Token)} {members : List (String × Json)}
    (h : List.Forall₂ (ReadsMember (outer.length + 1)) texts members) (read : List ReadMember)
    (last : String × Json) :
    ((texts.map memberWords).flatMap (Token.comma :: ·) ++ [Token.closeObject]).foldlM step
      (.continuation (.members read (some last.1) :: outer) last.2) =
        some (.continuation outer (closeMembers outer ((members.map given).reverse ++ given last :: read))) := by
  induction h generalizing read last with
  | nil => rfl
  | @cons text member texts members hmember _ ih =>
    rw [List.map_cons, List.flatMap_cons, List.append_assoc]
    change (memberWords text ++ ((texts.map memberWords).flatMap (Token.comma :: ·) ++ [Token.closeObject])).foldlM
      step (.name outer (given last :: read) false) = _
    rw [List.foldlM_append, read_member hmember, List.map_cons, List.reverse_cons, List.append_assoc]
    exact ih (given last :: read) member

theorem reads_object {texts : List (String × List Token)} {members : List (String × Json)}
    (h : List.Forall₂ (ReadsMember (level + 1)) texts members) :
    Reads level (.openObject :: separated (texts.map memberWords) ++ [.closeObject]) (objectAt level members) := by
  rintro outer mayClose rfl
  rw [← closeMembers_reverse]
  cases h with
  | nil => rfl
  | @cons text member texts members hmember hmembers =>
    rw [List.map_cons, separated, List.cons_append, List.append_assoc, List.map_cons, List.reverse_cons]
    change (memberWords text ++ ((texts.map memberWords).flatMap (Token.comma :: ·) ++ [Token.closeObject])).foldlM
      step (.name outer [] true) = _
    rw [List.foldlM_append, read_member hmember]
    exact read_more_members hmembers [] member

theorem furtherItems_eq (items : List Json) : furtherItems items = (items.map words).flatMap (Token.comma :: ·) := by
  induction items with
  | nil => rfl
  | cons item items ih => simp [furtherItems, ih]

theorem furtherMembers_eq (members : List (String × Json)) :
    furtherMembers members = ((members.map fun member => (member.1, member.2.words)).map memberWords).flatMap
      (Token.comma :: ·) := by
  induction members with
  | nil => rfl
  | cons member members ih => simp [furtherMembers, ih, memberWords]

theorem words_array (items : List Json) :
    (Json.array items).words = .openArray :: separated (items.map words) ++ [.closeArray] := by
  cases items with
  | nil => rfl
  | cons item items => simp [words, separated, furtherItems_eq]

theorem words_object (members : List (String × Json)) : (Json.object members).words =
    .openObject :: separated ((members.map fun member => (member.1, member.2.words)).map memberWords) ++
      [.closeObject] := by
  cases members with
  | nil => rfl
  | cons member members => simp [words, separated, furtherMembers_eq, memberWords]

mutual

/-- A value is taken in with its words, wherever it is expected. -/
theorem reads_words (value : Json) (level : Nat) (h : level + value.depth ≤ maxDepth) :
    Reads level value.words value := by
  match value with
  | .null | .bool _ | .int _ | .double _ | .string _ | .unreadable => exact fun _ _ _ => rfl
  | .array items =>
    have hread := reads_array (reads_items items (level + 1) (by rw [depth] at h; omega))
    rwa [← words_array, arrayAt, if_pos (by rw [depth] at h; omega)] at hread
  | .object members =>
    have hread := reads_object (reads_members members (level + 1) (by rw [depth] at h; omega))
    rwa [← words_object, objectAt, if_pos (by rw [depth] at h; omega)] at hread

theorem reads_items (items : List Json) (level : Nat) (h : level + depthOfItems items ≤ maxDepth) :
    List.Forall₂ (Reads level) (items.map words) items := by
  match items with
  | [] => exact .nil
  | item :: items =>
    rw [depthOfItems] at h
    exact .cons (reads_words item level (by omega)) (reads_items items level (by omega))

theorem reads_members (members : List (String × Json)) (level : Nat) (h : level + depthOfMembers members ≤ maxDepth) :
    List.Forall₂ (ReadsMember level) (members.map fun member => (member.1, member.2.words)) members := by
  match members with
  | [] => exact .nil
  | (name, value) :: members =>
    rw [depthOfMembers] at h
    exact .cons ⟨rfl, reads_words value level (by omega)⟩ (reads_members members level (by omega))

end

theorem Reads.ofTokens? {words : List Token} {value : Json} (h : Reads 0 words value) :
    ofTokens? words = some value := by
  rw [Json.ofTokens?, h [] false rfl]

end Reading

section Texts

variable {c : Char} {cs rest : List Char}

/-- Characters that stand for themselves between quotes. -/
def isPlain (c : Char) : Bool :=
  c ≠ '"' && c ≠ '\\' && 0x20 ≤ c.toNat

theorem tokens_space (h : isSpace c) : tokens (c :: cs) = tokens cs := by
  rw [tokens, tokens, List.dropWhile_cons_of_pos h]

theorem tokens_of_readToken {token : Token} (hs : isSpace c = false) (h : readToken (c :: cs) = some (token, rest)) :
    tokens (c :: cs) = (tokens rest).map (token :: ·) := by
  rw [tokens, List.dropWhile_cons_of_neg (by simp [hs])]
  split
  · rename_i heq
    cases heq
  · rename_i heq
    cases heq
    split
    · rename_i hnone
      cases hnone.symm.trans h
    · rename_i hsome
      cases hsome.symm.trans h
      rfl

/-- A character before the pieces of a text. -/
def spelling (c : Char) (read : List Piece × List Char) : List Piece × List Char :=
  (.char c :: read.1, read.2)

theorem readPieces_cons_plain (h : isPlain c = true) : readPieces (c :: cs) = (readPieces cs).map (spelling c) := by
  obtain ⟨⟨hquote, hslash⟩, hcontrol⟩ : (¬ c = '"' ∧ ¬ c = '\\') ∧ 0x20 ≤ c.toNat := by
    simpa [isPlain] using h
  have hstops : ¬ (decide (c.toNat < 0x20) || decide (c = '\\')) = true := by
    simp [hslash, hcontrol]
  rw [readPieces, if_neg hstops]
  · cases readPieces cs <;> rfl
  · exact hquote
  · exact fun _ _ _ _ _ he => absurd he hslash
  · exact fun _ _ he => absurd he hslash

theorem joinHalves_chars {text : List Char} : joinHalves (text.map Piece.char) = some text := by
  induction text with
  | nil => rfl
  | cons c text ih => rw [List.map_cons, joinHalves, ih, Option.map_some]

end Texts

end TableApi.Json
