import TableApi.Proofs.JsonWords
import TableApi.Proofs.Numerals

/-! What is read of the text of a value, be it on one line or indented. Texts, members and their order are read as they
are; numbers are what their numerals are read as, and containers past the depth that is kept are lost. -/
namespace TableApi.Json

section Strings

variable {c d : Char} {cs rest : List Char}

theorem readPieces_escaped (hu : c ≠ 'u') (h : escaped c = some (.char d)) :
    readPieces ('\\' :: c :: cs) = (readPieces cs).map (spelling d) := by
  rw [readPieces]
  · rw [h]
    cases readPieces cs <;> rfl
  · rintro _ _ _ _ _ rfl
    exact absurd rfl hu

theorem readPieces_unit {h₁ h₂ h₃ h₄ : Char} (h : unitOfHex h₁ h₂ h₃ h₄ = some (.char d)) :
    readPieces ('\\' :: 'u' :: h₁ :: h₂ :: h₃ :: h₄ :: cs) = (readPieces cs).map (spelling d) := by
  rw [readPieces, h]
  cases readPieces cs <;> rfl

theorem unitOfHex_control : ∀ n < 0x20, unitOfHex '0' '0' (hexDigit (n / 16)) (hexDigit (n % 16)) =
    some (.char (Char.ofNat n)) := by
  decide

/-- Every character is read as it was escaped. -/
theorem readPieces_escapeChar (c : Char) (cs : List Char) :
    readPieces (escapeChar c ++ cs) = (readPieces cs).map (spelling c) := by
  unfold escapeChar
  split
  all_goals try exact readPieces_escaped (by decide) rfl
  rename_i hquote hslash _ _ _ _ _
  split
  · rename_i hcontrol
    have hunit := unitOfHex_control c.toNat hcontrol
    rw [Char.ofNat_toNat] at hunit
    exact readPieces_unit hunit
  · rename_i hvisible
    refine readPieces_cons_plain ?_
    simp only [isPlain, Bool.and_eq_true, decide_eq_true_eq]
    exact ⟨⟨hquote, hslash⟩, by omega⟩

theorem readPieces_escaped_text (text rest : List Char) :
    readPieces (text.flatMap escapeChar ++ '"' :: rest) = some (text.map Piece.char, rest) := by
  induction text with
  | nil => rfl
  | cons c text ih =>
    rw [List.flatMap_cons, List.append_assoc, readPieces_escapeChar, ih]
    rfl

/-- Any text is read from between its quotes. -/
theorem readToken_quote (text : String) (rest : List Char) :
    readToken (quote text ++ rest) = some (.text (some text), rest) := by
  have hquoted : quote text ++ rest = '"' :: (text.toList.flatMap escapeChar ++ '"' :: rest) := by
    simp [quote]
  rw [hquoted, readToken, readPieces_escaped_text]
  simp [joinHalves_chars]

end Strings

section Words

variable {c : Char} {a b cs text blank rest : List Char} {word : Token} {words more : List Token}

/-- Where no numeral goes on behind it, the text has the words. -/
def Spells (text : List Char) (words : List Token) : Prop :=
  ∀ rest, Delimited rest → tokens (text ++ rest) = (tokens rest).map (words ++ ·)

/-- A numeral does not go on into the text, nor into what follows it. -/
def Delimits (text : List Char) : Prop :=
  ∀ rest, Delimited rest → Delimited (text ++ rest)

def AllSpace (text : List Char) : Prop :=
  ∀ c ∈ text, isSpace c = true

theorem delimits_cons (h : isNumeralChar c = false) : Delimits (c :: cs) := by
  rintro rest - _ ⟨⟩
  exact h

theorem AllSpace.delimits (h : AllSpace blank) (ha : Delimits a) : Delimits (blank ++ a) := by
  cases blank with
  | nil => exact ha
  | cons c blank =>
    refine delimits_cons ?_
    have hc := h c List.mem_cons_self
    simp only [isSpace, Bool.or_eq_true, decide_eq_true_eq] at hc
    rcases hc with ((rfl | rfl) | rfl) | rfl <;> rfl

theorem Spells.append (ha : Spells a words) (hb : Spells b more) (h : Delimits b) :
    Spells (a ++ b) (words ++ more) := by
  intro rest hrest
  rw [List.append_assoc, ha _ (h rest hrest), hb rest hrest, Option.map_map]
  congr 1
  funext later
  exact (List.append_assoc _ _ _).symm

theorem AllSpace.spells (h : AllSpace blank) (ha : Spells a words) : Spells (blank ++ a) words := by
  intro rest hrest
  induction blank with
  | nil => exact ha rest hrest
  | cons c blank ih =>
    obtain ⟨hc, hblank⟩ := List.forall_mem_cons.1 h
    rw [List.cons_append, List.cons_append, tokens_space hc]
    exact ih hblank

theorem spells_of_readToken (hs : isSpace c = false)
    (h : ∀ rest, Delimited rest → readToken (c :: (cs ++ rest)) = some (word, rest)) : Spells (c :: cs) [word] :=
  fun rest hrest => tokens_of_readToken hs (h rest hrest)

/-- A mark is a word whatever follows it. -/
theorem Spells.cons (hs : isSpace c = false) (hc : ∀ rest, readToken (c :: rest) = some (word, rest))
    (h : Spells text words) : Spells (c :: text) (word :: words) := by
  intro rest hrest
  rw [List.cons_append, tokens_of_readToken hs (hc _), h rest hrest, Option.map_map]
  rfl

theorem spells_quote (text : String) : Spells (quote text) [.text (some text)] :=
  spells_of_readToken rfl fun rest _ => readToken_quote text rest

theorem spells_numeral {n : Numeral} (h : n.WellFormed) : Spells n.chars [.scalar n.toJson] := by
  obtain ⟨c, cs, hchars, hc⟩ := h.head
  have hother : ∀ mark : Char, mark ≠ '-' → mark.isDigit = false → c ≠ mark := by
    rintro _ hm hd rfl
    exact hc.elim hm fun hdigit => Bool.false_ne_true (hd.symm.trans hdigit)
  rw [hchars]
  refine spells_of_readToken ?_ fun rest hrest => ?_
  · simp [isSpace, hother ' ', hother '\n', hother '\t', hother '\r']
  · have hread := h.readNumeral hrest
    rw [hchars, List.cons_append] at hread
    rw [readToken, hread]
    · rfl
    all_goals
      intro _ he
      exact hother _ (by decide) rfl (List.cons.inj he).1

theorem joinWith_cons (separator first : List Char) (others : List (List Char)) :
    joinWith separator (first :: others) = first ++ others.flatMap (separator ++ ·) := by
  induction others generalizing first with
  | nil => exact (List.append_nil first).symm
  | cons second others ih =>
    rw [joinWith, ih, List.flatMap_cons]
    · simp
    · exact List.cons_ne_nil second others

theorem spells_comma (hb : AllSpace blank) (h : Spells text words) :
    Spells (',' :: (blank ++ text)) (.comma :: words) :=
  (hb.spells h).cons rfl fun _ => rfl

/-- Texts with commas between them, before a text that ends them. -/
theorem spells_joined {texts : List (List Char)} {spelled : List (List Token)} (hb : AllSpace blank)
    (h : List.Forall₂ Spells texts spelled) (ha : Spells a more) (hd : Delimits a) :
    Spells (joinWith (',' :: blank) texts ++ a) (separated spelled ++ more) := by
  have hothers : ∀ {texts : List (List Char)} {spelled : List (List Token)}, List.Forall₂ Spells texts spelled →
      Spells (texts.flatMap (',' :: blank ++ ·) ++ a) (spelled.flatMap (Token.comma :: ·) ++ more) ∧
        Delimits (texts.flatMap (',' :: blank ++ ·) ++ a) := by
    intro texts spelled h
    -- The text before a comma may be a numeral, so that both facts are carried from the end.
    induction h with
    | nil => exact ⟨ha, hd⟩
    | cons hfirst _ ih =>
      refine ⟨?_, delimits_cons rfl⟩
      have hall := spells_comma hb (hfirst.append ih.1 ih.2)
      simpa [List.append_assoc] using hall
  cases h with
  | nil => exact ha
  | cons hfirst hrest =>
    obtain ⟨hspells, hdelimits⟩ := hothers hrest
    rw [joinWith_cons, separated, List.append_assoc, List.append_assoc]
    exact hfirst.append hspells hdelimits

variable {opening closing : Char} {opened closed : Token} {texts : List (List Char)} {spelled : List (List Token)}

/-- Brackets around texts, with commas and space between them. -/
theorem spells_brackets (ho : isSpace opening = false)
    (hopen : ∀ rest, readToken (opening :: rest) = some (opened, rest))
    (hc : isSpace closing = false) (hclose : ∀ rest, readToken (closing :: rest) = some (closed, rest))
    (hn : isNumeralChar closing = false) (ha : AllSpace a) (hb : AllSpace b) (hblank : AllSpace blank)
    (h : List.Forall₂ Spells texts spelled) :
    Spells (opening :: (a ++ (joinWith (',' :: blank) texts ++ (b ++ [closing]))))
      (opened :: (separated spelled ++ [closed])) := by
  have hclosing : Spells [closing] [closed] := spells_of_readToken hc fun rest _ => hclose rest
  have hend := spells_joined hblank h (hb.spells hclosing) (hb.delimits (delimits_cons hn))
  exact (ha.spells hend).cons ho hopen

theorem spells_member {name : String} (hb : AllSpace blank) (h : Spells text words) :
    Spells (quote name ++ ':' :: (blank ++ text)) (memberWords (name, words)) :=
  (spells_quote name).append ((hb.spells h).cons rfl fun _ => rfl) (delimits_cons rfl)

end Words

section Values

mutual

/-- What is read of the text of the value within so many containers. -/
def told (level : Nat) : Json → Json
  | .unreadable => .null
  | .int n => (Numeral.ofInt n).toJson
  | .double x => x.numeral.toJson
  | .array items => arrayAt level (toldItems (level + 1) items)
  | .object members => objectAt level (toldMembers (level + 1) members)
  | .null => .null
  | .bool b => .bool b
  | .string s => .string s

def toldItems (level : Nat) : List Json → List Json
  | [] => []
  | item :: items => item.told level :: toldItems level items

def toldMembers (level : Nat) : List (String × Json) → List (String × Json)
  | [] => []
  | (name, value) :: members => (name, value.told level) :: toldMembers level members

end

variable {level : Nat} {text : List Char} {value : Json} {texts : List (List Char)} {a b blank : List Char}

/-- The text is read as the value within so many containers. -/
def Tells (level : Nat) (text : List Char) (value : Json) : Prop :=
  ∃ words, Spells text words ∧ Reads level words value

/-- The texts are read as the items, one by one. -/
def TellItems (level : Nat) (texts : List (List Char)) (items : List Json) : Prop :=
  ∃ spelled, List.Forall₂ Spells texts spelled ∧ List.Forall₂ (Reads level) spelled items

def TellMembers (level : Nat) (texts : List (List Char)) (members : List (String × Json)) : Prop :=
  ∃ spelled, List.Forall₂ Spells texts (spelled.map memberWords) ∧ List.Forall₂ (ReadsMember level) spelled members

theorem tellItems_nil : TellItems level [] [] :=
  ⟨[], .nil, .nil⟩

theorem tellMembers_nil : TellMembers level [] [] :=
  ⟨[], .nil, .nil⟩

theorem TellItems.cons {items : List Json} (h : Tells level text value) (hs : TellItems level texts items) :
    TellItems level (text :: texts) (value :: items) := by
  obtain ⟨words, hspells, hreads⟩ := h
  obtain ⟨spelled, hspelled, hall⟩ := hs
  exact ⟨words :: spelled, .cons hspells hspelled, .cons hreads hall⟩

theorem TellMembers.cons {name : String} {members : List (String × Json)} (hb : AllSpace blank)
    (h : Tells level text value) (hs : TellMembers level texts members) :
    TellMembers level ((quote name ++ ':' :: (blank ++ text)) :: texts) ((name, value) :: members) := by
  obtain ⟨words, hspells, hreads⟩ := h
  obtain ⟨spelled, hspelled, hall⟩ := hs
  exact ⟨(name, words) :: spelled, .cons (spells_member hb hspells) hspelled, .cons ⟨rfl, hreads⟩ hall⟩

theorem TellItems.array {items : List Json} (ha : AllSpace a) (hb : AllSpace b) (hblank : AllSpace blank)
    (h : TellItems (level + 1) texts items) :
    Tells level ('[' :: (a ++ (joinWith (',' :: blank) texts ++ (b ++ [']'])))) (arrayAt level items) := by
  obtain ⟨spelled, hspelled, hall⟩ := h
  exact ⟨_, spells_brackets rfl (fun _ => rfl) rfl (fun _ => rfl) rfl ha hb hblank hspelled, reads_array hall⟩

theorem TellMembers.object {members : List (String × Json)} (ha : AllSpace a) (hb : AllSpace b)
    (hblank : AllSpace blank) (h : TellMembers (level + 1) texts members) :
    Tells level ('\x7b' :: (a ++ (joinWith (',' :: blank) texts ++ (b ++ ['\x7d'])))) (objectAt level members) := by
  obtain ⟨spelled, hspelled, hall⟩ := h
  exact ⟨_, spells_brackets rfl (fun _ => rfl) rfl (fun _ => rfl) rfl ha hb hblank hspelled, reads_object hall⟩

theorem tells_word {word : Token} (hspells : Spells text [word]) (hreads : Reads level [word] value) :
    Tells level text value :=
  ⟨[word], hspells, hreads⟩

theorem allSpace_nil : AllSpace [] :=
  fun _ hc => absurd hc List.not_mem_nil

mutual

theorem tells_compactChars (value : Json) (level : Nat) : Tells level value.compactChars (value.told level) := by
  match value with
  | .null | .unreadable => exact tells_word (spells_of_readToken rfl fun _ _ => rfl) fun _ _ _ => rfl
  | .bool true | .bool false => exact tells_word (spells_of_readToken rfl fun _ _ => rfl) fun _ _ _ => rfl
  | .int n =>
    rw [compactChars, Numeral.chars_ofInt]
    exact tells_word (spells_numeral (Numeral.wellFormed_ofInt n)) fun _ _ _ => rfl
  | .double x =>
    rw [compactChars, Double.chars_numeral]
    exact tells_word (spells_numeral x.wellFormed_numeral) fun _ _ _ => rfl
  | .string s => exact tells_word (spells_quote s) fun _ _ _ => rfl
  | .array items =>
    exact (tellItems_compactItems items (level + 1)).array allSpace_nil allSpace_nil allSpace_nil
  | .object members =>
    exact (tellMembers_compactMembers members (level + 1)).object allSpace_nil allSpace_nil allSpace_nil

theorem tellItems_compactItems (items : List Json) (level : Nat) :
    TellItems level (compactItems items) (toldItems level items) := by
  match items with
  | [] => exact tellItems_nil
  | item :: items => exact .cons (tells_compactChars item level) (tellItems_compactItems items level)

theorem tellMembers_compactMembers (members : List (String × Json)) (level : Nat) :
    TellMembers level (compactMembers members) (toldMembers level members) := by
  match members with
  | [] => exact tellMembers_nil
  | (name, value) :: members =>
    exact .cons allSpace_nil (tells_compactChars value level) (tellMembers_compactMembers members level)

end

theorem allSpace_newLine (depth : Nat) : AllSpace (newLine depth) := by
  intro c hc
  rcases List.mem_cons.1 hc with rfl | hspace
  · rfl
  · rw [List.eq_of_mem_replicate hspace]
    rfl

theorem bracketed_eq (opening closing : Char) (depth : Nat) (lines : List (List Char)) : ∃ a b, AllSpace a ∧
    AllSpace b ∧ bracketed opening closing depth lines =
      opening :: (a ++ (joinWith (',' :: newLine (depth + 1)) lines ++ (b ++ [closing]))) := by
  cases lines with
  | nil => exact ⟨[], [], allSpace_nil, allSpace_nil, rfl⟩
  | cons line lines =>
    refine ⟨_, _, allSpace_newLine (depth + 1), allSpace_newLine depth, ?_⟩
    simp [bracketed]

mutual

theorem tells_prettyChars (value : Json) (depth level : Nat) :
    Tells level (value.prettyChars depth) (value.told level) := by
  match value with
  | .array items =>
    obtain ⟨a, b, ha, hb, htext⟩ := bracketed_eq '[' ']' depth (prettyItems (depth + 1) items)
    rw [prettyChars, htext]
    exact (tellItems_prettyItems items (depth + 1) (level + 1)).array ha hb (allSpace_newLine _)
  | .object members =>
    obtain ⟨a, b, ha, hb, htext⟩ := bracketed_eq '\x7b' '\x7d' depth (prettyMembers (depth + 1) members)
    rw [prettyChars, htext]
    exact (tellMembers_prettyMembers members (depth + 1) (level + 1)).object ha hb (allSpace_newLine _)
  | .null => exact tells_compactChars .null level
  | .unreadable => exact tells_compactChars .unreadable level
  | .bool true => exact tells_compactChars (.bool true) level
  | .bool false => exact tells_compactChars (.bool false) level
  | .int n => exact tells_compactChars (.int n) level
  | .double x => exact tells_compactChars (.double x) level
  | .string s => exact tells_compactChars (.string s) level

theorem tellItems_prettyItems (items : List Json) (depth level : Nat) :
    TellItems level (prettyItems depth items) (toldItems level items) := by
  match items with
  | [] => exact tellItems_nil
  | item :: items => exact .cons (tells_prettyChars item depth level) (tellItems_prettyItems items depth level)

theorem tellMembers_prettyMembers (members : List (String × Json)) (depth level : Nat) :
    TellMembers level (prettyMembers depth members) (toldMembers level members) := by
  match members with
  | [] => exact tellMembers_nil
  | (name, value) :: members =>
    have hspace : AllSpace [' '] := List.forall_mem_singleton.2 rfl
    rw [prettyMembers, toldMembers, List.append_assoc]
    exact .cons hspace (tells_prettyChars value depth level) (tellMembers_prettyMembers members depth level)

end

theorem Tells.parse? (h : Tells 0 text value) : parse? (String.ofList text) = some value := by
  obtain ⟨words, hspells, hreads⟩ := h
  have htokens := hspells [] fun _ hc => by cases hc
  rw [List.append_nil] at htokens
  have hend : tokens [] = some [] := by
    rw [tokens]
    rfl
  rw [Json.parse?, String.toList_ofList, htokens, hend]
  simpa using hreads.ofTokens?

theorem parse?_compact (value : Json) : parse? value.compact = some (value.told 0) :=
  (tells_compactChars value 0).parse?

theorem parse?_pretty (value : Json) : parse? value.pretty = some (value.told 0) :=
  (tells_prettyChars value 0 0).parse?

end Values

section Faithful

mutual

/-- No piece of the value is unreadable, and every number in it is what its numeral is read as. -/
def faithful : Json → Bool
  | .unreadable => false
  | .int n => (Numeral.ofInt n).toJson = .int n
  | .double x => x.numeral.toJson = .double x
  | .array items => faithfulItems items
  | .object members => faithfulMembers members
  | .null | .bool _ | .string _ => true

def faithfulItems : List Json → Bool
  | [] => true
  | item :: items => item.faithful && faithfulItems items

def faithfulMembers : List (String × Json) → Bool
  | [] => true
  | (_, value) :: members => value.faithful && faithfulMembers members

end

theorem faithfulItems_iff {items : List Json} :
    faithfulItems items = true ↔ ∀ item ∈ items, item.faithful = true := by
  induction items with
  | nil => simp [faithfulItems]
  | cons item items ih => simp [faithfulItems, ih]

theorem faithfulMembers_iff {members : List (String × Json)} :
    faithfulMembers members = true ↔ ∀ member ∈ members, member.2.faithful = true := by
  induction members with
  | nil => simp [faithfulMembers]
  | cons member members ih => simp [faithfulMembers, ih]

mutual

/-- Within the depth that is kept, a value is read as itself exactly if it is faithful. -/
theorem told_eq_iff (value : Json) {level : Nat} (h : level ≤ maxDepth) :
    value.told level = value ↔ value.faithful = true ∧ level + value.depth ≤ maxDepth := by
  match value with
  | .null | .bool _ | .string _ => simpa [told, faithful, depth] using h
  | .unreadable => simp [told, faithful]
  | .int n => simpa [told, faithful, depth] using fun _ => h
  | .double x => simpa [told, faithful, depth] using fun _ => h
  | .array items =>
    by_cases hless : level < maxDepth
    · have hitems := toldItems_eq_iff items (Nat.succ_le_of_lt hless)
      rw [told, arrayAt, if_pos hless, faithful, depth, Json.array.injEq, hitems, ← Nat.add_assoc, Nat.succ_add]
    · -- The array is lost, whatever is in it.
      rw [told, arrayAt, if_neg hless, depth]
      exact iff_of_false nofun fun hfits => by omega
  | .object members =>
    by_cases hless : level < maxDepth
    · have hmembers := toldMembers_eq_iff members (Nat.succ_le_of_lt hless)
      rw [told, objectAt, if_pos hless, faithful, depth, Json.object.injEq, hmembers, ← Nat.add_assoc, Nat.succ_add]
    · rw [told, objectAt, if_neg hless, depth]
      exact iff_of_false nofun fun hfits => by omega

theorem toldItems_eq_iff (items : List Json) {level : Nat} (h : level ≤ maxDepth) :
    toldItems level items = items ↔ faithfulItems items = true ∧ level + depthOfItems items ≤ maxDepth := by
  match items with
  | [] => simpa [toldItems, faithfulItems, depthOfItems] using h
  | item :: items =>
    have hitem := told_eq_iff item h
    have hitems := toldItems_eq_iff items h
    have hdepth : level + max item.depth (depthOfItems items) ≤ maxDepth ↔
        level + item.depth ≤ maxDepth ∧ level + depthOfItems items ≤ maxDepth := by omega
    rw [toldItems, faithfulItems, depthOfItems, List.cons.injEq, hitem, hitems, Bool.and_eq_true, hdepth,
      and_and_and_comm]

theorem toldMembers_eq_iff (members : List (String × Json)) {level : Nat} (h : level ≤ maxDepth) :
    toldMembers level members = members ↔
      faithfulMembers members = true ∧ level + depthOfMembers members ≤ maxDepth := by
  match members with
  | [] => simpa [toldMembers, faithfulMembers, depthOfMembers] using h
  | (name, value) :: members =>
    have hvalue := told_eq_iff value h
    have hmembers := toldMembers_eq_iff members h
    have hdepth : level + max value.depth (depthOfMembers members) ≤ maxDepth ↔
        level + value.depth ≤ maxDepth ∧ level + depthOfMembers members ≤ maxDepth := by omega
    rw [toldMembers, faithfulMembers, depthOfMembers, List.cons.injEq, Prod.mk.injEq, eq_self, true_and, hvalue,
      hmembers, Bool.and_eq_true, hdepth, and_and_and_comm]

end

/-- A faithful value that is not nested too deep is read back from its texts. -/
theorem parse?_texts {value : Json} (hf : value.faithful = true) (hd : value.depth ≤ maxDepth) :
    parse? value.compact = some value ∧ parse? value.pretty = some value := by
  have htold := (told_eq_iff value (Nat.zero_le maxDepth)).2 ⟨hf, by omega⟩
  rw [parse?_compact, parse?_pretty, htold]
  exact ⟨rfl, rfl⟩

end Faithful

end TableApi.Json
