import Mathlib.Data.List.TakeWhile
import TableApi.Proofs.TableTypes

/-! The grammar of references to types. A name, or a name within brackets, may each have a mark behind it; white
space may stand around every part, and nothing else may. -/
namespace TableApi

namespace Text

variable {cs before after body : List Char}

def Blanks (cs : List Char) : Prop :=
  ∀ c ∈ cs, isBlank c

theorem trimStart_append (hb : Blanks before) (h : ∀ c ∈ cs.head?, ¬ isBlank c) :
    trimStart (before ++ cs) = cs := by
  rw [trimStart, List.dropWhile_append_of_pos hb]
  cases cs with
  | nil => rfl
  | cons c cs => exact List.dropWhile_cons_of_neg (h c rfl)

theorem trimEnd_append (ha : Blanks after) (h : ∀ c ∈ cs.getLast?, ¬ isBlank c) :
    trimEnd (cs ++ after) = cs := by
  have hreverse : ∀ c ∈ cs.reverse.head?, ¬ isBlank c := by
    rwa [List.head?_reverse]
  have hblanks : Blanks after.reverse := fun c hc => ha c (List.mem_reverse.1 hc)
  have hstart := trimStart_append hblanks hreverse
  rw [trimEnd, List.reverse_append]
  exact (congrArg List.reverse hstart).trans cs.reverse_reverse

theorem exists_trimStart (cs : List Char) : ∃ before, Blanks before ∧ cs = before ++ trimStart cs :=
  ⟨cs.takeWhile isBlank, fun _ => List.mem_takeWhile_imp, List.takeWhile_append_dropWhile.symm⟩

theorem exists_trimEnd (cs : List Char) : ∃ after, Blanks after ∧ cs = trimEnd cs ++ after := by
  obtain ⟨before, hb, hcs⟩ := exists_trimStart cs.reverse
  refine ⟨before.reverse, fun c hc => hb c (List.mem_reverse.1 hc), ?_⟩
  rw [trimEnd, ← List.reverse_append]
  exact cs.reverse_reverse.symm.trans (congrArg List.reverse hcs)

/-- All characters but white space. -/
def withoutBlanks (cs : List Char) : List Char :=
  cs.filter (!isBlank ·)

theorem withoutBlanks_append (cs more : List Char) :
    withoutBlanks (cs ++ more) = withoutBlanks cs ++ withoutBlanks more :=
  List.filter_append ..

theorem Blanks.withoutBlanks (h : Blanks cs) : withoutBlanks cs = [] := by
  simpa [Text.withoutBlanks, Blanks] using h

theorem withoutBlanks_eq_self (h : ∀ c ∈ cs, ¬ isBlank c) : withoutBlanks cs = cs := by
  simpa [withoutBlanks, List.filter_eq_self] using h

/-- White space around a text that has none at its ends is what is taken off it. -/
theorem trim_append (hb : Blanks before) (ha : Blanks after) (hne : cs ≠ [])
    (hfirst : ∀ c ∈ cs.head?, ¬ isBlank c) (hlast : ∀ c ∈ cs.getLast?, ¬ isBlank c) :
    trim (before ++ cs ++ after) = cs := by
  have hhead : (cs ++ after).head? = cs.head? := List.head?_append_of_ne_nil _ hne
  rw [trim, List.append_assoc, trimStart_append hb (hhead ▸ hfirst), trimEnd_append ha hlast]

theorem exists_trim (cs : List Char) :
    ∃ before after, Blanks before ∧ Blanks after ∧ cs = before ++ trim cs ++ after := by
  obtain ⟨before, hb, hstart⟩ := exists_trimStart cs
  obtain ⟨after, ha, hend⟩ := exists_trimEnd (trimStart cs)
  refine ⟨before, after, hb, ha, ?_⟩
  rw [trim, List.append_assoc, ← hend]
  exact hstart

end Text

namespace TypeRef

variable {name : String} {text body : List Char} {required : Bool}

/-- A body with its mark behind it if it is required, and white space around both. -/
def Marked (body : List Char) (required : Bool) (text : List Char) : Prop :=
  ∃ before between after, Text.Blanks before ∧ Text.Blanks between ∧ Text.Blanks after ∧
    text = before ++ body ++ between ++ (mark required).toList ++ after

/-- The texts that stand for a reference. -/
inductive Spells : TypeRef → List Char → Prop
  | single {name : String} {required : Bool} {text : List Char} : isLegalName name →
      Marked name.toList required text → Spells (.single name required) text
  | list {name : String} {itemRequired required : Bool} {item text : List Char} : isLegalName name →
      Marked name.toList itemRequired item → Marked ('[' :: item ++ [']']) required text →
      Spells (.list name itemRequired required) text

/-- A body that can be told from the white space around it and from its mark. -/
structure Body (body : List Char) : Prop where
  ne_nil : body ≠ []
  first : ∀ c ∈ body.head?, ¬ Text.isBlank c
  last : ∀ c ∈ body.getLast?, ¬ Text.isBlank c
  unmarked : body.getLast? ≠ some '!'

theorem splitMark_of_unmarked (h : text.getLast? ≠ some '!') : splitMark text = (text, false) := by
  unfold splitMark
  split
  · next rest hr =>
    rw [List.reverse_eq_cons_iff] at hr
    exact absurd (by simp [hr]) h
  · rfl

theorem splitMark_mark (text : List Char) : splitMark (text ++ ['!']) = (Text.trimEnd text, true) := by
  simp [splitMark]

theorem marked_of_splitMark (h : splitMark (Text.trim text) = (body, required)) :
    Marked body required text := by
  obtain ⟨before, after, hb, ha, htext⟩ := Text.exists_trim text
  by_cases hmark : (Text.trim text).getLast? = some '!'
  · obtain ⟨start, hstart⟩ := List.getLast?_eq_some_iff.1 hmark
    obtain ⟨between, hbetween, hbody⟩ := Text.exists_trimEnd start
    rw [hstart, splitMark_mark] at h
    obtain ⟨rfl, rfl⟩ := Prod.mk.inj h
    refine ⟨before, between, after, hb, hbetween, ha, ?_⟩
    rw [htext, hstart, List.append_assoc before (Text.trimEnd start), ← hbody, ← List.append_assoc before start]
    rfl
  · rw [splitMark_of_unmarked hmark] at h
    obtain ⟨rfl, rfl⟩ := Prod.mk.inj h
    exact ⟨before, [], after, hb, by simp [Text.Blanks], ha, by simpa [mark] using htext⟩

theorem splitMark_trim_iff (h : Body body) :
    splitMark (Text.trim text) = (body, required) ↔ Marked body required text := by
  refine ⟨marked_of_splitMark, ?_⟩
  rintro ⟨before, between, after, hb, hbetween, ha, rfl⟩
  cases required with
  | false =>
    have hafter : Text.Blanks (between ++ after) := by
      simpa [Text.Blanks, or_imp, forall_and] using ⟨hbetween, ha⟩
    have htrim := Text.trim_append hb hafter h.ne_nil h.first h.last
    simp only [mark, Bool.false_eq_true, if_false, String.toList_empty, List.append_nil, List.append_assoc] at htrim ⊢
    rw [htrim, splitMark_of_unmarked h.unmarked]
  | true =>
    have hhead : (body ++ between ++ ['!']).head? = body.head? := by
      rw [List.append_assoc]
      exact List.head?_append_of_ne_nil _ h.ne_nil
    have htrim : Text.trim (before ++ (body ++ between ++ ['!']) ++ after) = body ++ between ++ ['!'] := by
      refine Text.trim_append hb ha (by simp) (hhead ▸ h.first) ?_
      rw [List.getLast?_concat]
      rintro c ⟨⟩
      decide
    have hmark : (mark true).toList = ['!'] := rfl
    rw [hmark, List.append_assoc before, List.append_assoc before, htrim, splitMark_mark,
      Text.trimEnd_append hbetween h.last]

theorem not_blank_of_isNameChar {c : Char} (h : isNameChar c) : ¬ Text.isBlank c :=
  char_of_codes (p := fun c => isNameChar c → ¬ Text.isBlank c) (by decide) (toNat_lt_of_isNameChar h) h

theorem body_of_legal (h : isLegalName name) : Body name.toList := by
  have hchars := isNameChar_of_legal h
  have hne : name.toList ≠ [] := by
    intro hnil
    simp [isLegalName, hnil] at h
  refine ⟨hne, ?_, ?_, ?_⟩
  · intro c hc
    exact not_blank_of_isNameChar (hchars c (List.mem_of_mem_head? hc))
  · intro c hc
    exact not_blank_of_isNameChar (hchars c (List.mem_of_mem_getLast? hc))
  · intro hlast
    exact absurd (hchars '!' (List.mem_of_mem_getLast? hlast)) (by decide)

theorem body_of_brackets (item : List Char) : Body ('[' :: item ++ [']']) := by
  have hlast : ('[' :: item ++ [']']).getLast? = some ']' := List.getLast?_concat
  refine ⟨List.cons_ne_nil _ _, ?_, ?_, ?_⟩
  · rintro c ⟨⟩
    decide
  · rw [hlast]
    rintro c ⟨⟩
    decide
  · rw [hlast]
    decide

theorem legalName?_eq_some_iff : legalName? text = some name ↔ text = name.toList ∧ isLegalName name := by
  simp only [legalName?, Option.ite_none_right_eq_some, Option.some.injEq]
  constructor
  · rintro ⟨hlegal, rfl⟩
    exact ⟨String.toList_ofList.symm, hlegal⟩
  · rintro ⟨rfl, hlegal⟩
    rw [String.ofList_toList]
    exact ⟨hlegal, rfl⟩

theorem bracketed?_eq_some_iff :
    bracketed? text = some body ↔ ∃ item, text = item ++ [']'] ∧ Text.trim item = body := by
  unfold bracketed?
  constructor
  · intro h
    split at h
    · next rest hr =>
      rw [List.reverse_eq_cons_iff] at hr
      exact ⟨rest.reverse, hr, Option.some.inj h⟩
    · cases h
  · rintro ⟨item, rfl, rfl⟩
    simp

/-- The parser reads exactly the texts that stand for a reference. -/
theorem parse?_eq_some_iff {text : String} {ref : TypeRef} :
    parse? text = some ref ↔ Spells ref text.toList := by
  constructor
  · intro h
    unfold parse? at h
    split at h
    · next inner required hsplit =>
      simp only [bind, Option.bind_eq_some_iff, bracketed?_eq_some_iff, legalName?_eq_some_iff] at h
      obtain ⟨_, ⟨item, rfl, rfl⟩, name, ⟨hitem, hname⟩, h⟩ := h
      obtain rfl := Option.some.inj h
      exact .list hname (marked_of_splitMark (Prod.ext hitem rfl)) (marked_of_splitMark hsplit)
    · next body required _ hsplit =>
      simp only [bind, Option.bind_eq_some_iff, legalName?_eq_some_iff] at h
      obtain ⟨name, ⟨rfl, hname⟩, h⟩ := h
      obtain rfl := Option.some.inj h
      exact .single hname (marked_of_splitMark hsplit)
  · intro h
    cases h with
    | @single name required _ hname hmarked =>
      have hsplit := (splitMark_trim_iff (body_of_legal hname)).2 hmarked
      have hnoBracket : ∀ inner, name.toList ≠ '[' :: inner := by
        intro inner hinner
        have hbracket := isNameChar_of_legal hname '[' (hinner ▸ List.mem_cons_self)
        exact absurd hbracket (by decide)
      unfold parse?
      split
      · next inner _ hlist =>
        rw [hsplit] at hlist
        exact absurd (Prod.mk.inj hlist).1 (hnoBracket inner)
      · next body _ _ hbody =>
        rw [hsplit] at hbody
        obtain ⟨rfl, rfl⟩ := Prod.mk.inj hbody
        simp [legalName?_eq_some_iff.2 ⟨rfl, hname⟩]
    | @list name _ _ _ _ hname hitem hmarked =>
      have hitem := (splitMark_trim_iff (body_of_legal hname)).2 hitem
      have hsplit := (splitMark_trim_iff (body_of_brackets _)).2 hmarked
      simp [parse?, hsplit, bracketed?_eq_some_iff.2 ⟨_, rfl, rfl⟩, hitem, legalName?_eq_some_iff.2 ⟨rfl, hname⟩]

/-- The text stands for a reference to a type. -/
def Grammatical (text : String) : Prop :=
  ∃ ref, Spells ref text.toList

theorem grammatical_iff {text : String} : Grammatical text ↔ ∃ type, parse? text = some type :=
  exists_congr fun _ => parse?_eq_some_iff.symm

/-- How a reference with these flags is written, by the six forms there are. -/
def form (name : String) : (list itemRequired listRequired : Bool) → String
  | false, false, _ => name
  | false, true, _ => name ++ "!"
  | true, false, false => "[" ++ name ++ "]"
  | true, true, false => "[" ++ name ++ "!]"
  | true, false, true => "[" ++ name ++ "]!"
  | true, true, true => "[" ++ name ++ "!]!"

theorem render_eq_form (ref : TypeRef) :
    ref.render = form ref.name ref.isList ref.isRequired ref.isRequiredList := by
  cases ref with
  | single name required => cases required <;> simp [render, renderAs, form, mark, TypeRef.name, isList, isRequired]
  | list name itemRequired required =>
    cases itemRequired <;> cases required <;>
      simp [render, renderAs, form, mark, TypeRef.name, isList, isRequired, isRequiredList, String.append_assoc]

theorem Spells.legal {ref : TypeRef} (h : Spells ref text) : isLegalName ref.name := by
  cases h with
  | single hname _ => exact hname
  | list hname _ _ => exact hname

theorem withoutBlanks_mark (required : Bool) :
    Text.withoutBlanks (mark required).toList = (mark required).toList := by
  cases required <;> decide

theorem Marked.withoutBlanks (h : Marked body required text) :
    Text.withoutBlanks text = Text.withoutBlanks body ++ (mark required).toList := by
  obtain ⟨before, between, after, hb, hbetween, ha, rfl⟩ := h
  simp only [Text.withoutBlanks_append, withoutBlanks_mark, hb.withoutBlanks, hbetween.withoutBlanks,
    ha.withoutBlanks, List.nil_append, List.append_nil]

theorem withoutBlanks_of_legal (h : isLegalName name) : Text.withoutBlanks name.toList = name.toList :=
  Text.withoutBlanks_eq_self fun c hc => not_blank_of_isNameChar (isNameChar_of_legal h c hc)

/-- But for its white space a text is what its reference is written as. -/
theorem Spells.withoutBlanks {ref : TypeRef} (h : Spells ref text) :
    Text.withoutBlanks text = ref.render.toList := by
  cases h with
  | single hname hmarked =>
    rw [hmarked.withoutBlanks, withoutBlanks_of_legal hname]
    exact String.toList_append.symm
  | @list name itemRequired required item _ hname hitem hmarked =>
    have hopen : Text.withoutBlanks ['['] = ['['] := by decide
    have hclose : Text.withoutBlanks [']'] = [']'] := by decide
    have hbody : '[' :: item ++ [']'] = ['['] ++ item ++ [']'] := rfl
    rw [hmarked.withoutBlanks, hbody, Text.withoutBlanks_append, Text.withoutBlanks_append, hopen, hclose,
      hitem.withoutBlanks, withoutBlanks_of_legal hname]
    simp [render, renderAs, TypeRef.name]

theorem marked_self (body : List Char) (required : Bool) : Marked body required (body ++ (mark required).toList) := by
  have hnil : Text.Blanks [] := fun _ hc => absurd hc List.not_mem_nil
  exact ⟨[], [], [], hnil, hnil, hnil, by simp⟩

theorem spells_render {ref : TypeRef} (h : isLegalName ref.name) : Spells ref ref.render.toList := by
  cases ref with
  | single name required =>
    have hmarked := marked_self name.toList required
    rw [← String.toList_append] at hmarked
    exact .single h hmarked
  | list name itemRequired required =>
    have hmarked := marked_self ('[' :: (name.toList ++ (mark itemRequired).toList) ++ [']']) required
    have htext : (render (.list name itemRequired required)).toList =
        '[' :: (name.toList ++ (mark itemRequired).toList) ++ [']'] ++ (mark required).toList := by
      simp [render, renderAs, TypeRef.name]
    rw [htext]
    exact .list h (marked_self name.toList itemRequired) hmarked

/-- Exactly the texts of the grammar are read, and all others are refused as invalid. What is read has the flags of
the form it has without white space, is written in this form, and is read again from what is written. -/
theorem parseType_grammar (text : String) :
    (∀ ref, Key.parseType text = .ok ref ↔ Spells ref text.toList) ∧
    (¬ Grammatical text → Key.parseType text = .error (.invalidType text) ∧
      (Error.invalidType text).kind = .validation) ∧
    ∀ ref, Key.parseType text = .ok ref →
      isLegalName ref.name ∧ (ref.isRequiredList → ref.isList) ∧
      Text.withoutBlanks text.toList = (form ref.name ref.isList ref.isRequired ref.isRequiredList).toList ∧
      ref.render = String.ofList (Text.withoutBlanks text.toList) ∧
      Key.parseType ref.render = .ok ref := by
  have hread : ∀ ref, Key.parseType text = .ok ref ↔ Spells ref text.toList :=
    fun ref => Key.parseType_ok_iff.trans parse?_eq_some_iff
  refine ⟨hread, fun hno => ?_, fun ref href => ?_⟩
  · have hnone : parse? text = none := by
      rw [Option.eq_none_iff_forall_ne_some]
      exact fun ref href => hno ⟨ref, parse?_eq_some_iff.1 href⟩
    exact ⟨by rw [Key.parseType, hnone], rfl⟩
  · have hspells := (hread ref).1 href
    have hwritten := hspells.withoutBlanks
    refine ⟨hspells.legal, ?_, ?_, ?_, ?_⟩
    · cases ref <;> simp [isRequiredList, isList]
    · rw [hwritten, render_eq_form]
    · rw [hwritten, String.ofList_toList]
    · rw [Key.parseType_ok_iff, parse?_eq_some_iff]
      exact spells_render hspells.legal

/-- White space at all places where it may stand. -/
theorem spacedTimestamps_read : Key.parseType "  [ AWS_TIMESTAMP ! ] ! " = .ok (.list "AWS_TIMESTAMP" true true) ∧
    Spells (.list "AWS_TIMESTAMP" true true) "  [ AWS_TIMESTAMP ! ] ! ".toList ∧
    render (.list "AWS_TIMESTAMP" true true) = "[AWS_TIMESTAMP!]!" ∧
    Key.parseType "[AWS_TIMESTAMP!]!" = .ok (.list "AWS_TIMESTAMP" true true) ∧
    ¬ Grammatical "Str ing" ∧ Key.parseType "Str ing" = .error (.invalidType "Str ing") := by
  have hread : Key.parseType "  [ AWS_TIMESTAMP ! ] ! " = .ok (.list "AWS_TIMESTAMP" true true) := by decide
  have hno : ¬ Grammatical "Str ing" := by
    rw [grammatical_iff]
    rintro ⟨type, htype⟩
    have hnone : parse? "Str ing" = none := by decide
    rw [hnone] at htype
    cases htype
  obtain ⟨hspells, _, hwritten⟩ := parseType_grammar "  [ AWS_TIMESTAMP ! ] ! "
  obtain ⟨_, _, _, _, hagain⟩ := hwritten _ hread
  exact ⟨hread, (hspells _).1 hread, by decide, hagain, hno, ((parseType_grammar "Str ing").2.1 hno).1⟩

end TypeRef

end TableApi
