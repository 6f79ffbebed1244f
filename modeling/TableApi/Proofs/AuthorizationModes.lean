import TableApi.Api
import TableApi.Proofs.JsonTexts
import TableApi.Proofs.KeptValues

/-! The authorization of an API as it is handed over. The modes are found in it in their order and with their settings;
from its text they are read as long as every number in them is read as it is written. -/
namespace TableApi

namespace AuthorizationMode

variable {mode : AuthorizationMode} {document : Json} {type : String} {settings : Settings}

/-- Settings that can stand beside the type of a mode. -/
structure Separate (settings : Settings) : Prop where
  sorted : Settings.Sorted settings
  values : Json.SortedMembers settings
  unreserved : "authorizationType" ∉ settings.map Prod.fst

/-- A mode with settings in the form in which they are kept. -/
structure Orderly (mode : AuthorizationMode) : Prop where
  separate : Separate mode.settings
  readable : Json.readableMembers mode.settings = true

def type? (members : List (String × Json)) : Option String :=
  match members.filter (·.1 = "authorizationType") with
  | [type] => type.2.string?
  | _ => none

theorem ofJson?_object (members : List (String × Json)) : ofJson? (.object members) =
    (type? members).bind fun type =>
      (Json.settings? (.object (members.filter (·.1 ≠ "authorizationType")))).map (⟨type, ·⟩) := by
  rw [ofJson?, type?]
  generalize members.filter (·.1 = "authorizationType") = types
  generalize Json.settings? _ = settings
  match types with
  | [] | _ :: _ :: _ => rfl
  | [type] =>
    dsimp only
    cases type.2.string? with
    | none => rfl
    | some type => cases settings <;> rfl

/-- Of a type with settings beside it the mode is read that they make, if the settings can be kept. -/
theorem ofJson?_written (h : Separate settings) : ofJson? (.object (("authorizationType", .string type) :: settings)) =
    if Json.readableMembers settings then some ⟨type, settings⟩ else none := by
  have hother : ∀ setting ∈ settings, setting.1 ≠ "authorizationType" :=
    fun setting hm he => h.unreserved (List.mem_map.2 ⟨setting, hm, he⟩)
  have htype : (("authorizationType", Json.string type) :: settings).filter (·.1 = "authorizationType") =
      [("authorizationType", .string type)] := by
    rw [List.filter_cons_of_pos (by simp), List.filter_eq_nil_iff.2 (by simpa using hother)]
  have hsettings : (("authorizationType", Json.string type) :: settings).filter (·.1 ≠ "authorizationType") =
      settings := by
    rw [List.filter_cons_of_neg (by simp), List.filter_eq_self.2 (by simpa using hother)]
  rw [ofJson?_object, type?, htype, hsettings, Json.settings?, Json.keptMembers_of_sorted settings h.values]
  by_cases hreadable : Json.readableMembers settings = true
  · rw [if_pos hreadable, if_pos hreadable, Option.map_some, Settings.ofMembers_eq_self h.sorted]
    rfl
  · rw [if_neg hreadable, if_neg hreadable]
    rfl

theorem Orderly.ofJson?_toJson (h : mode.Orderly) : ofJson? mode.toJson = some mode := by
  rw [toJson, ofJson?_written h.separate, if_pos h.readable]

theorem orderly_of_ofJson? (h : ofJson? document = some mode) : mode.Orderly := by
  cases document with
  | object members =>
    rw [ofJson?_object] at h
    obtain ⟨type, -, hsettings⟩ := Option.bind_eq_some_iff.1 h
    obtain ⟨settings, hkept, rfl⟩ := Option.map_eq_some_iff.1 hsettings
    obtain ⟨kept, hmembers, rfl⟩ := Option.map_eq_some_iff.1 hkept
    have hform := Json.keptMembers_form _ hmembers
    refine ⟨⟨Settings.sorted_ofMembers kept, Json.sortedMembers_iff.2 fun setting hm => ?_, fun hm => ?_⟩,
      Json.readableMembers_iff.2 fun setting hm => ?_⟩
    · exact (hform setting (Settings.mem_ofMembers hm)).1
    · obtain ⟨setting, hsetting, hname⟩ := List.mem_map.1 hm
      have hgiven : setting.1 ∈ kept.map Prod.fst := List.mem_map_of_mem (Settings.mem_ofMembers hsetting)
      rw [Json.names_keptMembers hmembers, hname] at hgiven
      obtain ⟨member, hmember, he⟩ := List.mem_map.1 hgiven
      exact absurd he (by simpa using (List.mem_filter.1 hmember).2)
    · exact (hform setting (Settings.mem_ofMembers hm)).2
  | _ => cases h

theorem orderly_of_decoded {documents : List Json} {modes : List AuthorizationMode}
    (h : documents.mapM ofJson? = some modes) : ∀ mode ∈ modes, mode.Orderly := by
  induction documents generalizing modes with
  | nil =>
    cases h
    exact List.forall_mem_nil _
  | cons document documents ih =>
    rw [List.mapM_cons] at h
    obtain ⟨mode, hmode, hrest⟩ := Option.bind_eq_some_iff.1 h
    obtain ⟨others, hothers, ⟨⟩⟩ := Option.bind_eq_some_iff.1 hrest
    exact List.forall_mem_cons.2 ⟨orderly_of_ofJson? hmode, ih hothers⟩

/-- The settings of the pool are sorted texts. -/
theorem userPool_settings (id : String) (pool : UserPool) : ∃ config,
    (ofUserPool id pool).settings = [("userPoolConfig", .object config)] ∧ Settings.Sorted config ∧
      ∀ member ∈ config, ∃ text, member.2 = .string text := by
  refine ⟨_, rfl, Settings.sorted_ofMembers _, fun member hm => ?_⟩
  have hmem := Settings.mem_ofMembers hm
  simp only [List.mem_append, List.mem_cons, List.not_mem_nil, or_false] at hmem
  rcases hmem with (rfl | rfl) | hpattern
  · exact ⟨_, rfl⟩
  · exact ⟨_, rfl⟩
  · cases hp : pool.clientPattern with
    | none =>
      rw [hp] at hpattern
      cases hpattern
    | some pattern =>
      rw [hp, Json.memberIfSome, List.mem_singleton] at hpattern
      exact ⟨pattern, hpattern ▸ rfl⟩

theorem forall_texts {p : Json → Prop} {members : List (String × Json)}
    (h : ∀ member ∈ members, ∃ text, member.2 = .string text) (hp : ∀ text, p (.string text)) :
    ∀ member ∈ members, p member.2 := by
  intro member hm
  obtain ⟨text, htext⟩ := h member hm
  exact htext ▸ hp text

theorem orderly_ofUserPool (id : String) (pool : UserPool) : (ofUserPool id pool).Orderly := by
  obtain ⟨config, hsettings, hsorted, htexts⟩ := userPool_settings id pool
  have hvalues : Json.SortedMembers config := Json.sortedMembers_iff.2 (forall_texts htexts fun _ => trivial)
  have hreadable : Json.readableMembers config = true := Json.readableMembers_iff.2
    (forall_texts (p := fun value => value.readable = true) htexts fun _ => rfl)
  refine ⟨⟨?_, ?_, ?_⟩, ?_⟩ <;> rw [hsettings]
  · exact List.pairwise_singleton _ _
  · exact ⟨⟨hsorted, hvalues⟩, trivial⟩
  · simp
  · simpa [Json.readableMembers, Json.readable] using hreadable

theorem faithful_ofUserPool (id : String) (pool : UserPool) : (ofUserPool id pool).toJson.faithful = true := by
  obtain ⟨config, hsettings, -, htexts⟩ := userPool_settings id pool
  have hfaithful : Json.faithfulMembers config = true := Json.faithfulMembers_iff.2
    (forall_texts (p := fun value => value.faithful = true) htexts fun _ => rfl)
  simpa [toJson, hsettings, Json.faithful, Json.faithfulMembers] using hfaithful

/-- A mode is read from its text exactly if all of it is. -/
theorem Orderly.ofJson?_told_iff (h : mode.Orderly) (level : Nat) :
    ofJson? (mode.toJson.told level) = some mode ↔ mode.toJson.told level = mode.toJson := by
  refine ⟨fun hread => ?_, fun htold => htold.symm ▸ h.ofJson?_toJson⟩
  rw [toJson, Json.told, Json.objectAt] at hread ⊢
  split at hread
  · rename_i hless
    have hseparate : Separate (Json.toldMembers (level + 1) mode.settings) := by
      refine ⟨Json.sorted_toldNames h.separate.sorted, Json.sorted_toldMembers _ _ h.separate.values, ?_⟩
      rw [Json.names_toldMembers]
      exact h.separate.unreserved
    rw [Json.toldMembers, Json.told, ofJson?_written hseparate] at hread
    split at hread
    · rw [if_pos hless, Json.toldMembers, Json.told]
      have hsettings := congrArg AuthorizationMode.settings (Option.some.inj hread)
      exact congrArg (fun settings => Json.object (("authorizationType", .string mode.type) :: settings)) hsettings
    · cases hread
  · cases hread

end AuthorizationMode

namespace Authorization

variable {authorization : Authorization} {first : Json} {others : List Json} {modes : List AuthorizationMode}

/-- The modes in an authorization that was handed over, the default one first. -/
def modesIn? (document : Json) : Option (List AuthorizationMode) := do
  match ← document.slots [["defaultAuthorization"], ["additionalAuthorizationModes"]] with
  | [default, additional] =>
    let first ← Json.required AuthorizationMode.ofJson? default
    let others ← Json.defaulted [] (Json.list? AuthorizationMode.ofJson?) additional
    return first :: others
  | _ => none

/-- An authorization from its modes, as they are written. -/
def documentOf (first : Json) (others : List Json) : Json :=
  .object (("defaultAuthorization", first) ::
    if others.isEmpty then [] else [("additionalAuthorizationModes", .array others)])

theorem toJson_eq (authorization : Authorization) : authorization.toJson =
    documentOf authorization.default.toJson (authorization.additional.map AuthorizationMode.toJson) := by
  rw [toJson, documentOf, List.isEmpty_map]

theorem modesIn?_documentOf (first : Json) (others : List Json) : modesIn? (documentOf first others) =
    (AuthorizationMode.ofJson? first).bind fun mode => (others.mapM AuthorizationMode.ofJson?).map (mode :: ·) := by
  have hmodes : modesIn? (documentOf first others) = (AuthorizationMode.ofJson? first).bind fun mode =>
      (others.mapM AuthorizationMode.ofJson?).bind fun modes => some (mode :: modes) := by
    cases others <;> rfl
  simp only [hmodes, Option.map_eq_bind, Function.comp_def]

theorem told_documentOf (first : Json) (others : List Json) : (documentOf first others).told 0 =
    documentOf (first.told 1) (others.map (Json.told 2)) := by
  rw [documentOf, documentOf, List.isEmpty_map, Json.told, Json.objectAt, if_pos (by decide)]
  cases others with
  | nil => rfl
  | cons second others => simp [Json.toldMembers, Json.told, Json.arrayAt, Json.maxDepth, Json.toldItems_eq_map]

theorem mapM_ofJson?_eq_some_iff {write : AuthorizationMode → Json} :
    (modes.map write).mapM AuthorizationMode.ofJson? = some modes ↔
      ∀ mode ∈ modes, AuthorizationMode.ofJson? (write mode) = some mode := by
  induction modes with
  | nil => simp
  | cons mode modes ih =>
    rw [List.map_cons, List.mapM_cons, List.forall_mem_cons, ← ih]
    cases AuthorizationMode.ofJson? (write mode) <;>
      cases (modes.map write).mapM AuthorizationMode.ofJson? <;> simp

/-- The modes of an authorization. -/
def allModes (authorization : Authorization) : List AuthorizationMode :=
  authorization.default :: authorization.additional

theorem modesIn?_toJson (h : ∀ mode ∈ authorization.allModes, mode.Orderly) :
    modesIn? authorization.toJson = some authorization.allModes := by
  obtain ⟨hdefault, hadditional⟩ := List.forall_mem_cons.1 h
  have hall := mapM_ofJson?_eq_some_iff.2 fun mode hm => (hadditional mode hm).ofJson?_toJson
  rw [toJson_eq, modesIn?_documentOf, hdefault.ofJson?_toJson, hall]
  rfl

/-- The modes are read from the text of an authorization exactly if all of the text is. -/
theorem modesIn?_told_iff (h : ∀ mode ∈ authorization.allModes, mode.Orderly) :
    modesIn? (authorization.toJson.told 0) = some authorization.allModes ↔
      authorization.toJson.told 0 = authorization.toJson := by
  refine ⟨fun hread => ?_, fun htold => htold.symm ▸ modesIn?_toJson h⟩
  obtain ⟨hdefault, hadditional⟩ := List.forall_mem_cons.1 h
  rw [toJson_eq, told_documentOf, List.map_map] at hread ⊢
  rw [modesIn?_documentOf] at hread
  obtain ⟨mode, hmode, hrest⟩ := Option.bind_eq_some_iff.1 hread
  obtain ⟨others, hothers, hsame⟩ := Option.map_eq_some_iff.1 hrest
  obtain ⟨rfl, rfl⟩ := List.cons.inj hsame
  -- The document has nothing but the modes, so that it is read as itself if each of them is.
  have htold := mapM_ofJson?_eq_some_iff.1 hothers
  rw [(hdefault.ofJson?_told_iff 1).1 hmode]
  refine congrArg (documentOf _) (List.map_congr_left fun mode hm => ?_)
  exact ((hadditional mode hm).ofJson?_told_iff 2).1 (htold mode hm)

theorem allModes_resolve (id : String) (pool : UserPool) (modes : List AuthorizationMode) :
    (resolve id pool modes).allModes =
      (if pool.name.isSome ∨ modes = [] then [.ofUserPool id pool] else []) ++ modes := by
  obtain ⟨name, pattern, deny⟩ := pool
  cases name <;> cases modes <;> rfl

theorem faithful_toJson_iff : authorization.toJson.faithful = true ↔
    ∀ mode ∈ authorization.allModes, mode.toJson.faithful = true := by
  have hdocument : ∀ first others, (documentOf first others).faithful = true ↔
      first.faithful = true ∧ ∀ other ∈ others, other.faithful = true := by
    intro first others
    rw [documentOf, Json.faithful]
    cases others <;> simp [Json.faithfulMembers, Json.faithful, Json.faithfulItems_iff]
  rw [toJson_eq, hdocument, List.forall_mem_map, allModes, List.forall_mem_cons]

theorem no_empty_additional (authorization : Authorization) {members : List (String × Json)}
    (h : authorization.toJson = .object members) : ("additionalAuthorizationModes", Json.array []) ∉ members := by
  rw [toJson, Json.object.injEq] at h
  subst h
  cases authorization.additional <;> simp

/-- The modes that were decoded are found in the authorization of the API, in order and with their settings, behind one
for the user pool if that is named or no mode was given. From a text of the authorization they are read back exactly if
all numbers in them are read as they are written and nothing is nested too deep. -/
theorem read_back_iff {documents : List Json} {modes : List AuthorizationMode}
    (h : documents.mapM AuthorizationMode.ofJson? = some modes) (id : String) (pool : UserPool) :
    let document := (resolve id pool modes).toJson
    let all := (if pool.name.isSome ∨ modes = [] then [AuthorizationMode.ofUserPool id pool] else []) ++ modes
    modesIn? document = some all ∧
      (∀ members, document = .object members → ("additionalAuthorizationModes", .array []) ∉ members) ∧
      ∀ text ∈ [document.compact, document.pretty], (Json.parse? text).bind modesIn? = some all ↔
        (∀ mode ∈ modes, mode.toJson.faithful = true) ∧ document.depth ≤ Json.maxDepth := by
  have hmodes := AuthorizationMode.orderly_of_decoded h
  have hadded : ∀ {p : AuthorizationMode → Prop}, p (.ofUserPool id pool) → ((∀ mode ∈ modes, p mode) ↔
      ∀ mode ∈ (resolve id pool modes).allModes, p mode) := by
    intro p hpool
    rw [allModes_resolve, List.forall_mem_append]
    split <;> simp [hpool]
  have horderly := (hadded (AuthorizationMode.orderly_ofUserPool id pool)).1 hmodes
  intro document all
  have hall : all = (resolve id pool modes).allModes := (allModes_resolve id pool modes).symm
  rw [hall]
  refine ⟨modesIn?_toJson horderly, fun members => no_empty_additional _, fun text ht => ?_⟩
  have htext : Json.parse? text = some (document.told 0) := by
    rcases List.mem_pair.1 ht with rfl | rfl
    · exact Json.parse?_compact document
    · exact Json.parse?_pretty document
  rw [htext, Option.bind_some, modesIn?_told_iff horderly, Json.told_eq_iff _ (Nat.zero_le _), Nat.zero_add,
    faithful_toJson_iff, hadded (AuthorizationMode.faithful_ofUserPool id pool)]

/-- A key with nested settings. -/
def publicKey : AuthorizationMode :=
  ⟨"API_KEY", [("apiKeyConfig", .object [("days", .int 30), ("name", .string "public")])]⟩

/-- Authorization by a named pool, and by the key or a role. -/
def sharedPets : Authorization :=
  resolve "Pets" ⟨some "people", none, true⟩ [publicKey, .ofType "AWS_IAM"]

theorem sharedPets_read_back : sharedPets.default = .ofUserPool "Pets" ⟨some "people", none, true⟩ ∧
    modesIn? sharedPets.toJson = some [sharedPets.default, publicKey, .ofType "AWS_IAM"] ∧
    (Json.parse? sharedPets.toJson.pretty).bind modesIn? =
      some [sharedPets.default, publicKey, .ofType "AWS_IAM"] := by
  have hdecoded : [Json.object [("apiKeyConfig", .object [("name", .string "public"), ("days", .int 30)]),
      ("authorizationType", .string "API_KEY")], .object [("authorizationType", .string "AWS_IAM")]].mapM
        AuthorizationMode.ofJson? = some [publicKey, .ofType "AWS_IAM"] := by decide +kernel
  obtain ⟨hmodes, -, htext⟩ := read_back_iff hdecoded "Pets" ⟨some "people", none, true⟩
  exact ⟨rfl, hmodes, (htext _ (List.mem_cons_of_mem _ List.mem_cons_self)).2 (by decide)⟩

/-- A key with a number whose text is read as the double before it. -/
def limitedKey : AuthorizationMode :=
  ⟨"API_KEY", [("limit", .double ⟨false, 6938893903907229, 56⟩)]⟩

/-- Authorization by the key alone. -/
def limitedPets : Authorization :=
  resolve "Pets" ⟨none, none, false⟩ [limitedKey]

theorem limitedPets_altered :
    (Json.parse? "\x7b\"authorizationType\":\"API_KEY\",\"limit\":5e+32\x7d").bind AuthorizationMode.ofJson? =
      some limitedKey ∧
    limitedPets.toJson.compact =
      "\x7b\"defaultAuthorization\":\x7b\"authorizationType\":\"API_KEY\",\"limit\":5.0000000000000004e+32\x7d\x7d" ∧
    (Json.parse? limitedPets.toJson.compact).bind modesIn? ≠ some [limitedKey] := by
  decide +kernel

end Authorization

end TableApi
