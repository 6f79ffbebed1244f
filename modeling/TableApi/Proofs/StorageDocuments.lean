import TableApi.Proofs.JsonTexts
import TableApi.Proofs.Registry
import TableApi.Table.Settings

/-! Settings of the storage as JSON values and as texts. Each is read back from the members that are written of it, and
members with their default values need not be written. -/
namespace TableApi

namespace Json

section Members

variable {α β : Type} {name : String} {member : String × Json} {members all usual : List (String × Json)}

/-- The value is read from the document as it stands, and from either of its texts. -/
structure StandsFor (read : Json → Option α) (document : Json) (a : α) : Prop where
  whole : read document = some a
  compact : (parse? document.compact).bind read = some a
  pretty : (parse? document.pretty).bind read = some a

theorem standsFor_of_faithful {read : Json → Option α} {document : Json} {a : α} (h : read document = some a)
    (hf : document.faithful = true) (hd : document.depth ≤ maxDepth) : StandsFor read document a := by
  obtain ⟨hcompact, hpretty⟩ := parse?_texts hf hd
  refine ⟨h, ?_, ?_⟩
  · rw [hcompact, Option.bind_some, h]
  · rw [hpretty, Option.bind_some, h]

/-- What is read back from its texts within an object. -/
def Shallow (value : Json) : Prop :=
  value.faithful = true ∧ value.depth ≤ 1

theorem standsFor_object {read : Json → Option α} {a : α} (h : read (.object members) = some a)
    (hm : ∀ member ∈ members, member.2.Shallow) : StandsFor read (.object members) a := by
  have hdepth : (Json.object members).depth ≤ 1 + 1 :=
    Nat.succ_le_succ (depthOfMembers_le fun member hmem => (hm member hmem).2)
  refine standsFor_of_faithful h ?_ (Nat.le_trans hdepth (by decide))
  rw [faithful, faithfulMembers_iff]
  exact fun member hmem => (hm member hmem).1

theorem shallow_string (text : String) : (Json.string text).Shallow :=
  ⟨rfl, Nat.zero_le 1⟩

theorem shallow_bool (b : Bool) : (Json.bool b).Shallow :=
  ⟨rfl, Nat.zero_le 1⟩

theorem shallow_ofWord32 (n : UInt32) : (ofWord32 n).Shallow := by
  have hsize : n.toNat < UInt64.size := Nat.lt_trans n.toNat_lt_size (by decide)
  refine ⟨?_, Nat.zero_le 1⟩
  rw [ofWord32, faithful, Numeral.toJson_ofInt (by omega) (by omega), decide_eq_true rfl]

theorem shallow_ofStrings (strings : List String) : (ofStrings strings).Shallow := by
  induction strings with
  | nil => exact ⟨rfl, Nat.le_refl 1⟩
  | cons text strings ih =>
    obtain ⟨hfaithful, hdepth⟩ := ih
    rw [ofStrings, faithful] at hfaithful
    rw [ofStrings, depth] at hdepth
    refine ⟨hfaithful, ?_⟩
    change max 0 (depthOfItems (strings.map .string)) + 1 ≤ 1
    rwa [Nat.zero_max]

theorem shallow_memberIfSome {write : α → Json} (h : ∀ a, (write a).Shallow) (value : Option α) :
    ∀ member ∈ memberIfSome name write value, member.2.Shallow := by
  cases value with
  | none => exact List.forall_mem_nil _
  | some a => exact List.forall_mem_singleton.2 (h a)

theorem lookup_eq_some_iff (h : (members.map Prod.fst).Nodup) {value : Json} :
    members.lookup name = some value ↔ (name, value) ∈ members := by
  change OrderedMap.get? ⟨members, h⟩ name = some value ↔ _
  rw [OrderedMap.get?_eq_some_iff]

theorem filter_name (h : (members.map Prod.fst).Nodup) (name : String) :
    members.filter (fun member => [name].contains member.1) = ((members.lookup name).map (name, ·)).toList := by
  induction members with
  | nil => rfl
  | cons member members ih =>
    obtain ⟨first, value⟩ := member
    rw [List.map_cons, List.nodup_cons] at h
    by_cases hname : first = name
    · subst hname
      have hrest : members.filter (fun member => [first].contains member.1) = [] := by
        rw [List.filter_eq_nil_iff]
        intro member hm hcontains
        have hfirst : member.1 = first := by simpa using hcontains
        exact h.1 (List.mem_map.2 ⟨member, hm, hfirst⟩)
      rw [List.filter_cons_of_pos (by simp), hrest, List.lookup_cons_self]
      rfl
    · rw [List.filter_cons_of_neg (by simpa using hname), ih h.2, List.lookup_cons,
        beq_eq_false_iff_ne.2 (Ne.symm hname)]

/-- Of distinct names each is given once or not at all. -/
theorem slots_object (h : (members.map Prod.fst).Nodup) (names : List String) :
    (Json.object members).slots (names.map fun name => [name]) = some (names.map (members.lookup ·)) := by
  rw [slots]
  induction names with
  | nil => rfl
  | cons name names ih =>
    rw [List.map_cons, List.map_cons, List.mapM_cons, filter_name h, ih]
    cases members.lookup name <;> rfl

theorem lookup_memberIfSome (write : α → Json) (value : Option α) (key : String) :
    (memberIfSome name write value).lookup key = if key = name then value.map write else none := by
  cases value with
  | none => simp [memberIfSome]
  | some a =>
    by_cases hname : key = name
    · simp [memberIfSome, hname]
    · simp [memberIfSome, List.lookup_cons, beq_eq_false_iff_ne.2 hname, hname]

/-- What is written of a value that may be missing is read as this value, missing or not. -/
theorem optional_written {write : α → Json} {read : Json → Option α} (h : ∀ a, read (write a) = some a)
    (hn : ∀ a, write a ≠ .null) (value : Option α) : optional read (value.map write) = some value := by
  cases value with
  | none => rfl
  | some a =>
    rw [Option.map_some, optional, h a, Option.map_some]
    exact hn a

/-- Members of which some are left out, all of them as they usually are. -/
structure LeavesOut (usual all members : List (String × Json)) : Prop where
  sublist : members.Sublist all
  usual : ∀ member ∈ all, member ∈ members ∨ member ∈ usual

theorem LeavesOut.none : LeavesOut usual all all :=
  ⟨.refl all, fun _ hm => .inl hm⟩

theorem LeavesOut.lookup (h : LeavesOut usual all members) (ha : (all.map Prod.fst).Nodup)
    (hu : (usual.map Prod.fst).Nodup) (name : String) : members.lookup name = all.lookup name ∨
      members.lookup name = .none ∧ all.lookup name = usual.lookup name := by
  have hm : (members.map Prod.fst).Nodup := (h.sublist.map Prod.fst).nodup ha
  cases hgiven : members.lookup name with
  | some value =>
    have hmem := h.sublist.subset ((lookup_eq_some_iff hm).1 hgiven)
    exact .inl ((lookup_eq_some_iff ha).2 hmem).symm
  | none =>
    cases hfull : all.lookup name with
    | none => exact .inl rfl
    | some value =>
      rcases h.usual _ ((lookup_eq_some_iff ha).1 hfull) with hmem | hmem
      · cases hgiven.symm.trans ((lookup_eq_some_iff hm).2 hmem)
      · exact .inr ⟨rfl, ((lookup_eq_some_iff hu).2 hmem).symm⟩

/-- What is usually there need not be given where nothing is read as the same. -/
theorem read_left {read : Option Json → Option β} {slot full default : Option Json} {b : β}
    (h : slot = full ∨ slot = none ∧ full = default) (hfull : read full = some b) (hnone : read default = read none) :
    read slot = some b := by
  rcases h with rfl | ⟨rfl, rfl⟩
  · exact hfull
  · exact hnone.symm.trans hfull

end Members

end Json

section Words

theorem BillingMode.ofJson?_toJson (mode : BillingMode) : ofJson? mode.toJson = some mode := by
  cases mode <;> rfl

theorem StreamView.ofJson?_toJson (view : StreamView) : ofJson? view.toJson = some view := by
  cases view <;> rfl

theorem RemovalPolicy.ofJson?_toJson (policy : RemovalPolicy) : ofJson? policy.toJson = some policy := by
  cases policy <;> rfl

end Words

namespace TableSettings

/-- The members that are written of the settings. -/
def members (settings : TableSettings) : List (String × Json) :=
  [("billingMode", settings.billing.toJson), ("pointInTimeRecovery", .bool settings.pointInTimeRecovery)] ++
    Json.memberIfSome "timeToLiveAttribute" .string settings.timeToLiveAttribute ++
    Json.memberIfSome "stream" StreamView.toJson settings.stream ++
    [("deletionProtection", .bool settings.deletionProtection), ("removalPolicy", settings.removal.toJson)] ++
    Json.memberIfSome "readCapacity" Json.ofWord32 settings.readCapacity ++
    Json.memberIfSome "writeCapacity" Json.ofWord32 settings.writeCapacity

def settingNames : List String :=
  ["billingMode", "pointInTimeRecovery", "timeToLiveAttribute", "stream", "deletionProtection", "removalPolicy",
    "readCapacity", "writeCapacity"]

theorem nodup_members (settings : TableSettings) : (settings.members.map Prod.fst).Nodup := by
  cases ht : settings.timeToLiveAttribute <;> cases hs : settings.stream <;> cases hr : settings.readCapacity <;>
    cases hw : settings.writeCapacity <;> simp [members, Json.memberIfSome, ht, hs, hr, hw]

theorem lookup_members (settings : TableSettings) :
    settingNames.map (settings.members.lookup ·) = [some settings.billing.toJson,
      some (.bool settings.pointInTimeRecovery), settings.timeToLiveAttribute.map .string,
      settings.stream.map StreamView.toJson, some (.bool settings.deletionProtection), some settings.removal.toJson,
      settings.readCapacity.map Json.ofWord32, settings.writeCapacity.map Json.ofWord32] := by
  simp [settingNames, members, List.lookup_append, Json.lookup_memberIfSome, List.lookup_cons]

theorem ofJson?_leaving {settings : TableSettings} {members : List (String × Json)}
    (h : Json.LeavesOut default.members settings.members members) : ofJson? (.object members) = some settings := by
  have hnodup : (members.map Prod.fst).Nodup := (h.sublist.map Prod.fst).nodup settings.nodup_members
  have hslots := Json.slots_object hnodup settingNames
  have hall := settings.lookup_members
  simp only [settingNames, List.map_cons, List.map_nil, List.cons.injEq, and_true] at hslots hall
  obtain ⟨hbilling, hrecovery, htime, hstream, hprotection, hremoval, hcapacity, hwrite⟩ := hall
  have hfield : ∀ {β : Type} {read : Option Json → Option β} {name : String} {full : Option Json} {b : β},
      settings.members.lookup name = full → read full = some b → read (default.members.lookup name) = read none →
      read (members.lookup name) = some b := by
    rintro β read name _ b rfl hfull hnone
    exact Json.read_left (h.lookup settings.nodup_members default.nodup_members name) hfull hnone
  have htext : ∀ text : String, Json.string text ≠ .null := nofun
  have hread : ∀ text : String, (Json.string text).string? = some text := fun _ => rfl
  have hstring := Json.optional_written hread htext settings.timeToLiveAttribute
  have hview := Json.optional_written StreamView.ofJson?_toJson (fun view => htext view.word) settings.stream
  have hword := Json.optional_written Json.word32?_ofWord32 (fun _ => nofun)
  rw [ofJson?, hslots]
  refine Option.bind_eq_some_iff.2 ⟨_, hfield hbilling settings.billing.ofJson?_toJson rfl, ?_⟩
  refine Option.bind_eq_some_iff.2 ⟨_, hfield hrecovery rfl rfl, ?_⟩
  refine Option.bind_eq_some_iff.2 ⟨_, hfield htime hstring rfl, ?_⟩
  refine Option.bind_eq_some_iff.2 ⟨_, hfield hstream hview rfl, ?_⟩
  refine Option.bind_eq_some_iff.2 ⟨_, hfield hprotection rfl rfl, ?_⟩
  refine Option.bind_eq_some_iff.2 ⟨_, hfield hremoval settings.removal.ofJson?_toJson rfl, ?_⟩
  refine Option.bind_eq_some_iff.2 ⟨_, hfield hcapacity (hword _) rfl, ?_⟩
  exact Option.bind_eq_some_iff.2 ⟨_, hfield hwrite (hword _) rfl, rfl⟩

theorem shallow_members (settings : TableSettings) : ∀ member ∈ settings.members, member.2.Shallow := by
  simp only [members, List.forall_mem_append, List.forall_mem_cons, List.not_mem_nil, false_implies, implies_true,
    and_true]
  exact ⟨⟨⟨⟨⟨⟨Json.shallow_string _, Json.shallow_bool _⟩, Json.shallow_memberIfSome Json.shallow_string _⟩,
    Json.shallow_memberIfSome (fun view : StreamView => Json.shallow_string view.word) _⟩,
    Json.shallow_bool _, Json.shallow_string _⟩, Json.shallow_memberIfSome Json.shallow_ofWord32 _⟩,
    Json.shallow_memberIfSome Json.shallow_ofWord32 _⟩

theorem standsFor_leaving (settings : TableSettings) {members : List (String × Json)}
    (h : Json.LeavesOut default.members settings.members members) :
    Json.StandsFor ofJson? (.object members) settings :=
  Json.standsFor_object (ofJson?_leaving h) fun member hm => settings.shallow_members member (h.sublist.subset hm)

end TableSettings

namespace Projection

theorem ofJson?_toJson (projection : Projection) : ofJson? projection.toJson = some projection := by
  cases projection with
  | all | keysOnly => rfl
  | including attributes =>
    have hparts : ofParts? (.string "INCLUDE") (some (Json.ofStrings attributes)) = some (including attributes) := by
      simp [ofParts?, Json.constant?, Json.list?_ofStrings]
    exact hparts

theorem standsFor_toJson (projection : Projection) :
    Json.StandsFor ofJson? projection.toJson projection :=
  Json.standsFor_object projection.ofJson?_toJson (List.forall_mem_cons.2
    ⟨Json.shallow_string _, Json.shallow_memberIfSome Json.shallow_ofStrings _⟩)

end Projection

namespace Capacity

theorem ofJson?_toJson (capacity : Capacity) : ofJson? capacity.toJson = some capacity := by
  have hword := Json.optional_written Json.word32?_ofWord32 (fun _ => nofun)
  have hnodup : ((Json.memberIfSome "read" Json.ofWord32 capacity.read ++
      Json.memberIfSome "write" Json.ofWord32 capacity.write).map Prod.fst).Nodup := by
    cases hr : capacity.read <;> cases hw : capacity.write <;> simp [Json.memberIfSome]
  have hslots := Json.slots_object hnodup ["read", "write"]
  simp only [List.map_cons, List.map_nil, List.lookup_append, Json.lookup_memberIfSome] at hslots
  rw [ofJson?, toJson, hslots]
  refine Option.bind_eq_some_iff.2 ⟨_, ?_, Option.bind_eq_some_iff.2 ⟨_, ?_, rfl⟩⟩
  · simp [hword]
  · simp [hword]

theorem standsFor_toJson (capacity : Capacity) : Json.StandsFor ofJson? capacity.toJson capacity :=
  Json.standsFor_object capacity.ofJson?_toJson (List.forall_mem_append.2
    ⟨Json.shallow_memberIfSome Json.shallow_ofWord32 _, Json.shallow_memberIfSome Json.shallow_ofWord32 _⟩)

end Capacity

namespace KeyAttribute

theorem ofJson?_toJson (key : KeyAttribute) : ofJson? key.toJson = some key := by
  obtain ⟨name, type⟩ := key
  cases type <;> rfl

theorem standsFor_toJson (key : KeyAttribute) : Json.StandsFor ofJson? key.toJson key :=
  Json.standsFor_object key.ofJson?_toJson (List.forall_mem_cons.2
    ⟨Json.shallow_string _, List.forall_mem_singleton.2 (Json.shallow_string _)⟩)

end KeyAttribute

/-- What storage is set up with is read back from the JSON that is written of it, as a value and from either text. Of
the settings of a table any members may be left out that are written of the default settings as well. -/
theorem storage_documents_stand :
    (∀ settings : TableSettings, Json.StandsFor TableSettings.ofJson? settings.toJson settings ∧
      ∀ members, Json.LeavesOut TableSettings.default.members settings.members members →
        Json.StandsFor TableSettings.ofJson? (.object members) settings) ∧
    (∀ projection : Projection, Json.StandsFor Projection.ofJson? projection.toJson projection) ∧
    (∀ capacity : Capacity, Json.StandsFor Capacity.ofJson? capacity.toJson capacity) ∧
    ∀ key : KeyAttribute, Json.StandsFor KeyAttribute.ofJson? key.toJson key := by
  refine ⟨fun settings => ⟨?_, fun members h => ?_⟩, Projection.standsFor_toJson, Capacity.standsFor_toJson,
    KeyAttribute.standsFor_toJson⟩
  · exact settings.standsFor_leaving .none
  · exact settings.standsFor_leaving h

/-- Provisioned settings without recovery. -/
def keptDogs : TableSettings :=
  { TableSettings.default with
    billing := .provisioned, pointInTimeRecovery := false, stream := some .newAndOldImages, readCapacity := some 5,
    writeCapacity := some 4294967295 }

theorem keptDogs_stand : Json.StandsFor TableSettings.ofJson? (.object [("billingMode", .string "PROVISIONED"),
    ("pointInTimeRecovery", .bool false), ("stream", .string "NEW_AND_OLD_IMAGES"), ("readCapacity", .int 5),
    ("writeCapacity", .int 4294967295)]) keptDogs := by
  refine (storage_documents_stand.1 keptDogs).2 _ ⟨?_, ?_⟩
  · decide
  · decide

end TableApi
