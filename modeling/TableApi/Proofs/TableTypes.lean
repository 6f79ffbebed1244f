import TableApi.Proofs.SchemaUpdates

/-! Tables that come from declarations, and the two types each of them is registered with. -/
namespace TableApi

theorem isNameChar_of_start {c : Char} (h : isNameStart c) : isNameChar c := by
  simp only [isNameStart, isNameChar, Bool.or_eq_true, decide_eq_true_eq, Char.isAlphanum] at h ⊢
  rcases h with h | h
  · exact .inl h
  · exact .inr (.inl h)

theorem toNat_lt_of_isNameChar {c : Char} (h : isNameChar c) : c.toNat < 128 := by
  have hbound : ∀ last : UInt32, last < 128 → c.val ≤ last → c.toNat < 128 := fun last hlast hc =>
    UInt32.lt_iff_toNat_lt.1 (UInt32.lt_of_le_of_lt hc hlast)
  rcases Bool.or_eq_true_iff.1 h with hmark | halphanum
  · obtain rfl : c = '_' := of_decide_eq_true hmark
    decide
  · rcases Bool.or_eq_true_iff.1 halphanum with halpha | hdigit
    · rcases Bool.or_eq_true_iff.1 halpha with hupper | hlower
      · exact hbound 90 (by decide) (of_decide_eq_true hupper).2
      · exact hbound 122 (by decide) (of_decide_eq_true (Bool.and_eq_true_iff.1 hlower).2)
    · exact hbound 57 (by decide) (of_decide_eq_true (Bool.and_eq_true_iff.1 hdigit).2)

/-- What holds of all codes under a bound holds of the characters there. -/
theorem char_of_codes {p : Char → Prop} {bound : Nat} {c : Char} (h : ∀ code < bound, p (Char.ofNat code))
    (hc : c.toNat < bound) : p c :=
  Char.ofNat_toNat c ▸ h c.toNat hc

theorem isLegalName_append {name suffix : String} (h : isLegalName name)
    (hs : suffix.toList.all isNameChar) : isLegalName (name ++ suffix) := by
  unfold isLegalName at h ⊢
  rw [String.toList_append]
  cases hn : name.toList with
  | nil => simp [hn] at h
  | cons c cs =>
    simp only [hn, Bool.and_eq_true] at h
    simp only [List.cons_append, Bool.and_eq_true, List.all_append]
    exact ⟨h.1, h.2, hs⟩

theorem isNameChar_of_legal {name : String} (h : isLegalName name) : ∀ c ∈ name.toList, isNameChar c := by
  unfold isLegalName at h
  cases hn : name.toList with
  | nil => simp
  | cons c cs =>
    simp only [hn, Bool.and_eq_true, List.all_eq_true] at h
    exact List.forall_mem_cons.2 ⟨isNameChar_of_start h.1, h.2⟩

namespace TypeDefinition

theorem strippedName_of_legal {name : String} (h : isLegalName name) : strippedName name = name := by
  rw [strippedName, List.filter_eq_self.2 (isNameChar_of_legal h), String.ofList_toList]

/-- A legal name is kept as it is. -/
theorem make_of_legal {name : String} {body : TypeBody} {interfaces : List String}
    (h : isLegalName name) (hb : body.category ≠ .enum) :
    make name body interfaces = .ok ⟨name, interfaces, body⟩ := by
  have hu : usableName name = .ok name := by
    simp [usableName, strippedName_of_legal h, h]
  unfold make
  rw [hu]
  cases body with
  | enum values => exact absurd rfl hb
  | _ => rfl

end TypeDefinition

namespace Table

variable {table : Table} {types : List TypeDefinition}

/-- The table was built from a declaration; its settings may have been changed since. -/
def Accepted (table : Table) : Prop :=
  ∃ declaration label built settings,
    ofDeclaration declaration label = .ok built ∧ table = built.withSettings settings

theorem accepted_of_declaration {declaration : TableDeclaration} {label : Option String}
    (h : ofDeclaration declaration label = .ok table) : table.Accepted :=
  ⟨declaration, label, table, table.settings, h, rfl⟩

theorem Accepted.withSettings (h : table.Accepted) (settings : TableSettings) :
    (table.withSettings settings).Accepted := by
  obtain ⟨declaration, label, built, old, hb, rfl⟩ := h
  exact ⟨declaration, label, built, settings, hb, rfl⟩

section Faults

variable {attributes : Attributes}

theorem nameComplaints_eq_nil_iff {name : String} :
    nameComplaints name = [] ↔ isLegalName name ∧ ∀ root : RootType, name ≠ root.typeName := by
  have hroot : RootType.all.any (·.typeName = name) ↔ ∃ root : RootType, name = root.typeName := by
    rw [List.any_eq_true]
    constructor
    · rintro ⟨root, _, hname⟩
      exact ⟨root, (of_decide_eq_true hname).symm⟩
    · rintro ⟨root, rfl⟩
      exact ⟨root, root.mem_all, decide_eq_true rfl⟩
  unfold nameComplaints
  cases isLegalName name with
  | false => simp
  | true => simpa using (not_congr hroot).trans not_exists

theorem keyComplaints_eq_nil_iff {use : KeyUse} {key : Key} :
    keyComplaints attributes use key = [] ↔ key.name ∈ attributes.names := by
  simp [keyComplaints, OrderedMap.contains]

theorem attributeComplaints_eq_nil_iff {entry : String × String} : attributeComplaints entry = [] ↔
    isLegalName entry.1 ∧ ∃ type, TypeRef.parse? entry.2 = some type := by
  unfold attributeComplaints
  cases isLegalName entry.1 <;> cases TypeRef.parse? entry.2 <;> simp

theorem indexComplaints_eq_nil_iff {name : String} {keys : List Key} :
    indexComplaints attributes name keys = [] ↔
      isIndexName name ∧ ∀ key ∈ keys, key.name ∈ attributes.names := by
  simp [indexComplaints, keyComplaints_eq_nil_iff]

end Faults

theorem forall_mem_allKeys_iff {p : Key → Prop} : (∀ key ∈ table.allKeys, p key) ↔
    p table.primary.partition ∧ (∀ key ∈ table.primary.sort.toList, p key) ∧
      (∀ index ∈ table.globalIndexes, ∀ key ∈ index.keys, p key) ∧
      ∀ index ∈ table.localIndexes, p index.sort := by
  simp only [allKeys, PrimaryKey.keys, List.forall_mem_append, List.forall_mem_cons, List.forall_mem_flatMap,
    List.forall_mem_map, and_assoc]

/-- Nothing is wrong with the table. -/
structure Faultless (table : Table) : Prop where
  name : isLegalName table.baseName
  root : ∀ root : RootType, table.baseName ≠ root.typeName
  attributes : ∀ entry ∈ table.attributes.entries,
    isLegalName entry.1 ∧ ∃ type, TypeRef.parse? entry.2 = some type
  keys : ∀ key ∈ table.allKeys, key.name ∈ table.attributes.names
  globalNames : ∀ index ∈ table.globalIndexes, isIndexName index.name
  localNames : ∀ index ∈ table.localIndexes, isIndexName index.name
  billing : table.settings.BillingRule

theorem complaints_eq_nil_iff : table.complaints = [] ↔ table.Faultless := by
  simp only [complaints, List.append_eq_nil_iff, List.flatMap_eq_nil_iff, nameComplaints_eq_nil_iff,
    keyComplaints_eq_nil_iff, attributeComplaints_eq_nil_iff, indexComplaints_eq_nil_iff,
    Option.toList_eq_nil_iff, TableSettings.complaint?_eq_none_iff]
  constructor
  · rintro ⟨⟨⟨⟨⟨⟨⟨hname, hroot⟩, hpartition⟩, hsort⟩, hattributes⟩, hglobal⟩, hlocal⟩, hbilling⟩
    have hkeys : ∀ key ∈ table.allKeys, key.name ∈ table.attributes.names :=
      forall_mem_allKeys_iff.2 ⟨hpartition, hsort, fun index hi => (hglobal index hi).2,
        fun index hi => (hlocal index hi).2 _ List.mem_cons_self⟩
    exact ⟨hname, hroot, hattributes, hkeys, fun index hi => (hglobal index hi).1,
      fun index hi => (hlocal index hi).1, hbilling⟩
  · intro h
    obtain ⟨hpartition, hsort, hglobal, hlocal⟩ := forall_mem_allKeys_iff.1 h.keys
    refine ⟨⟨⟨⟨⟨⟨⟨h.name, h.root⟩, hpartition⟩, hsort⟩, h.attributes⟩, ?_⟩, ?_⟩, h.billing⟩
    · intro index hi
      exact ⟨h.globalNames index hi, hglobal index hi⟩
    · intro index hi
      exact ⟨h.localNames index hi, List.forall_mem_singleton.2 (hlocal index hi)⟩

theorem ofDeclaration_ok_iff {declaration : TableDeclaration} {label : Option String} :
    ofDeclaration declaration label = .ok table ↔ assemble declaration label = .ok table ∧ table.Faultless := by
  simp only [ofDeclaration, Except.bind_ok_iff, check_eq_ok_iff, complaints_eq_nil_iff]
  constructor
  · rintro ⟨_, ha, hf, rfl⟩
    exact ⟨ha, hf⟩
  · rintro ⟨ha, hf⟩
    exact ⟨table, ha, hf, rfl⟩

theorem faultless_of_declaration {declaration : TableDeclaration} {label : Option String}
    (h : ofDeclaration declaration label = .ok table) : table.Faultless :=
  (ofDeclaration_ok_iff.1 h).2

/-- Nothing is wrong with the table but for what changed settings may be. -/
theorem Accepted.exists_settings (h : table.Accepted) :
    ∃ settings, (table.withSettings settings).Faultless := by
  obtain ⟨declaration, label, built, settings, hb, rfl⟩ := h
  exact ⟨built.settings, faultless_of_declaration hb⟩

/-- A table has not the name of a root. -/
theorem Accepted.name_ne_root (h : table.Accepted) (root : RootType) : table.baseName ≠ root.typeName := by
  obtain ⟨_, hf⟩ := h.exists_settings
  exact hf.root root

theorem Accepted.legalName (h : table.Accepted) : isLegalName table.baseName := by
  obtain ⟨_, hf⟩ := h.exists_settings
  exact hf.name

theorem Accepted.exists_type (h : table.Accepted) {entry : String × String}
    (he : entry ∈ table.attributes.entries) : ∃ type, TypeRef.parse? entry.2 = some type := by
  obtain ⟨_, hf⟩ := h.exists_settings
  exact (hf.attributes entry he).2

/-- The keys of a table and of its indexes are among its attributes. -/
theorem Accepted.key_declared (h : table.Accepted) {key : Key} (hk : key ∈ table.allKeys) :
    key.name ∈ table.attributes.names := by
  obtain ⟨_, hf⟩ := h.exists_settings
  exact hf.keys key hk

theorem Accepted.legal_attribute {name : String} (h : table.Accepted) (hn : name ∈ table.attributes.names) :
    isLegalName name := by
  obtain ⟨_, hf⟩ := h.exists_settings
  obtain ⟨entry, he, rfl⟩ := List.mem_map.1 hn
  exact (hf.attributes entry he).1

theorem Accepted.legal_key (h : table.Accepted) {key : Key} (hk : key ∈ table.allKeys) :
    isLegalName key.name :=
  h.legal_attribute (h.key_declared hk)

/-- The names of indexes are such as storage takes. -/
theorem Accepted.indexNames (h : table.Accepted) :
    (∀ index ∈ table.globalIndexes, isIndexName index.name) ∧
      ∀ index ∈ table.localIndexes, isIndexName index.name := by
  obtain ⟨_, hf⟩ := h.exists_settings
  exact ⟨hf.globalNames, hf.localNames⟩

theorem mem_inputAttributes {entry : String × String} :
    entry ∈ table.inputAttributes.entries ↔
      entry ∈ table.attributes.entries ∧ entry.1 ∉ table.primary.names := by
  simp [inputAttributes, OrderedMap.filterNames]

theorem inputTypeName_eq_some_iff {name : String} : table.inputTypeName = some name ↔
    (∃ entry ∈ table.attributes.entries, entry.1 ∉ table.primary.names) ∧ name = table.baseName ++ "Input" := by
  have he : table.inputAttributes.isEmpty = true ↔
      ¬ ∃ entry ∈ table.attributes.entries, entry.1 ∉ table.primary.names := by
    simp only [OrderedMap.isEmpty, List.isEmpty_iff, List.eq_nil_iff_forall_not_mem,
      mem_inputAttributes, not_exists]
  unfold inputTypeName
  by_cases h : table.inputAttributes.isEmpty = true
  · simp [h, he.1 h]
  · have hex := not_not.1 (mt he.2 h)
    simp [h, hex, eq_comm]

/-- The names of a table's types. -/
def typeNames (table : Table) : List String :=
  table.baseName :: table.inputTypeName.toList

theorem typeNames_nodup (table : Table) : table.typeNames.Nodup := by
  unfold typeNames
  cases hi : table.inputTypeName with
  | none => simp
  | some name =>
    have hne : table.baseName ≠ name := by
      rw [(inputTypeName_eq_some_iff.1 hi).2]
      intro he
      have hl := congrArg String.length he
      rw [String.length_append] at hl
      exact absurd hl (by simp)
    simp [hne]

theorem types_ok_iff (h : isLegalName table.baseName) :
    table.types = .ok types ↔ ∃ fields, Declares table.attributes.entries fields ∧
      ((table.inputTypeName = none ∧ types = [⟨table.baseName, [], .object fields⟩]) ∨
        ∃ name inputs, table.inputTypeName = some name ∧ Declares table.inputAttributes.entries inputs ∧
          types = [⟨table.baseName, [], .object fields⟩, ⟨name, [], .input inputs⟩]) := by
  have ho : ∀ fields, TypeDefinition.make table.baseName (.object fields) [] = .ok _ :=
    fun fields => TypeDefinition.make_of_legal h (by simp [TypeBody.category])
  simp only [Table.types, Except.bind_ok_iff, FieldDefinition.ofAttributes_ok_iff, ho,
    Except.ok.injEq, exists_eq_left']
  cases hi : table.inputTypeName with
  | none =>
    simp only [Except.pure_ok_iff, eq_comm (b := types), true_and, reduceCtorEq, false_and,
      exists_false, or_false]
  | some name =>
    have hl : isLegalName name := by
      rw [(inputTypeName_eq_some_iff.1 hi).2]
      exact isLegalName_append h (by decide)
    have hm : ∀ inputs, TypeDefinition.make name (.input inputs) [] = .ok _ :=
      fun inputs => TypeDefinition.make_of_legal hl (by simp [TypeBody.category])
    simp only [Except.bind_ok_iff, FieldDefinition.ofAttributes_ok_iff, hm, Except.ok.injEq,
      exists_eq_left', Except.pure_ok_iff, eq_comm (b := types), reduceCtorEq, false_and, false_or,
      Option.some.injEq, exists_and_left]

theorem types_names (h : isLegalName table.baseName) (ht : table.types = .ok types) :
    types.map TypeDefinition.name = table.typeNames := by
  obtain ⟨fields, _, ⟨hi, rfl⟩ | ⟨name, inputs, hi, _, rfl⟩⟩ := (types_ok_iff h).1 ht <;>
    simp [typeNames, hi]

theorem Accepted.exists_types (h : table.Accepted) : ∃ types, table.types = .ok types := by
  have hdeclared : ∀ attributes : Attributes, (∀ entry ∈ attributes.entries,
      entry ∈ table.attributes.entries) → ∃ fields, Declares attributes.entries fields := by
    intro attributes hsub
    simp only [← FieldDefinition.ofAttributes_ok_iff, FieldDefinition.ofAttributes,
      Except.exists_mapM_ok_iff]
    intro entry he
    obtain ⟨type, ht⟩ := h.exists_type (hsub entry he)
    exact ⟨⟨entry.1, [], type⟩, by simp [Key.parseType_ok_iff, ht]⟩
  obtain ⟨fields, hf⟩ := hdeclared table.attributes fun _ he => he
  obtain ⟨inputs, hg⟩ := hdeclared table.inputAttributes fun _ he => (mem_inputAttributes.1 he).1
  simp only [types_ok_iff h.legalName]
  cases hi : table.inputTypeName with
  | none => exact ⟨_, fields, hf, .inl ⟨rfl, rfl⟩⟩
  | some name => exact ⟨_, fields, hf, .inr ⟨name, inputs, rfl, hg, rfl⟩⟩

end Table

namespace Config

variable {config : Config} {label : Option String} {tables : List Table}

/-- The tables that come ready built have been built from declarations. -/
def BuiltAccepted (config : Config) : Prop :=
  ∀ table, TableEntry.built table ∈ config.tables → table.Accepted

theorem buildTable_accepted {entry : TableEntry} {table : Table} (hb : config.BuiltAccepted)
    (he : entry ∈ config.tables) (h : config.buildTable label entry = .ok table) : table.Accepted := by
  cases entry with
  | declared declaration => exact Table.accepted_of_declaration h
  | built given =>
    have hg := hb given he
    simp only [buildTable] at h
    split at h
    · cases h
    · split at h
      · obtain rfl := Except.ok.inj h
        exact hg.withSettings _
      · obtain rfl := Except.ok.inj h
        exact hg

theorem buildTables_ok_iff : config.buildTables label = .ok tables ↔
    config.tables ≠ [] ∧ config.tables.mapM (config.buildTable label) = .ok tables := by
  cases h : config.tables with
  | nil => simp [buildTables, h]
  | cons entry entries => simp [buildTables, h]

theorem exists_entry {table : Table} (h : config.buildTables label = .ok tables) (ht : table ∈ tables) :
    ∃ entry ∈ config.tables, config.buildTable label entry = .ok table :=
  Except.exists_of_mapM_ok (buildTables_ok_iff.1 h).2 ht

theorem buildTables_accepted (hb : config.BuiltAccepted) (h : config.buildTables label = .ok tables) :
    ∀ table ∈ tables, table.Accepted := by
  intro table ht
  obtain ⟨entry, he, hbuild⟩ := exists_entry h ht
  exact buildTable_accepted hb he hbuild

end Config

end TableApi
