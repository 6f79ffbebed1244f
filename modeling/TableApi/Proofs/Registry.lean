import TableApi.Proofs.Updating

/-! What a registry holds after types are registered and fields are added. -/
namespace TableApi

namespace OrderedMap

variable {α : Type} {map : OrderedMap α} {name key : String} {value : α}

theorem get?_eq_some_iff : map.get? name = some value ↔ (name, value) ∈ map.entries := by
  have h : ∀ entries : List (String × α), (entries.map Prod.fst).Nodup →
      (entries.lookup name = some value ↔ (name, value) ∈ entries) := by
    intro entries hn
    induction entries with
    | nil => simp
    | cons entry rest ih =>
      obtain ⟨n, v⟩ := entry
      obtain ⟨hne, hrest⟩ := List.nodup_cons.1 hn
      by_cases he : name = n
      · subst he
        have hnot : (name, value) ∉ rest := fun hm => hne (List.mem_map.2 ⟨_, hm, rfl⟩)
        simp [hnot, eq_comm]
      · simp [List.lookup_cons, beq_eq_false_iff_ne.2 he, he, ih hrest]
  exact h map.entries map.nodup

theorem get?_eq_none_iff : map.get? name = none ↔ name ∉ map.names := by
  rw [Option.eq_none_iff_forall_not_mem]
  constructor
  · intro h hn
    obtain ⟨⟨n, v⟩, hm, rfl⟩ := List.mem_map.1 hn
    exact h v (get?_eq_some_iff.2 hm)
  · intro h v hv
    exact h (List.mem_map.2 ⟨_, get?_eq_some_iff.1 hv, rfl⟩)

theorem putEntry_fresh {entries : List (String × α)} (h : name ∉ entries.map Prod.fst) :
    putEntry name value entries = entries ++ [(name, value)] := by
  induction entries with
  | nil => rfl
  | cons entry rest ih =>
    simp only [List.map_cons, List.mem_cons, not_or] at h
    simp [putEntry, Ne.symm h.1, ih h.2]

theorem entries_insert_fresh (h : map.get? name = none) :
    (map.insert name value).entries = map.entries ++ [(name, value)] :=
  putEntry_fresh (get?_eq_none_iff.1 h)

@[simp] theorem get?_modify {change : α → α} :
    (map.modify name change).get? key =
      if key = name then (map.get? key).map change else map.get? key := by
  have h : ∀ entries : List (String × α),
      (entries.map fun entry => if entry.1 = name then (entry.1, change entry.2) else entry).lookup key =
        if key = name then (entries.lookup key).map change else entries.lookup key := by
    intro entries
    induction entries with
    | nil => simp
    | cons entry rest ih =>
      obtain ⟨n, v⟩ := entry
      by_cases hk : key = n
      · subst hk
        by_cases he : key = name <;> simp [he]
      · have hb : (key == n) = false := beq_eq_false_iff_ne.2 hk
        by_cases he : n = name
        · subst he
          simp only [List.map_cons, if_true, List.lookup_cons, hb, ih]
        · simp only [List.map_cons, he, if_false, List.lookup_cons, hb, ih]
  exact h map.entries

end OrderedMap

namespace TypeDefinition

variable {d : TypeDefinition} {field : FieldDefinition}

@[simp] theorem addField_name : (d.addField field).name = d.name := by
  unfold addField
  split <;> rfl

@[simp] theorem addField_category : (d.addField field).category = d.category := by
  unfold addField category
  split
  · next h => simp [h, TypeBody.category]
  · rfl

theorem category_eq_type_iff : d.category = .type ↔ ∃ fields, d.body = .object fields := by
  unfold category
  cases d.body <;> simp [TypeBody.category]

theorem addField_fields (h : d.category = .type) : (d.addField field).fields = d.fields ++ [field] := by
  obtain ⟨fields, hb⟩ := category_eq_type_iff.1 h
  simp [addField, TypeDefinition.fields, hb, TypeBody.fields]

end TypeDefinition

namespace Registry

variable {registry after : Registry} {d e result : TypeDefinition} {name other : String}
  {field : FieldDefinition}

/-- Enters a definition under the key of its name. -/
def enter (registry : Registry) (d : TypeDefinition) : Registry :=
  ⟨registry.types.insert (lookupKey d.name) d⟩

theorem register_ok_iff :
    registry.register d = .ok (result, after) ↔ Scalar.ofName? d.name = none ∧
      ((registry.get? d.name = none ∧ result = d ∧ after = registry.enter d) ∨
        (registry.get? d.name = some result ∧ result.category = d.category ∧ after = registry)) := by
  unfold register
  cases hs : Scalar.ofName? d.name with
  | some scalar => simp
  | none =>
    cases hg : registry.get? d.name with
    | none => simp [enter, eq_comm]
    | some existing =>
      by_cases hc : existing.category = d.category
      · simp only [Option.isSome_none, Bool.false_eq_true, if_false, hc, if_true,
          Except.ok.injEq, Prod.mk.injEq, true_and, reduceCtorEq, false_and, false_or,
          Option.some.injEq]
        constructor
        · rintro ⟨rfl, rfl⟩
          exact ⟨rfl, hc, rfl⟩
        · rintro ⟨rfl, _, rfl⟩
          exact ⟨rfl, rfl⟩
      · simp only [Option.isSome_none, Bool.false_eq_true, if_false, hc, true_and, reduceCtorEq,
          false_and, false_or, Option.some.injEq, false_iff]
        rintro ⟨rfl, h, _⟩
        exact hc h

theorem get?_congr (h : lookupKey name = lookupKey other) : registry.get? name = registry.get? other := by
  rw [get?, get?, h]

@[simp] theorem get?_enter :
    (registry.enter d).get? name =
      if lookupKey name = lookupKey d.name then some d else registry.get? name :=
  OrderedMap.get?_insert ..

@[simp] theorem get?_addField :
    (registry.addField other field).get? name =
      if lookupKey name = lookupKey other then (registry.get? name).map (·.addField field)
      else registry.get? name :=
  OrderedMap.get?_modify

theorem register_get? (h : registry.register d = .ok (result, after)) :
    after.get? d.name = some result := by
  obtain ⟨_, ⟨_, rfl, rfl⟩ | ⟨hg, _, rfl⟩⟩ := register_ok_iff.1 h
  · simp
  · exact hg

/-- A type that is there stays as it is. -/
theorem register_keeps (h : registry.register d = .ok (result, after))
    (he : registry.get? name = some e) : after.get? name = some e := by
  obtain ⟨_, ⟨hn, rfl, rfl⟩ | ⟨_, _, rfl⟩⟩ := register_ok_iff.1 h
  · have hk : lookupKey name ≠ lookupKey result.name := by
      intro hk
      rw [get?_congr hk, hn] at he
      cases he
    simpa [hk] using he
  · exact he

/-- Every definition is entered under the key of its own name. -/
def Keyed (registry : Registry) : Prop :=
  ∀ entry ∈ registry.types.entries, entry.1 = lookupKey entry.2.name

theorem keyed_empty : Keyed empty := by
  intro entry he
  cases he

theorem Keyed.enter (h : registry.Keyed) (hn : registry.get? d.name = none) :
    (registry.enter d).Keyed := by
  intro entry he
  rw [Registry.enter, OrderedMap.entries_insert_fresh hn, List.mem_append, List.mem_singleton] at he
  rcases he with he | rfl
  · exact h entry he
  · rfl

theorem Keyed.register (h : registry.Keyed) (hr : registry.register d = .ok (result, after)) :
    after.Keyed := by
  obtain ⟨_, ⟨hn, _, rfl⟩ | ⟨_, _, rfl⟩⟩ := register_ok_iff.1 hr
  · exact h.enter hn
  · exact h

theorem Keyed.addField (h : registry.Keyed) : (registry.addField name field).Keyed := by
  intro entry he
  obtain ⟨old, ho, rfl⟩ := List.mem_map.1 he
  by_cases hk : old.1 = lookupKey name
  · simpa [hk] using hk ▸ h old ho
  · simpa [hk] using h old ho

theorem Keyed.mem_definitions_iff (h : registry.Keyed) :
    d ∈ registry.definitions ↔ registry.get? d.name = some d := by
  rw [get?, OrderedMap.get?_eq_some_iff, definitions, List.mem_map]
  constructor
  · rintro ⟨entry, he, rfl⟩
    rw [← h entry he]
    exact he
  · intro he
    exact ⟨_, he, rfl⟩

theorem Keyed.key_of_get? (h : registry.Keyed) (he : registry.get? name = some e) :
    lookupKey e.name = lookupKey name :=
  (h _ (OrderedMap.get?_eq_some_iff.1 he)).symm

theorem Keyed.get?_mem (h : registry.Keyed) (he : registry.get? name = some e) :
    e ∈ registry.definitions := by
  rw [h.mem_definitions_iff, get?_congr (h.key_of_get? he), he]

/-- Two definitions under one key are the same one. -/
theorem Keyed.eq_of_key (h : registry.Keyed) (hd : d ∈ registry.definitions)
    (he : e ∈ registry.definitions) (hk : lookupKey d.name = lookupKey e.name) : d = e := by
  rw [h.mem_definitions_iff] at hd he
  rw [get?_congr hk, he] at hd
  exact (Option.some.inj hd).symm

theorem definitions_enter (hn : registry.get? d.name = none) :
    (registry.enter d).definitions = registry.definitions ++ [d] := by
  rw [definitions, enter, OrderedMap.entries_insert_fresh hn, List.map_append]
  rfl

theorem Keyed.mem_addField_iff (h : registry.Keyed) (he : registry.get? name = some e) :
    d ∈ (registry.addField name field).definitions ↔
      (d ∈ registry.definitions ∧ lookupKey d.name ≠ lookupKey name) ∨ d = e.addField field := by
  rw [h.addField.mem_definitions_iff, h.mem_definitions_iff, get?_addField]
  by_cases hk : lookupKey d.name = lookupKey name
  · simp [hk, get?_congr hk, he, eq_comm]
  · simp only [hk, if_false, not_false_eq_true, ne_eq, and_true, iff_self_or]
    rintro rfl
    exact absurd ((congrArg lookupKey TypeDefinition.addField_name).trans (h.key_of_get? he)) hk

/-- Registering the types one after another turns the one registry into the other. -/
inductive Registers : Registry → List TypeDefinition → Registry → Prop
  | nil (registry : Registry) : Registers registry [] registry
  | cons {registry mid after : Registry} {d result : TypeDefinition} {types : List TypeDefinition} :
      registry.register d = .ok (result, mid) → Registers mid types after →
      Registers registry (d :: types) after

variable {types : List TypeDefinition}

@[simp] theorem registers_nil_iff : Registers registry [] after ↔ after = registry := by
  constructor
  · intro h
    cases h
    rfl
  · rintro rfl
    exact .nil _

@[simp] theorem registers_cons_iff :
    Registers registry (d :: types) after ↔
      ∃ result mid, registry.register d = .ok (result, mid) ∧ Registers mid types after := by
  constructor
  · intro h
    cases h with
    | cons hr h => exact ⟨_, _, hr, h⟩
  · rintro ⟨_, _, hr, h⟩
    exact .cons hr h

theorem Registers.keeps (h : Registers registry types after) (he : registry.get? name = some e) :
    after.get? name = some e := by
  induction h with
  | nil => exact he
  | cons hr _ ih => exact ih (register_keeps hr he)

theorem Registers.keyed (h : Registers registry types after) (hk : registry.Keyed) : after.Keyed := by
  induction h with
  | nil => exact hk
  | cons hr _ ih => exact ih (hk.register hr)

/-- Types with new keys are entered as they are. -/
theorem Registers.of_fresh (hn : (types.map fun d => lookupKey d.name).Nodup)
    (hs : ∀ d ∈ types, Scalar.ofName? d.name = none) (hf : ∀ d ∈ types, registry.get? d.name = none) :
    ∃ after, Registers registry types after := by
  induction types generalizing registry with
  | nil => exact ⟨registry, .nil registry⟩
  | cons d types ih =>
    obtain ⟨hd, hn⟩ := List.nodup_cons.1 hn
    rw [List.forall_mem_cons] at hs hf
    have hr : registry.register d = .ok (d, registry.enter d) :=
      register_ok_iff.2 ⟨hs.1, .inl ⟨hf.1, rfl, rfl⟩⟩
    have hrest : ∀ e ∈ types, (registry.enter d).get? e.name = none := by
      intro e he
      have hk : lookupKey e.name ≠ lookupKey d.name := by
        intro hk
        exact hd (List.mem_map.2 ⟨e, he, hk⟩)
      simpa [hk] using hf.2 e he
    obtain ⟨after, ha⟩ := ih hn hs.2 hrest
    exact ⟨after, .cons hr ha⟩

theorem Registers.definitions_of_fresh (h : Registers registry types after)
    (hn : (types.map fun d => lookupKey d.name).Nodup) (hf : ∀ d ∈ types, registry.get? d.name = none) :
    after.definitions = registry.definitions ++ types := by
  induction h with
  | nil => simp
  | cons hr _ ih =>
    obtain ⟨hd, hrest⟩ := List.nodup_cons.1 hn
    rw [List.forall_mem_cons] at hf
    obtain ⟨_, ⟨_, rfl, rfl⟩ | ⟨hg, _⟩⟩ := register_ok_iff.1 hr
    · rw [ih hrest, definitions_enter hf.1]
      · simp
      · intro e he
        have hk : lookupKey e.name ≠ lookupKey _ := fun hk => hd (List.mem_map.2 ⟨e, he, hk⟩)
        simpa [hk] using hf.2 e he
    · rw [hf.1] at hg
      cases hg

end Registry

end TableApi
