import TableApi.Proofs.RegisteredTypes

/-! A registry as a list of types with an index of their positions. Call by call it does what the registry under
lookup keys does, and no position that it looks up is out of range. What it holds is told by the definitions that
were registered without refusal. -/
namespace TableApi

namespace Registry

variable {registry after : Registry} {d e : TypeDefinition} {field : FieldDefinition} {name : String}

/-- The definition, if it is registered without refusal. -/
def accepted (registry : Registry) (d : TypeDefinition) : List TypeDefinition :=
  match registry.register d with
  | .ok _ => [d]
  | .error _ => []

theorem accepted_of_ok {result : TypeDefinition × Registry} (h : registry.register d = .ok result) :
    registry.accepted d = [d] := by
  rw [accepted, h]

theorem accepted_of_error {f : Error} (h : registry.register d = .error f) : registry.accepted d = [] := by
  rw [accepted, h]

end Registry

namespace Schema

variable {s : Schema} {d : TypeDefinition} {root : RootType} {field : FieldDefinition}

theorem outcome_register : outcome (register d) s =
    match s.registry.register d with
    | .ok (e, r) => (.ok e, { s with registry := r })
    | .error e => (.error e, s) := by
  rw [register, outcome_get_bind, outcome_bind]
  cases s.registry.register d <;> rfl

theorem outcome_useRoot : outcome (useRoot root) s =
    if root ∈ s.roots then (.ok (), s)
    else
      match s.registry.register root.emptyType with
      | .ok (_, r) => (.ok (), { s with registry := r, roots := s.roots ++ [root] })
      | .error e => (.error e, s) := by
  rw [useRoot, outcome_get_bind]
  by_cases h : root ∈ s.roots
  · simp only [List.contains_eq_mem, h, decide_true, if_true]
    rfl
  · have hr : outcome (register ⟨root.typeName, [], .object []⟩) s = _ := outcome_register
    simp only [List.contains_eq_mem, h, decide_false, Bool.false_eq_true, if_false, outcome_bind, hr,
      RootType.emptyType]
    cases s.registry.register ⟨root.typeName, [], .object []⟩ <;> rfl

/-- What an added field meets once its root is in use. -/
theorem outcome_addRootField : outcome (addRootField root field) s =
    match outcome (useRoot root) s with
    | (.error e, u) => (.error e, u)
    | (.ok (), u) =>
      match u.registry.get? root.typeName with
      | some ⟨_, _, .object fields⟩ =>
        if fields.any (·.name = field.name) then (.error (.repeatedField field.name root), u)
        else (.ok (), { u with registry := u.registry.addField root.typeName field })
      | _ => (.error (.rootNotObject root), u) := by
  rw [addRootField, outcome_bind]
  rcases outcome (useRoot root) s with ⟨e | _, u⟩
  · rfl
  · simp only [outcome_get_bind]
    rcases u.registry.get? root.typeName with _ | ⟨name, interfaces, body⟩
    · rfl
    · cases body with
      | object fields =>
        dsimp only
        split <;> rfl
      | _ => rfl

/-- A step in the making of a schema: a type is registered, or a root gains a field. -/
inductive Step where
  | register (d : TypeDefinition)
  | addField (root : RootType) (field : FieldDefinition)

def Step.update : Step → Updating Schema Unit
  | register d => do let _ ← Schema.register d
  | addField root field => addRootField root field

/-- The schema as the step leaves it, be it refused or not. -/
def after (s : Schema) (step : Step) : Schema :=
  (outcome step.update s).2

/-- The schema after all steps have been tried. -/
def attempt (s : Schema) (steps : List Step) : Schema :=
  steps.foldl after s

/-- The definition that a step registers without refusal, if it registers one: its own, or the type of a root that
comes into use. Whether a type of the name is there already makes no difference. -/
def Step.made (s : Schema) : Step → List TypeDefinition
  | register d => s.registry.accepted d
  | addField root _ => if root ∈ s.roots then [] else s.registry.accepted root.emptyType

/-- The field that a root gains by the step. -/
def Step.gained (s : Schema) : Step → List (RootType × FieldDefinition)
  | register _ => []
  | addField root field =>
    match (outcome (addRootField root field) s).1 with
    | .ok () => [(root, field)]
    | .error _ => []

/-- All that is registered without refusal, in order. -/
def madeBy (s : Schema) : List Step → List TypeDefinition
  | [] => []
  | step :: steps => step.made s ++ madeBy (s.after step) steps

def gainedBy (s : Schema) : List Step → List (RootType × FieldDefinition)
  | [] => []
  | step :: steps => step.gained s ++ gainedBy (s.after step) steps

/-- The registry is told by the definitions and the fields, and the types of roots in use are among them. -/
structure Told (s : Schema) (made : List TypeDefinition) (added : List (RootType × FieldDefinition)) : Prop where
  registry : s.registry.Filled made added
  roots : ∀ root ∈ s.roots, root.emptyType ∈ made

theorem told_empty : Told empty [] [] :=
  ⟨Registry.filled_empty, by simp [empty]⟩

variable {made : List TypeDefinition} {added : List (RootType × FieldDefinition)} {step : Step} {steps : List Step}

theorem Told.register (h : s.Told made added) :
    Told (outcome (register d) s).2 (made ++ s.registry.accepted d) added := by
  rw [outcome_register]
  cases hr : s.registry.register d with
  | error e =>
    rw [Registry.accepted_of_error hr, List.append_nil]
    exact h
  | ok result =>
    rw [Registry.accepted_of_ok hr]
    exact ⟨h.registry.register hr, fun root hroot => List.mem_append_left _ (h.roots root hroot)⟩

theorem Told.useRoot (h : s.Told made added) :
    Told (outcome (useRoot root) s).2 (made ++ (Step.addField root field).made s) added := by
  rw [outcome_useRoot, Step.made]
  by_cases hroot : root ∈ s.roots
  · rw [if_pos hroot, if_pos hroot, List.append_nil]
    exact h
  · rw [if_neg hroot, if_neg hroot]
    cases hr : s.registry.register root.emptyType with
    | error e =>
      rw [Registry.accepted_of_error hr, List.append_nil]
      exact h
    | ok result =>
      rw [Registry.accepted_of_ok hr]
      refine ⟨h.registry.register hr, fun other ho => ?_⟩
      rcases List.mem_append.1 ho with ho | ho
      · exact List.mem_append_left _ (h.roots other ho)
      · rw [List.mem_singleton.1 ho]
        exact List.mem_append_right _ List.mem_cons_self

theorem Told.addField (h : s.Told made added) :
    Told (outcome (addRootField root field) s).2 (made ++ (Step.addField root field).made s)
      (added ++ (Step.addField root field).gained s) := by
  have hused : Told (outcome (Schema.useRoot root) s).2 (made ++ (Step.addField root field).made s) added :=
    h.useRoot
  rw [Step.gained, outcome_addRootField]
  rcases hu : outcome (Schema.useRoot root) s with ⟨e | _, u⟩
  · rw [hu] at hused
    simpa using hused
  · rw [hu] at hused
    have hroot := hused.roots root (mem_roots_of_useRoot hu)
    dsimp only
    split
    · split
      · simpa using hused
      · exact ⟨hused.registry.addField hroot, hused.roots⟩
    · simpa using hused

theorem Told.after (h : s.Told made added) :
    (Schema.after s step).Told (made ++ step.made s) (added ++ step.gained s) := by
  cases step with
  | register d =>
    have hafter : Schema.after s (.register d) = (outcome (Schema.register d) s).2 := by
      rw [Schema.after, Step.update, outcome_bind]
      rcases outcome (Schema.register d) s with ⟨e | a, t⟩ <;> rfl
    rw [hafter, Step.gained, List.append_nil]
    exact h.register
  | addField root field => exact h.addField

theorem Told.attempt (h : s.Told made added) :
    (s.attempt steps).Told (made ++ s.madeBy steps) (added ++ s.gainedBy steps) := by
  induction steps generalizing s made added with
  | nil => simpa [Schema.attempt, madeBy, gainedBy] using h
  | cons step steps ih => simpa [Schema.attempt, madeBy, gainedBy] using ih h.after

end Schema

/-- The types in the order of registration, and the position of each under the key of its name. -/
structure IndexedRegistry where
  types : List TypeDefinition
  positions : OrderedMap Nat

namespace IndexedRegistry

def empty : IndexedRegistry := ⟨[], .empty⟩

/-- What stands at the position that is kept for a name, if one is kept. There is no result where the position is
out of range. -/
def find? (index : IndexedRegistry) (name : String) : Option (Option TypeDefinition) :=
  match index.positions.get? (lookupKey name) with
  | none => some none
  | some position => index.types[position]?.map some

/-- There is no result where a position is out of range. -/
def register (index : IndexedRegistry) (d : TypeDefinition) :
    Option (Except Error (TypeDefinition × IndexedRegistry)) :=
  if (Scalar.ofName? d.name).isSome then some (.error (.scalarName d.name))
  else
    (index.find? d.name).map fun
      | some existing =>
        if existing.category = d.category then .ok (existing, index)
        else .error (.categoryTaken existing.name existing.category d.category)
      | none => .ok (d, ⟨index.types ++ [d], index.positions.insert (lookupKey d.name) index.types.length⟩)

/-- The type of the name, where it is, gains the field. -/
def addField (index : IndexedRegistry) (name : String) (field : FieldDefinition) : Option IndexedRegistry :=
  match index.positions.get? (lookupKey name) with
  | none => some index
  | some position =>
    if position < index.types.length then
      some { index with types := index.types.modify position (·.addField field) }
    else none

/-- The keys of the types that are listed. -/
def keys (index : IndexedRegistry) : List String :=
  index.types.map (lookupKey ·.name)

/-- The index is that of the listed types, and these are the first of the definitions under each key. -/
structure Correct (index : IndexedRegistry) (made : List TypeDefinition)
    (added : List (RootType × FieldDefinition)) : Prop where
  distinct : index.keys.Nodup
  scalars : ∀ d ∈ index.types, Scalar.ofName? d.name = none
  positions : ∀ key position, index.positions.get? key = some position ↔ index.keys[position]? = some key
  finds : ∀ name, index.find? name =
    some ((made.find? fun d => lookupKey d.name = lookupKey name).map (TypeDefinition.grown added))
  order : index.types = (firstByName (lookupKey ·.name) made).map (TypeDefinition.grown added)

end IndexedRegistry

/-- A schema in the making, as far as its types are concerned. -/
structure IndexedSchema where
  registry : IndexedRegistry
  roots : List RootType

namespace IndexedSchema

def empty : IndexedSchema := ⟨.empty, []⟩

def useRoot (s : IndexedSchema) (root : RootType) : Option (Except Error Unit × IndexedSchema) :=
  if root ∈ s.roots then some (.ok (), s)
  else
    (s.registry.register root.emptyType).map fun
      | .ok (_, index) => (.ok (), ⟨index, s.roots ++ [root]⟩)
      | .error e => (.error e, s)

def addRootField (s : IndexedSchema) (root : RootType) (field : FieldDefinition) :
    Option (Except Error Unit × IndexedSchema) := do
  match ← s.useRoot root with
  | (.error e, used) => return (.error e, used)
  | (.ok (), used) =>
    match ← used.registry.find? root.typeName with
    | some ⟨_, _, .object fields⟩ =>
      if fields.any (·.name = field.name) then return (.error (.repeatedField field.name root), used)
      else return (.ok (), { used with registry := ← used.registry.addField root.typeName field })
    | _ => return (.error (.rootNotObject root), used)

def perform (s : IndexedSchema) : Schema.Step → Option (Except Error Unit × IndexedSchema)
  | .register d =>
    (s.registry.register d).map fun
      | .ok (_, index) => (.ok (), { s with registry := index })
      | .error e => (.error e, s)
  | .addField root field => s.addRootField root field

/-- The schema after all steps have been tried, if no position was out of range. -/
def attempt (s : IndexedSchema) (steps : List Schema.Step) : Option IndexedSchema :=
  steps.foldlM (fun s step => (s.perform step).map Prod.snd) s

end IndexedSchema

theorem OrderedMap.names_modify {α : Type} {map : OrderedMap α} {name : String} {change : α → α} :
    (map.modify name change).names = map.names := by
  rw [names, modify, List.map_map]
  refine List.map_congr_left fun entry _ => ?_
  rw [Function.comp_apply]
  split <;> rfl

theorem OrderedMap.modify_absent {α : Type} {map : OrderedMap α} {name : String} {change : α → α}
    (h : map.get? name = none) : map.modify name change = map := by
  apply OrderedMap.ext
  refine (List.map_congr_left fun entry he => ?_).trans (List.map_id _)
  have hne : entry.1 ≠ name := fun hname => get?_eq_none_iff.1 h (List.mem_map.2 ⟨entry, he, hname⟩)
  rw [if_neg hne, id]

namespace Registry

variable {registry : Registry} {d : TypeDefinition} {field : FieldDefinition} {name key : String} {position : Nat}

/-- The position of each lookup key in the order of registration. -/
def positions (registry : Registry) : OrderedMap Nat :=
  ⟨registry.types.names.zipIdx, by
    rw [List.zipIdx_map_fst]
    exact registry.types.nodup⟩

def indexed (registry : Registry) : IndexedRegistry :=
  ⟨registry.definitions, registry.positions⟩

theorem entries_positions : registry.positions.entries = registry.types.names.zipIdx := rfl

/-- Positions are told by the keys alone. -/
theorem positions_congr {other : Registry} (h : other.types.names = registry.types.names) :
    other.positions = registry.positions := by
  apply OrderedMap.ext
  rw [entries_positions, entries_positions, h]

theorem positions_get?_iff : registry.positions.get? key = some position ↔
    registry.types.names[position]? = some key := by
  rw [OrderedMap.get?_eq_some_iff]
  exact List.mk_mem_zipIdx_iff_getElem?

theorem positions_lt (h : registry.positions.get? key = some position) : position < registry.definitions.length := by
  have hlt := (List.getElem?_eq_some_iff.1 (positions_get?_iff.1 h)).1
  rwa [OrderedMap.names, List.length_map, ← List.length_map Prod.snd] at hlt

theorem positions_get?_eq_none_iff : registry.positions.get? key = none ↔ registry.types.get? key = none := by
  rw [OrderedMap.get?_eq_none_iff, OrderedMap.get?_eq_none_iff]
  have hnames : registry.positions.names = registry.types.names := List.zipIdx_map_fst _ _
  rw [hnames]

/-- At the position of a key stands the type that is found under it. -/
theorem getElem?_of_position (h : registry.positions.get? key = some position) :
    registry.definitions[position]? = registry.types.get? key := by
  rw [positions_get?_iff, OrderedMap.names, List.getElem?_map, Option.map_eq_some_iff] at h
  obtain ⟨⟨_, d⟩, hentry, rfl⟩ := h
  have hfound := OrderedMap.get?_eq_some_iff.2 (List.mem_of_getElem? hentry)
  rw [hfound, definitions, List.getElem?_map, hentry]
  rfl

/-- Every position is in range, so that each name gets an answer. -/
theorem indexed_find? : registry.indexed.find? name = some (registry.get? name) := by
  change (match registry.positions.get? (lookupKey name) with
    | none => some none
    | some position => registry.definitions[position]?.map some) = some (registry.types.get? (lookupKey name))
  split
  · next hnone => rw [positions_get?_eq_none_iff.1 hnone]
  · next position hposition =>
    obtain ⟨d, hd⟩ := Option.ne_none_iff_exists'.1 fun hnone => by
      rw [positions_get?_eq_none_iff.2 hnone] at hposition
      cases hposition
    rw [getElem?_of_position hposition, hd]
    rfl

theorem indexed_enter (h : registry.get? d.name = none) : (registry.enter d).indexed =
    ⟨registry.definitions ++ [d],
      registry.positions.insert (lookupKey d.name) registry.definitions.length⟩ := by
  have hnames : (registry.enter d).types.names = registry.types.names ++ [lookupKey d.name] := by
    rw [OrderedMap.names, enter, OrderedMap.entries_insert_fresh h, List.map_append]
    rfl
  have hlength : registry.definitions.length = registry.types.names.length := by
    rw [definitions, OrderedMap.names, List.length_map, List.length_map]
  have hpositions : (registry.enter d).positions =
      registry.positions.insert (lookupKey d.name) registry.definitions.length := by
    apply OrderedMap.ext
    rw [OrderedMap.entries_insert_fresh (positions_get?_eq_none_iff.2 h), entries_positions, entries_positions,
      hnames, List.zipIdx_append, hlength, Nat.zero_add]
    rfl
  rw [indexed, definitions_enter h, hpositions]

theorem indexed_register : registry.indexed.register d =
    some ((registry.register d).map (Prod.map id indexed)) := by
  rw [IndexedRegistry.register, indexed_find?, register]
  split
  · rfl
  · cases hd : registry.get? d.name with
    | none =>
      have henter := indexed_enter hd
      exact congrArg (fun index => some (Except.ok (d, index))) henter.symm
    | some existing =>
      dsimp only [Option.map_some]
      split <;> rfl

/-- The one type under the key is the one at its position. -/
theorem definitions_modify (h : registry.positions.get? (lookupKey name) = some position) :
    (registry.addField name field).definitions = registry.definitions.modify position (·.addField field) := by
  have hkey := positions_get?_iff.1 h
  apply List.ext_getElem?
  intro other
  rw [List.getElem?_modify]
  simp only [definitions, addField, OrderedMap.modify, List.getElem?_map]
  cases hentry : registry.types.entries[other]? with
  | none => rfl
  | some entry =>
    have hother : registry.types.names[other]? = some entry.1 := by
      rw [OrderedMap.names, List.getElem?_map, hentry]
      rfl
    have hat : entry.1 = lookupKey name ↔ position = other := by
      constructor
      · intro he
        have hlt : position < registry.types.names.length := (List.getElem?_eq_some_iff.1 hkey).1
        exact (List.getElem?_inj hlt registry.types.nodup).1 (by rw [hkey, hother, he])
      · rintro rfl
        rw [hkey] at hother
        exact (Option.some.inj hother).symm
    by_cases he : entry.1 = lookupKey name
    · simp [he, hat.1 he]
    · have hne : position ≠ other := fun hp => he (hat.2 hp)
      simp [he, hne]

theorem indexed_addField : registry.indexed.addField name field = some (registry.addField name field).indexed := by
  have hpositions : (registry.addField name field).positions = registry.positions :=
    positions_congr OrderedMap.names_modify
  change (match registry.positions.get? (lookupKey name) with
    | none => some registry.indexed
    | some position =>
      if position < registry.definitions.length then
        some ⟨registry.definitions.modify position (·.addField field), registry.positions⟩
      else none) = _
  rw [indexed, indexed, hpositions]
  split
  · next hnone => rw [addField, OrderedMap.modify_absent (positions_get?_eq_none_iff.1 hnone)]
  · next position hposition => rw [if_pos (positions_lt hposition), definitions_modify hposition]

variable {made : List TypeDefinition} {added : List (RootType × FieldDefinition)}

theorem Keyed.keys_indexed (h : registry.Keyed) : registry.indexed.keys = registry.types.names := by
  rw [IndexedRegistry.keys, indexed, definitions, List.map_map]
  exact List.map_congr_left fun entry he => (h entry he).symm

theorem Filled.correct (h : registry.Filled made added) : registry.indexed.Correct made added where
  distinct := by
    rw [h.keyed.keys_indexed]
    exact registry.types.nodup
  scalars d hd := by
    obtain ⟨e, he, hname⟩ := h.exists_made hd
    exact hname ▸ h.scalars e he
  positions key position := by
    rw [h.keyed.keys_indexed]
    exact positions_get?_iff
  finds name := by rw [indexed_find?, h.get?_eq]
  order := h.definitions

/-- A type that is refused or found leaves the registry as it is. -/
theorem Keyed.register_keys (h : registry.Keyed) {after : Registry} {e : TypeDefinition}
    (hr : registry.register d = .ok (e, after)) (hd : lookupKey d.name ∈ registry.indexed.keys) :
    after = registry := by
  rw [h.keys_indexed] at hd
  obtain ⟨_, ⟨hnone, _⟩ | ⟨_, _, hafter⟩⟩ := register_ok_iff.1 hr
  · exact absurd hd (OrderedMap.get?_eq_none_iff.1 hnone)
  · exact hafter

end Registry

namespace Schema

variable {s : Schema} {root : RootType} {field : FieldDefinition} {step : Step} {steps : List Step}

def indexed (s : Schema) : IndexedSchema :=
  ⟨s.registry.indexed, s.roots⟩

theorem indexed_empty : empty.indexed = .empty := rfl

theorem indexed_useRoot : s.indexed.useRoot root = some (Prod.map id indexed (outcome (useRoot root) s)) := by
  rw [IndexedSchema.useRoot, outcome_useRoot]
  by_cases hroot : root ∈ s.roots
  · have hindexed : root ∈ s.indexed.roots := hroot
    rw [if_pos hroot, if_pos hindexed]
    rfl
  · have hindexed : root ∉ s.indexed.roots := hroot
    have hregister : s.indexed.registry.register root.emptyType = _ := Registry.indexed_register
    rw [if_neg hroot, if_neg hindexed, hregister]
    rcases s.registry.register root.emptyType with e | ⟨d, r⟩ <;> rfl

theorem indexed_addRootField :
    s.indexed.addRootField root field = some (Prod.map id indexed (outcome (addRootField root field) s)) := by
  rw [IndexedSchema.addRootField, outcome_addRootField, indexed_useRoot]
  rcases outcome (useRoot root) s with ⟨e | _, u⟩
  · rfl
  · have hfind : u.indexed.registry.find? root.typeName = _ := Registry.indexed_find?
    have hadd : u.indexed.registry.addField root.typeName field = _ := Registry.indexed_addField
    dsimp only [Option.bind_eq_bind, Option.bind_some, Prod.map, id]
    rw [hfind]
    rcases u.registry.get? root.typeName with _ | ⟨name, interfaces, body⟩
    · rfl
    · cases body with
      | object fields =>
        dsimp only [Option.bind_some]
        split
        · rfl
        · rw [hadd]
          rfl
      | _ => rfl

/-- Step by step the index does what is done under lookup keys. -/
theorem indexed_perform :
    s.indexed.perform step = some (Prod.map id indexed (outcome step.update s)) := by
  cases step with
  | register d =>
    have hregister : s.indexed.registry.register d = _ := Registry.indexed_register
    have hupdate : outcome (Step.register d).update s = _ := outcome_bind (register d) _ s
    rw [IndexedSchema.perform, hregister, hupdate, outcome_register]
    rcases s.registry.register d with e | ⟨e, r⟩ <;> rfl
  | addField root field => exact indexed_addRootField

theorem indexed_attempt : s.indexed.attempt steps = some (s.attempt steps).indexed := by
  induction steps generalizing s with
  | nil => rfl
  | cons step steps ih =>
    rw [IndexedSchema.attempt, List.foldlM_cons, indexed_perform]
    exact ih

/-- To register a type that is refused, or of which the name is taken, changes nothing. -/
theorem perform_register_eq_self (h : s.registry.Keyed) {d : TypeDefinition} {result : Except Error Unit}
    {next : IndexedSchema} (hp : s.indexed.perform (.register d) = some (result, next))
    (hd : (∃ e, result = .error e) ∨ lookupKey d.name ∈ s.indexed.registry.keys) : next = s.indexed := by
  have hregister : s.indexed.registry.register d = _ := Registry.indexed_register
  rw [IndexedSchema.perform, hregister] at hp
  cases hr : s.registry.register d with
  | error e =>
    rw [hr] at hp
    cases hp
    rfl
  | ok registered =>
    obtain ⟨e, after⟩ := registered
    rw [hr] at hp
    cases hp
    obtain ⟨_, hresult⟩ | hkey := hd
    · cases hresult
    · rw [h.register_keys hr hkey]
      rfl

/-- Whatever is registered, with or without success, and whatever fields roots gain: no position is out of range,
each name has the first type that was registered under its key, and the types are listed in that order. -/
theorem attempt_index_correct (steps : List Step) :
    IndexedSchema.empty.attempt steps = some (empty.attempt steps).indexed ∧
      (empty.attempt steps).indexed.registry.Correct (empty.madeBy steps) (empty.gainedBy steps) ∧
      ∀ d result next, (empty.attempt steps).indexed.perform (.register d) = some (result, next) →
        (∃ e, result = .error e) ∨ lookupKey d.name ∈ (empty.attempt steps).indexed.registry.keys →
        next = (empty.attempt steps).indexed := by
  have htold : (empty.attempt steps).Told (empty.madeBy steps) (empty.gainedBy steps) := told_empty.attempt
  refine ⟨indexed_empty ▸ indexed_attempt, htold.registry.correct, fun d result next => ?_⟩
  exact perform_register_eq_self htold.registry.keyed

/-- Dogs, the same once more as an enum and under another spelling, a field of a root, and cats. -/
def dogsOnce : List Step :=
  [.register ⟨"Dog", [], .object []⟩, .register ⟨"dog", [], .enum ["brown"]⟩, .register ⟨"DOG", [], .object []⟩,
    .addField .query ⟨"dogs", [], .list "Dog" true true⟩, .register ⟨"Cat", [], .object []⟩]

/-- Refused types are not listed, and neither are types of a name that is taken. -/
theorem dogsOnce_index_correct :
    IndexedSchema.empty.attempt dogsOnce = some (empty.attempt dogsOnce).indexed ∧
      (empty.attempt dogsOnce).indexed.registry.keys = ["dog", "query", "cat"] ∧
      (empty.attempt dogsOnce).indexed.registry.Correct (empty.madeBy dogsOnce) (empty.gainedBy dogsOnce) ∧
      ∃ e next, (empty.attempt dogsOnce).indexed.perform (.register ⟨"cat", [], .enum ["black"]⟩) =
        some (.error e, next) ∧ next = (empty.attempt dogsOnce).indexed := by
  obtain ⟨hattempt, hcorrect, hsame⟩ := attempt_index_correct dogsOnce
  refine ⟨hattempt, by decide +kernel, hcorrect, ?_⟩
  have hrefused : ((empty.attempt dogsOnce).indexed.perform (.register ⟨"cat", [], .enum ["black"]⟩)).any
      (!·.1.isOk) := by decide +kernel
  rcases hp : (empty.attempt dogsOnce).indexed.perform (.register ⟨"cat", [], .enum ["black"]⟩) with
    _ | ⟨e | _, next⟩
  · simp [hp] at hrefused
  · exact ⟨e, next, rfl, hsame _ _ _ hp (.inl ⟨e, rfl⟩)⟩
  · simp [hp, Except.isOk, Except.toBool] at hrefused

end Schema

end TableApi
