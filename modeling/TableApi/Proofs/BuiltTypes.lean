import TableApi.Proofs.Passes
import TableApi.Proofs.TableTypes

/-! Where the names of types have keys of their own, a schema holds the types of its tables and its roots
as they were made. -/
namespace TableApi

/-- The roots under which the tables have operations. -/
def rootsOf (tables : List Table) : List RootType :=
  RootType.all.filter fun root => tables.any fun table => table.plan.any (·.root = root)

/-- The names of the types that come with tables: their own, and those of the roots in use. -/
def registeredNames (tables : List Table) : List String :=
  tables.flatMap Table.typeNames ++ (rootsOf tables).map RootType.typeName

section Names

variable {tables later : List Table} {root : RootType}

theorem mem_rootsOf_iff :
    root ∈ rootsOf tables ↔ ∃ table ∈ tables, ∃ operation ∈ table.plan, operation.root = root := by
  simp [rootsOf, root.mem_all]

/-- No two of the names have one key. -/
structure Apart (tables : List Table) : Prop where
  between : tables.Pairwise fun a b => ∀ m ∈ a.typeNames, ∀ n ∈ b.typeNames, lookupKey m ≠ lookupKey n
  within : ∀ table ∈ tables, (table.typeNames.map lookupKey).Nodup
  roots : ∀ table ∈ tables, ∀ name ∈ table.typeNames, ∀ root ∈ rootsOf tables,
    lookupKey name ≠ lookupKey root.typeName

theorem rootKeys_nodup : (((rootsOf tables).map RootType.typeName).map lookupKey).Nodup := by
  rw [List.map_map]
  refine List.Nodup.map (fun a b h => RootType.key_eq_iff.1 h) ?_
  exact List.Nodup.filter _ (by decide)

theorem apart_iff : Apart tables ↔ ((registeredNames tables).map lookupKey).Nodup := by
  have hdisjoint : Function.onFun List.Disjoint (fun table : Table => table.typeNames.map lookupKey) =
      fun a b => ∀ m ∈ a.typeNames, ∀ n ∈ b.typeNames, lookupKey m ≠ lookupKey n := by
    funext a b
    simp [Function.onFun, List.disjoint_iff_ne]
  rw [registeredNames, List.map_append, List.map_flatMap, List.nodup_append, List.nodup_flatMap, hdisjoint]
  constructor
  · intro h
    refine ⟨⟨h.within, h.between⟩, rootKeys_nodup, ?_⟩
    intro a ha b hb
    obtain ⟨table, ht, ha⟩ := List.mem_flatMap.1 ha
    obtain ⟨name, hn, rfl⟩ := List.mem_map.1 ha
    rw [List.map_map] at hb
    obtain ⟨root, hr, rfl⟩ := List.mem_map.1 hb
    exact h.roots table ht name hn root hr
  · rintro ⟨⟨hwithin, hbetween⟩, _, hroots⟩
    refine ⟨hbetween, hwithin, ?_⟩
    intro table ht name hn root hr
    exact hroots _ (List.mem_flatMap.2 ⟨table, ht, List.mem_map_of_mem hn⟩) _
      (List.mem_map_of_mem (List.mem_map_of_mem hr))

theorem Apart.left (h : Apart (tables ++ later)) : Apart tables where
  between := (List.pairwise_append.1 h.between).1
  within := fun table ht => h.within table (List.mem_append_left _ ht)
  roots := by
    intro table ht name hn root hr
    refine h.roots table (List.mem_append_left _ ht) name hn root ?_
    obtain ⟨user, hu, ho⟩ := mem_rootsOf_iff.1 hr
    exact mem_rootsOf_iff.2 ⟨user, List.mem_append_left _ hu, ho⟩

end Names

theorem Table.Accepted.name_of_mem_types {table : Table} {types : List TypeDefinition}
    {d : TypeDefinition} (h : table.Accepted) (ht : table.types = .ok types) (hd : d ∈ types) :
    d.name ∈ table.typeNames := by
  rw [← Table.types_names h.legalName ht]
  exact List.mem_map_of_mem hd

namespace Schema

variable {s t u : Schema} {done : List Table} {added : List (RootType × FieldDefinition)}
  {root : RootType} {field : FieldDefinition} {table : Table} {v : Unit}

/-- The definition is one of a type of the tables. -/
def OfTables (done : List Table) (d : TypeDefinition) : Prop :=
  ∃ table ∈ done, ∃ types, table.types = .ok types ∧ d ∈ types

/-- The object type of a root with the fields that were added to it. -/
def rootType (added : List (RootType × FieldDefinition)) (root : RootType) : TypeDefinition :=
  ⟨root.typeName, [], .object (fieldsOf root added)⟩

/-- The types are those of the tables and those of the roots that fields were added to. -/
structure Built (schema : Schema) (done : List Table) (added : List (RootType × FieldDefinition)) :
    Prop where
  keyed : schema.registry.Keyed
  accepted : ∀ table ∈ done, table.Accepted
  roots : ∀ root, root ∈ schema.roots ↔ ∃ field, (root, field) ∈ added
  definitions : ∀ d, d ∈ schema.registry.definitions ↔
    OfTables done d ∨ ∃ root ∈ schema.roots, d = rootType added root

theorem built_empty : Built empty [] [] where
  keyed := Registry.keyed_empty
  accepted := by simp
  roots := by simp [empty]
  definitions := by simp [OfTables, empty, Registry.definitions, Registry.empty, OrderedMap.empty]

theorem Built.get?_root (h : s.Built done added) (hr : root ∈ s.roots) :
    s.registry.get? root.typeName = some (rootType added root) :=
  (h.keyed.mem_definitions_iff (d := rootType added root)).1 ((h.definitions _).2 (.inr ⟨root, hr, rfl⟩))

/-- The key of a name that none of the types has is free. -/
theorem Built.get?_eq_none {name : String} (h : s.Built done added)
    (ht : ∀ table ∈ done, ∀ n ∈ table.typeNames, lookupKey n ≠ lookupKey name)
    (hr : ∀ root ∈ s.roots, lookupKey root.typeName ≠ lookupKey name) : s.registry.get? name = none := by
  cases hg : s.registry.get? name with
  | none => rfl
  | some d =>
    have hk := h.keyed.key_of_get? hg
    rcases (h.definitions d).1 (h.keyed.get?_mem hg) with ⟨table, hm, types, htypes, hd⟩ | ⟨root, hm, rfl⟩
    · exact absurd hk (ht table hm _ ((h.accepted table hm).name_of_mem_types htypes hd))
    · exact absurd hk (hr root hm)

theorem Built.registers {types : List TypeDefinition} {r : Registry} (h : s.Built done added)
    (ha : table.Accepted) (htypes : table.types = .ok types)
    (hn : (table.typeNames.map lookupKey).Nodup) (hfree : ∀ n ∈ table.typeNames, s.registry.get? n = none)
    (hr : Registry.Registers s.registry types r) : Built { s with registry := r } (done ++ [table]) added := by
  rw [← Table.types_names ha.legalName htypes, List.map_map] at hn
  have hdefinitions := hr.definitions_of_fresh hn fun d hd => hfree _ (ha.name_of_mem_types htypes hd)
  refine ⟨hr.keyed h.keyed, ?_, h.roots, ?_⟩
  · intro other ho
    rcases List.mem_append.1 ho with ho | ho
    · exact h.accepted other ho
    · exact List.mem_singleton.1 ho ▸ ha
  · intro d
    have hof : OfTables (done ++ [table]) d ↔ OfTables done d ∨ d ∈ types := by
      simp [OfTables, or_and_right, exists_or, htypes]
    rw [hdefinitions, List.mem_append, h.definitions, hof]
    exact or_right_comm

/-- The first use of a root whose key is free adds its type without fields. -/
theorem Built.useRoot (h : s.Built done added)
    (hfree : ∀ table ∈ done, ∀ n ∈ table.typeNames, lookupKey n ≠ lookupKey root.typeName)
    (hu : Gives (useRoot root) s v u) :
    u.registry.Keyed ∧ (∀ other, other ∈ u.roots ↔ other ∈ s.roots ∨ other = root) ∧
      ∀ d, d ∈ u.registry.definitions ↔ OfTables done d ∨ ∃ root ∈ u.roots, d = rootType added root := by
  rcases gives_useRoot.1 hu with ⟨hr, rfl⟩ | ⟨hr, e, r, hreg, rfl⟩
  · refine ⟨h.keyed, ?_, h.definitions⟩
    intro other
    exact ⟨.inl, fun ho => ho.elim id fun he => he ▸ hr⟩
  · have hnone : s.registry.get? root.emptyType.name = none := by
      refine h.get?_eq_none hfree fun other ho hk => ?_
      rw [RootType.emptyType_name, RootType.key_eq_iff] at hk
      exact hr (hk ▸ ho)
    obtain ⟨_, ⟨_, rfl, rfl⟩ | ⟨hg, _⟩⟩ := Registry.register_ok_iff.1 hreg
    · refine ⟨h.keyed.enter hnone, by simp, ?_⟩
      intro d
      have hempty : rootType added root = root.emptyType := by
        have hnil : fieldsOf root added = [] := by
          refine List.eq_nil_iff_forall_not_mem.2 fun f hf => ?_
          exact hr ((h.roots root).2 ⟨f, mem_fieldsOf_iff.1 hf⟩)
        rw [rootType, hnil, RootType.emptyType]
      rw [Registry.definitions_enter hnone, List.mem_append, List.mem_singleton, h.definitions]
      simp only [List.mem_append, List.mem_singleton, or_and_right, exists_or, exists_eq_left, hempty,
        or_assoc]
    · rw [hnone] at hg
      cases hg

theorem Built.addRootField (h : s.Built done added)
    (hfree : ∀ table ∈ done, ∀ n ∈ table.typeNames, lookupKey n ≠ lookupKey root.typeName)
    (hg : Gives (addRootField root field) s v t) : t.Built done (added ++ [(root, field)]) := by
  obtain ⟨u, e, hu, he, hc, _, rfl⟩ := gives_addRootField.1 hg
  obtain ⟨hkeyed, hroots, hdefinitions⟩ := h.useRoot hfree hu
  have hroot : root ∈ u.roots := (hroots root).2 (.inr rfl)
  have hown : e = rootType added root := by
    have hm := hkeyed.mem_definitions_iff.1 ((hdefinitions (rootType added root)).2 (.inr ⟨root, hroot, rfl⟩))
    exact Option.some.inj (he.symm.trans hm)
  -- of all types only that of the root changes, for no type of a table has its key
  have hfields : ∀ other, rootType (added ++ [(root, field)]) other =
      if root = other then (rootType added other).addField field else rootType added other := by
    intro other
    rw [rootType, fieldsOf_append, fieldsOf_singleton]
    split
    · rfl
    · rw [List.append_nil, rootType]
  refine ⟨hkeyed.addField, h.accepted, ?_, ?_⟩
  · intro other
    rw [hroots, h.roots]
    simp only [List.mem_append, List.mem_singleton, Prod.mk.injEq, exists_or, exists_and_left,
      exists_eq, and_true]
  · intro d
    rw [hkeyed.mem_addField_iff he, hdefinitions, hown]
    simp only [hfields]
    constructor
    · rintro (⟨hd | ⟨other, ho, rfl⟩, hk⟩ | rfl)
      · exact .inl hd
      · have hne : root ≠ other := by
          rintro rfl
          exact hk rfl
        exact .inr ⟨other, ho, by rw [if_neg hne]⟩
      · exact .inr ⟨root, hroot, by rw [if_pos rfl]⟩
    · rintro (⟨table, hm, types, htypes, hd⟩ | ⟨other, ho, rfl⟩)
      · have hn := (h.accepted table hm).name_of_mem_types htypes hd
        exact .inl ⟨.inl ⟨table, hm, types, htypes, hd⟩, hfree table hm _ hn⟩
      · by_cases hne : root = other
        · subst hne
          rw [if_pos rfl]
          exact .inr rfl
        · rw [if_neg hne]
          exact .inl ⟨.inr ⟨other, ho, rfl⟩, fun hk => hne (RootType.key_eq_iff.1 hk).symm⟩

theorem Built.addRootFields {base : String} {operations : List Operation} (h : s.Built done added)
    (hfree : ∀ operation ∈ operations, ∀ table ∈ done, ∀ n ∈ table.typeNames,
      lookupKey n ≠ lookupKey operation.root.typeName)
    (hg : Gives (forM operations fun operation =>
      Schema.addRootField operation.root (operation.toField base)) s v t) :
    t.Built done (added ++ rootFieldsOf base operations) := by
  induction operations generalizing s added with
  | nil =>
    obtain rfl := gives_forM_nil.1 hg
    simpa [rootFieldsOf] using h
  | cons operation operations ih =>
    rw [List.forall_mem_cons] at hfree
    obtain ⟨u, hu, hg⟩ := gives_forM_cons.1 hg
    simpa [rootFieldsOf] using ih (h.addRootField hfree.1 hu) hfree.2 hg

end Schema

/-- The root fields that tables come with. -/
def plannedFields (tables : List Table) : List (RootType × FieldDefinition) :=
  (tables.flatMap Planned.ofTable).map Planned.rootField

theorem plannedFields_append {tables later : List Table} :
    plannedFields (tables ++ later) = plannedFields tables ++ plannedFields later := by
  simp [plannedFields]

theorem plannedFields_singleton {table : Table} :
    plannedFields [table] = Schema.rootFieldsOf table.baseName table.plan := by
  rw [plannedFields, List.flatMap_singleton, Planned.map_rootField_ofTable]

theorem plannedFields_concat {tables : List Table} {table : Table} :
    plannedFields (tables ++ [table]) =
      plannedFields tables ++ Schema.rootFieldsOf table.baseName table.plan := by
  rw [plannedFields_append, plannedFields_singleton]

theorem mem_plannedFields_iff {tables : List Table} {root : RootType} {field : FieldDefinition} :
    (root, field) ∈ plannedFields tables ↔ ∃ table ∈ tables, ∃ operation ∈ table.plan,
      operation.root = root ∧ operation.toField table.baseName = field := by
  simp [plannedFields, Planned.ofTable, Planned.rootField, List.mem_flatMap, and_assoc]

theorem forall_plannedFields_iff {tables : List Table} {p : FieldDefinition → Prop} :
    (∀ field ∈ plannedFields tables, p field.2) ↔
      ∀ table ∈ tables, ∀ operation ∈ table.plan, p (operation.toField table.baseName) := by
  constructor
  · intro hall table ht operation ho
    exact hall _ (mem_plannedFields_iff.2 ⟨table, ht, operation, ho, rfl, rfl⟩)
  · intro hall field hf
    obtain ⟨table, ht, operation, ho, _, hfield⟩ := mem_plannedFields_iff.1 hf
    exact hfield ▸ hall table ht operation ho

theorem mem_rootsOf_iff_planned {tables : List Table} {root : RootType} :
    root ∈ rootsOf tables ↔ ∃ field, (root, field) ∈ plannedFields tables := by
  simp only [mem_rootsOf_iff, mem_plannedFields_iff]
  constructor
  · rintro ⟨table, ht, operation, ho, hr⟩
    exact ⟨_, table, ht, operation, ho, hr, rfl⟩
  · rintro ⟨_, table, ht, operation, ho, hr, _⟩
    exact ⟨table, ht, operation, ho, hr⟩

namespace Schema

variable {s t : Schema} {done : List Table} {table : Table} {v : Unit}

/-- The names of a further table are free. -/
theorem Built.free (h : s.Built done (plannedFields done)) (hap : Apart (done ++ [table])) :
    ∀ n ∈ table.typeNames, s.registry.get? n = none := by
  intro n hn
  refine h.get?_eq_none ?_ ?_
  · intro other ho m hm
    exact (List.pairwise_append.1 hap.between).2.2 other ho table (by simp) m hm n hn
  · intro root hr
    have hroot := mem_rootsOf_iff_planned.2 ((h.roots root).1 hr)
    obtain ⟨user, hu, ho⟩ := mem_rootsOf_iff.1 hroot
    refine (hap.roots table (by simp) n hn root ?_).symm
    exact mem_rootsOf_iff.2 ⟨user, List.mem_append_left _ hu, ho⟩

theorem Built.addTable (h : s.Built done (plannedFields done)) (ha : table.Accepted)
    (hap : Apart (done ++ [table])) (hg : Gives (Schema.addTable table table.plan) s v t) :
    t.Built (done ++ [table]) (plannedFields (done ++ [table])) := by
  obtain ⟨_, types, r, u, htypes, hr, hu, rfl⟩ := gives_addTable.1 hg
  have hregistered := h.registers ha htypes (hap.within table (by simp)) (h.free hap) hr
  have hb := hregistered.addRootFields (fun operation ho other hm n hn =>
    hap.roots other hm n hn _ (mem_rootsOf_iff.2 ⟨table, by simp, operation, ho, rfl⟩)) hu
  rw [plannedFields_concat]
  exact ⟨hb.keyed, hb.accepted, hb.roots, hb.definitions⟩

end Schema

theorem Run.built {pass last : Synthesis} {done tables : List Table}
    (h : Run pass (tables.map .table) last) (hb : pass.schema.Built done (plannedFields done))
    (ha : ∀ table ∈ tables, table.Accepted) (hap : Apart (done ++ tables)) :
    last.schema.Built (done ++ tables) (plannedFields (done ++ tables)) := by
  induction tables generalizing pass done with
  | nil =>
    cases h
    simpa using hb
  | cons table tables ih =>
    rw [List.forall_mem_cons] at ha
    rw [List.append_cons] at hap ⊢
    cases h with
    | table hg h =>
      obtain ⟨t, ht, rfl⟩ := Synthesis.gives_addTable.1 hg
      exact ih h (hb.addTable ha.1 hap.left ht) ha.2 hap

theorem dogsAndCats_builtAccepted : dogsAndCats.BuiltAccepted := by
  intro table hm
  simp [dogsAndCats, declared] at hm

end TableApi
