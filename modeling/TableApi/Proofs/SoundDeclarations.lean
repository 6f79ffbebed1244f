import TableApi.Proofs.IndexNames
import TableApi.Proofs.TypeGrammar

/-! Which declarations become tables, and that a table has the indexes that are declared for it. The types of keys
are read while the table is put together, all else is checked when it stands; the conditions here are those of the
declaration alone. -/
namespace TableApi

/-- The index has the name, the keys and the other parts that are declared for it. -/
structure GlobalIndexDeclaration.Becomes (table : String) (attributes : Attributes)
    (declaration : GlobalIndexDeclaration) (index : GlobalIndex) : Prop where
  name : index.name = declaration.indexName table
  keys : List.Forall₂ (KeyDeclaration.Reads attributes) declaration.keys index.keys
  list : index.list = declaration.list
  projection : index.projection = declaration.projection
  capacity : index.capacity = declaration.capacity

structure LocalIndexDeclaration.Becomes (table : String) (attributes : Attributes)
    (declaration : LocalIndexDeclaration) (index : LocalIndex) : Prop where
  name : index.name = declaration.indexName table
  sort : declaration.sort.Reads attributes index.sort
  projection : index.projection = declaration.projection

namespace TableDeclaration

/-- Nothing is wrong with the declaration. -/
structure Sound (declaration : TableDeclaration) : Prop where
  name : isLegalName declaration.name
  root : declaration.name ∉ ["Query", "Mutation", "Subscription"]
  attributeNames : ∀ entry ∈ declaration.attributeMap.entries, isLegalName entry.1
  attributeTypes : ∀ entry ∈ declaration.attributeMap.entries, TypeRef.Grammatical entry.2
  keyTypes : ∀ key ∈ declaration.keys, ∀ text, key.ownType = some text → TypeRef.Grammatical text
  keyNames : ∀ key ∈ declaration.keys, key.name ∈ declaration.attributeMap.names
  indexNames : ∀ name ∈ declaration.indexNames, 3 ≤ name.length ∧ name.length ≤ 255 ∧
    ∀ c ∈ name.toList, c.isAlphanum ∨ c ∈ ['_', '.', '-']
  billing : (declaration.settings.getD .default).BillingRule

end TableDeclaration

theorem GlobalIndexDeclaration.becomes_of_toIndex {table : String} {attributes : Attributes}
    {declaration : GlobalIndexDeclaration} {index : GlobalIndex}
    (h : declaration.toIndex table attributes = .ok index) : Becomes table attributes declaration index := by
  have hname := name_of_toIndex h
  have hkeys := toIndex_reads h
  simp only [toIndex_eq, Except.bind_ok_iff, Except.pure_ok_iff] at h
  obtain ⟨_, _, _, _, rfl⟩ := h
  exact ⟨hname, hkeys, rfl, rfl, rfl⟩

theorem LocalIndexDeclaration.becomes_of_toIndex {table : String} {attributes : Attributes}
    {declaration : LocalIndexDeclaration} {index : LocalIndex}
    (h : declaration.toIndex table attributes = .ok index) : Becomes table attributes declaration index := by
  have hname := name_of_toIndex h
  have hsort := toIndex_reads h
  simp only [toIndex_eq, Except.bind_ok_iff, Except.pure_ok_iff] at h
  obtain ⟨_, _, rfl⟩ := h
  exact ⟨hname, hsort, rfl⟩

namespace Table

variable {declaration : TableDeclaration} {label : Option String} {table : Table}

theorem isIndexName_iff {name : String} : isIndexName name ↔ 3 ≤ name.length ∧ name.length ≤ 255 ∧
    ∀ c ∈ name.toList, c.isAlphanum ∨ c ∈ ['_', '.', '-'] := by
  simp [isIndexName, isIndexNameChar, or_assoc, and_assoc]

theorem ne_root_iff {name : String} :
    (∀ root : RootType, name ≠ root.typeName) ↔ name ∉ ["Query", "Mutation", "Subscription"] := by
  constructor
  · intro h hname
    simp only [List.mem_cons, List.not_mem_nil, or_false] at hname
    rcases hname with hname | hname | hname
    · exact h .query hname
    · exact h .mutation hname
    · exact h .subscription hname
  · rintro h root rfl
    exact h (by cases root <;> decide)

/-- Where the types of attributes can be read, keys are legible if the types that stand with them are. -/
theorem keys_legible_iff (h : ∀ entry ∈ declaration.attributeMap.entries, TypeRef.Grammatical entry.2) :
    (∀ key ∈ declaration.keys, key.Legible declaration.attributeMap) ↔
      ∀ key ∈ declaration.keys, ∀ text, key.ownType = some text → TypeRef.Grammatical text := by
  refine forall₂_congr fun key _ => ?_
  simp only [KeyDeclaration.Legible, KeyDeclaration.typeText, ← TypeRef.grammatical_iff]
  cases key.ownType with
  | some own => simp
  | none =>
    refine iff_of_true (fun text htext => ?_) (by simp)
    exact h (key.name, text) (OrderedMap.get?_eq_some_iff.1 htext)

/-- What is checked of a table is what its declaration says beside the types of keys. -/
theorem Assembled.faultless_iff (h : Assembled declaration table)
    (htypes : ∀ key ∈ declaration.keys, ∀ text, key.ownType = some text → TypeRef.Grammatical text) :
    table.Faultless ↔ declaration.Sound := by
  have hnames : (∀ key ∈ table.allKeys, key.name ∈ declaration.attributeMap.names) ↔
      ∀ key ∈ declaration.keys, key.name ∈ declaration.attributeMap.names :=
    (forall₂_forall_mem_iff h.keys_read fun _ _ hread => by rw [hread.1]).symm
  have hindexes : ((∀ index ∈ table.globalIndexes, isIndexName index.name) ∧
      ∀ index ∈ table.localIndexes, isIndexName index.name) ↔
        ∀ name ∈ declaration.indexNames, isIndexName name := by
    rw [← h.indexNames, List.forall_mem_append, List.forall_mem_map, List.forall_mem_map]
  constructor
  · intro hf
    have hattributes := h.attributes ▸ hf.attributes
    refine ⟨h.baseName ▸ hf.name, ne_root_iff.1 (h.baseName ▸ hf.root), fun entry he => (hattributes entry he).1,
      fun entry he => TypeRef.grammatical_iff.2 (hattributes entry he).2, htypes,
      hnames.1 (h.attributes ▸ hf.keys), ?_, h.settings ▸ hf.billing⟩
    intro name hname
    exact isIndexName_iff.1 (hindexes.1 ⟨hf.globalNames, hf.localNames⟩ name hname)
  · intro hs
    obtain ⟨hglobals, hlocals⟩ := hindexes.2 fun name hname => isIndexName_iff.2 (hs.indexNames name hname)
    have hattributes : ∀ entry ∈ declaration.attributeMap.entries,
        isLegalName entry.1 ∧ ∃ type, TypeRef.parse? entry.2 = some type :=
      fun entry he => ⟨hs.attributeNames entry he, TypeRef.grammatical_iff.1 (hs.attributeTypes entry he)⟩
    exact ⟨h.baseName ▸ hs.name, h.baseName ▸ ne_root_iff.2 hs.root, h.attributes ▸ hattributes,
      h.attributes ▸ hnames.2 hs.keyNames, hglobals, hlocals, h.settings ▸ hs.billing⟩

theorem exists_ofDeclaration_iff :
    (∃ table, ofDeclaration declaration label = .ok table) ↔ declaration.Sound := by
  constructor
  · rintro ⟨table, ht⟩
    obtain ⟨hassembled, hf⟩ := ofDeclaration_ok_iff.1 ht
    have h := assembled_of_ok hassembled
    have hattributes : ∀ entry ∈ declaration.attributeMap.entries, TypeRef.Grammatical entry.2 := by
      intro entry he
      rw [← h.attributes] at he
      exact TypeRef.grammatical_iff.2 (hf.attributes entry he).2
    have htypes := (keys_legible_iff hattributes).1 (exists_assemble_iff.1 ⟨table, hassembled⟩)
    exact (h.faultless_iff htypes).1 hf
  · intro hs
    have hlegible := (keys_legible_iff hs.attributeTypes).2 hs.keyTypes
    have hassembles : ∃ table, assemble declaration label = .ok table := exists_assemble_iff.2 hlegible
    obtain ⟨table, hassembled⟩ := hassembles
    have hf := ((assembled_of_ok hassembled).faultless_iff hs.keyTypes).2 hs
    exact ⟨table, ofDeclaration_ok_iff.2 ⟨hassembled, hf⟩⟩

/-- A declaration becomes a table exactly if it is sound, and the table has the declared indexes in their order. -/
theorem declaration_becomes_iff (declaration : TableDeclaration) (label : Option String) :
    ((∃ table, ofDeclaration declaration label = .ok table) ↔ declaration.Sound) ∧
    ∀ table, ofDeclaration declaration label = .ok table →
      List.Forall₂ (GlobalIndexDeclaration.Becomes declaration.name declaration.attributeMap)
        declaration.globalIndexes table.globalIndexes ∧
      List.Forall₂ (LocalIndexDeclaration.Becomes declaration.name declaration.attributeMap)
        declaration.localIndexes table.localIndexes := by
  refine ⟨exists_ofDeclaration_iff, fun table ht => ?_⟩
  have h := assembled_of_declaration ht
  exact ⟨h.globalIndexes.imp fun _ _ => GlobalIndexDeclaration.becomes_of_toIndex,
    h.localIndexes.imp fun _ _ => LocalIndexDeclaration.becomes_of_toIndex⟩

theorem ratedEvents_becomes : ratedEvents.Sound ∧ ∃ table, ofDeclaration ratedEvents none = .ok table ∧
    table.globalIndexes.map GlobalIndex.name = ["globalEventTitle"] ∧
    table.localIndexes.map LocalIndex.name = ["localEventRating"] := by
  obtain ⟨table, ht, hnames⟩ := Except.exists_ok_of_decide (x := ofDeclaration ratedEvents none)
    (p := fun table => table.globalIndexes.map GlobalIndex.name = ["globalEventTitle"] ∧
      table.localIndexes.map LocalIndex.name = ["localEventRating"]) (by decide +kernel)
  exact ⟨(declaration_becomes_iff ratedEvents none).1.1 ⟨table, ht⟩, table, ht, hnames⟩

end Table

end TableApi
