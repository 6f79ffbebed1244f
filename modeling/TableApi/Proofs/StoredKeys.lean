import TableApi.Proofs.KeyTypes

/-! Which attributes a descriptor defines for storage, in which order, and which indexes it lists. However many
indexes share a key with the table or with each other, its name is defined once, where it first comes. -/
namespace TableApi

/-- The descriptor has the name, the keys and all else that storage needs of the index. -/
structure GlobalIndexDescriptor.Describes (descriptor : GlobalIndexDescriptor) (index : GlobalIndex) : Prop where
  name : descriptor.name = index.name
  partition : descriptor.partition = index.partition.toAttribute
  sort : descriptor.sort = index.sort.map Key.toAttribute
  projection : descriptor.projection = index.projection
  capacity : descriptor.capacity = index.capacity

structure LocalIndexDescriptor.Describes (descriptor : LocalIndexDescriptor) (index : LocalIndex) : Prop where
  name : descriptor.name = index.name
  sort : descriptor.sort = index.sort.toAttribute
  projection : descriptor.projection = index.projection

namespace Table

variable {table : Table} {declaration : TableDeclaration} {label : Option String}

/-- The names of all keys, repeated or not: the table's partition key and sort key, those of each global index, and
the sort key of each local index. -/
def keyNames (table : Table) : List String :=
  table.primary.partition.name :: (table.primary.sort.map Key.name).toList ++
    table.globalIndexes.flatMap (fun index => index.partition.name :: (index.sort.map Key.name).toList) ++
    table.localIndexes.map (·.sort.name)

theorem keyNames_eq (table : Table) : table.keyNames = table.allKeys.map Key.name := by
  simp only [keyNames, allKeys, PrimaryKey.keys, GlobalIndex.keys, List.map_append, List.map_cons, List.map_flatMap,
    List.map_map, Option.toList_map]
  rfl

/-- Keys are listed as they are declared. -/
theorem keyNames_of_declaration (h : ofDeclaration declaration label = .ok table) :
    table.keyNames = declaration.keys.map KeyDeclaration.name := by
  rw [keyNames_eq]
  exact KeyDeclaration.names_of_reads (assembled_of_declaration h).keys_read

/-- The loop over all keys leaves the first occurrence of each name. -/
theorem attributeNames_eq (table : Table) :
    table.describe.attributes.map KeyAttribute.name = firstByName id table.keyNames := by
  have hnames : (table.allKeys.map Key.toAttribute).map KeyAttribute.name = table.keyNames := by
    rw [keyNames_eq, List.map_map]
    rfl
  rw [← hnames]
  exact map_firstByName

theorem mem_attributeNames_iff {name : String} :
    name ∈ table.describe.attributes.map KeyAttribute.name ↔ name ∈ table.keyNames := by
  have hmem := mem_names_firstByName id table.keyNames name
  rw [List.map_id, List.map_id] at hmem
  rw [attributeNames_eq]
  exact hmem

theorem globalIndexes_described (table : Table) :
    List.Forall₂ GlobalIndexDescriptor.Describes table.describe.globalIndexes table.globalIndexes :=
  List.forall₂_map_left_iff.2 (List.forall₂_same.2 fun _ _ => ⟨rfl, rfl, rfl, rfl, rfl⟩)

theorem localIndexes_described (table : Table) :
    List.Forall₂ LocalIndexDescriptor.Describes table.describe.localIndexes table.localIndexes :=
  List.forall₂_map_left_iff.2 (List.forall₂_same.2 fun _ _ => ⟨rfl, rfl, rfl⟩)

/-- Storage is told the name of every key of a table and of its indexes, and no other: each once, in the order in
which they first come among the keys as they are declared. Its indexes are described one after another. -/
theorem describe_defines_keys (h : ofDeclaration declaration label = .ok table) :
    (table.describe.attributes.map KeyAttribute.name).Nodup ∧
      (∀ name, name ∈ table.describe.attributes.map KeyAttribute.name ↔ name ∈ table.keyNames) ∧
      (table.describe.attributes.map KeyAttribute.name).Pairwise
        (fun a b => table.keyNames.idxOf a < table.keyNames.idxOf b) ∧
      table.keyNames = declaration.keys.map KeyDeclaration.name ∧
      List.Forall₂ GlobalIndexDescriptor.Describes table.describe.globalIndexes table.globalIndexes ∧
      List.Forall₂ LocalIndexDescriptor.Describes table.describe.localIndexes table.localIndexes := by
  have hordered := firstByName_pairwise_idxOf table.keyNames
  rw [← attributeNames_eq] at hordered
  exact ⟨firstByName_nodup _ _, fun _ => mem_attributeNames_iff, hordered, keyNames_of_declaration h,
    globalIndexes_described table, localIndexes_described table⟩

/-- Events with indexes that share keys with the table and with each other. -/
def sharedEvents : TableDeclaration :=
  { TableDeclaration.ofName "Event" (.named "title") with
    sort := some (.named "time")
    attributes := some (.typed (.ofList [("title", "String!"), ("time", "AWSTimestamp!"), ("place", "String"),
      ("rating", "Int")]))
    globalIndexes := [.declared { GlobalIndexForm.ofPartition "place" with sort := some (.named "time") },
      .named "time", .declared { GlobalIndexForm.ofPartition "rating" with sort := some (.named "place") }]
    localIndexes := [.named "rating", .named "place"] }

theorem sharedEvents_defined : ∃ table, ofDeclaration sharedEvents (some "prod") = .ok table ∧
    table.keyNames = ["title", "time", "place", "time", "time", "rating", "place", "rating", "place"] ∧
    table.describe.attributes.map KeyAttribute.name = ["title", "time", "place", "rating"] ∧
    (table.describe.attributes.map KeyAttribute.name).Pairwise
      (fun a b => table.keyNames.idxOf a < table.keyNames.idxOf b) ∧
    List.Forall₂ GlobalIndexDescriptor.Describes table.describe.globalIndexes table.globalIndexes ∧
    table.describe.globalIndexes.map GlobalIndexDescriptor.name =
      ["globalEventPlaceTime", "globalEventTime", "globalEventRatingPlace"] := by
  obtain ⟨table, ht, hkeys, hdefined, hindexes⟩ :=
    Except.exists_ok_of_decide (x := ofDeclaration sharedEvents (some "prod"))
      (p := fun table => table.keyNames =
          ["title", "time", "place", "time", "time", "rating", "place", "rating", "place"] ∧
        table.describe.attributes.map KeyAttribute.name = ["title", "time", "place", "rating"] ∧
        table.describe.globalIndexes.map GlobalIndexDescriptor.name =
          ["globalEventPlaceTime", "globalEventTime", "globalEventRatingPlace"]) (by decide +kernel)
  obtain ⟨_, _, hordered, _, hglobals, _⟩ := describe_defines_keys ht
  exact ⟨table, ht, hkeys, hdefined, hordered, hglobals, hindexes⟩

end Table

end TableApi
