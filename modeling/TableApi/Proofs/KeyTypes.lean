import TableApi.Proofs.Assembly
import TableApi.Proofs.FirstOfName
import TableApi.Storage

/-! Under which types the keys of a table stand in storage. Every use of a key has the type that was declared
for this use; the definitions of a descriptor have that of the first use. -/
namespace TableApi

namespace KeyDeclaration

variable {declaration : KeyDeclaration} {attributes : Attributes} {key : Key}

/-- The storage type of a declared key of a table with these attributes. -/
def storedAs (declaration : KeyDeclaration) (attributes : Attributes) : Option AttributeType := do
  let text ← declaration.ownType <|> attributes.get? declaration.name
  let type ← TypeRef.parse? text
  return .classify type.name

/-- The key has the declared name, and the declared type if it is that of an attribute. -/
def Builds (attributes : Attributes) (declaration : KeyDeclaration) (key : Key) : Prop :=
  key.name = declaration.name ∧
    (key.name ∈ attributes.names → declaration.storedAs attributes = some key.toAttribute.type)

theorem Reads.builds (h : Reads attributes declaration key) : Builds attributes declaration key := by
  refine ⟨h.1, fun hn => ?_⟩
  obtain ⟨text, htext⟩ := exists_typeText (h.1 ▸ hn)
  have htype := h.2 text htext
  unfold typeText at htext
  simp [storedAs, htext, htype, Key.toAttribute]

end KeyDeclaration

namespace TableDeclaration

/-- Keys of one name are stored as one type. -/
def KeysAgree (declaration : TableDeclaration) : Prop :=
  ∀ a ∈ declaration.keys, ∀ b ∈ declaration.keys, a.name = b.name →
    a.storedAs declaration.attributeMap = b.storedAs declaration.attributeMap

instance (declaration : TableDeclaration) : Decidable declaration.KeysAgree := by
  unfold KeysAgree
  infer_instance

end TableDeclaration

namespace TableDescriptor

def keys (descriptor : TableDescriptor) : List KeyAttribute :=
  descriptor.partition :: descriptor.sort.toList ++
    descriptor.globalIndexes.flatMap (fun index => index.partition :: index.sort.toList) ++
    descriptor.localIndexes.map LocalIndexDescriptor.sort

/-- Every key of the table and of its indexes is defined under its name with its type. -/
def Consistent (descriptor : TableDescriptor) : Prop :=
  ∀ key ∈ descriptor.keys, key ∈ descriptor.attributes

instance (descriptor : TableDescriptor) : Decidable descriptor.Consistent :=
  inferInstanceAs (Decidable (∀ key ∈ descriptor.keys, key ∈ descriptor.attributes))

end TableDescriptor

namespace Table

variable {table : Table} {declaration : TableDeclaration} {label : Option String}

theorem describe_keys (table : Table) : table.describe.keys = table.allKeys.map Key.toAttribute := by
  have hglobal : table.globalIndexes.flatMap (fun index => index.describe.partition :: index.describe.sort.toList) =
      table.globalIndexes.flatMap fun index => index.keys.map Key.toAttribute := by
    refine List.flatMap_congr fun index _ => ?_
    cases hs : index.sort <;> simp [GlobalIndex.describe, GlobalIndex.keys, hs]
  simp only [TableDescriptor.keys, describe, allKeys, PrimaryKey.keys, List.map_append, List.map_cons,
    List.flatMap_map, List.map_map, List.map_flatMap, hglobal]
  cases table.primary.sort <;> rfl

theorem keys_build (h : ofDeclaration declaration label = .ok table) :
    table.attributes = declaration.attributeMap ∧
      List.Forall₂ (KeyDeclaration.Builds declaration.attributeMap) declaration.keys table.allKeys := by
  have hassembled := assembled_of_declaration h
  exact ⟨hassembled.attributes, hassembled.keys_read.imp fun _ _ => KeyDeclaration.Reads.builds⟩

/-- What a descriptor defines is the first use of every key. -/
theorem consistent_iff : table.describe.Consistent ↔ ∀ a ∈ table.allKeys, ∀ b ∈ table.allKeys,
    a.name = b.name → a.toAttribute.type = b.toAttribute.type := by
  have hfirst : table.describe.attributes = firstByName KeyAttribute.name table.describe.keys := by
    rw [describe_keys]
    rfl
  rw [TableDescriptor.Consistent, hfirst, forall_mem_firstByName_iff, describe_keys, List.forall_mem_map]
  refine forall₂_congr fun a _ => ?_
  rw [List.forall_mem_map]
  refine forall₂_congr fun b _ => imp_congr_right fun hname => ?_
  constructor
  · intro h
    exact congrArg KeyAttribute.type h
  · intro h
    exact (KeyAttribute.mk.injEq ..).mpr ⟨hname, h⟩

theorem consistent_iff_keysAgree (h : ofDeclaration declaration label = .ok table) :
    table.describe.Consistent ↔ declaration.KeysAgree := by
  obtain ⟨hattributes, hkeys⟩ := keys_build h
  have hdeclared : ∀ key ∈ table.allKeys, key.name ∈ declaration.attributeMap.names :=
    fun key hk => hattributes ▸ (accepted_of_declaration h).key_declared hk
  rw [consistent_iff]
  constructor
  · intro hsame a ha b hb hname
    obtain ⟨first, hfirst, hfirstName, hfirstType⟩ := forall₂_exists_right hkeys ha
    obtain ⟨second, hsecond, hsecondName, hsecondType⟩ := forall₂_exists_right hkeys hb
    have htype := hsame first hfirst second hsecond (hfirstName.trans (hname.trans hsecondName.symm))
    rw [hfirstType (hdeclared first hfirst), hsecondType (hdeclared second hsecond), htype]
  · intro hagree first hfirst second hsecond hname
    obtain ⟨a, ha, haName, haType⟩ := forall₂_exists_left hkeys hfirst
    obtain ⟨b, hb, hbName, hbType⟩ := forall₂_exists_left hkeys hsecond
    have htype := hagree a ha b hb (haName.symm.trans (hname.trans hbName))
    rw [haType (hdeclared first hfirst), hbType (hdeclared second hsecond)] at htype
    exact Option.some.inj htype

/-- A descriptor defines every name of a key once, with the type of the first key of that name. All keys
have the types of their definitions exactly where keys that are declared under one name are stored as one
type, and so where none of them comes with a type of its own. -/
theorem key_definitions (h : ofDeclaration declaration label = .ok table) :
    (table.describe.attributes.map KeyAttribute.name).Nodup ∧
      (∀ key ∈ table.describe.keys, ∃ first ∈ table.describe.attributes,
        table.describe.keys.find? (·.name = key.name) = some first) ∧
      (table.describe.Consistent ↔ declaration.KeysAgree) ∧
      ((∀ key ∈ declaration.keys, key.ownType = none) → table.describe.Consistent) := by
  have hiff := consistent_iff_keysAgree h
  refine ⟨firstByName_nodup _ _, ?_, hiff, ?_⟩
  · intro key hk
    obtain ⟨first, hfirst, hname⟩ := List.mem_map.1
      ((mem_names_firstByName KeyAttribute.name table.describe.keys key.name).2 (List.mem_map_of_mem hk))
    refine ⟨first, ?_, ?_⟩
    · rw [describe_keys] at hfirst
      exact hfirst
    · rw [← hname]
      exact mem_firstByName_iff.1 hfirst
  · intro hnone
    refine hiff.2 fun a ha b hb hname => ?_
    simp only [KeyDeclaration.storedAs, hnone a ha, hnone b hb, hname]

end Table

/-- Dogs by their identity and their age, a whole number to which the sort key gives a type as well, and in an
index by their age alone. -/
def agedDogs (typeOfKey : String) : TableDeclaration :=
  { TableDeclaration.ofName "Dog" (.named "dogId") with
    sort := some (.reference "age" (some typeOfKey) none)
    attributes := some (.typed (.ofList [("dogId", "ID!"), ("age", "Int")]))
    globalIndexes := [.named "age"] }

/-- Other numbers are stored like whole ones. -/
theorem agedDogs_float_consistent : ∃ table, Table.ofDeclaration (agedDogs "Float") none = .ok table ∧
    table.describe.keys = [⟨"dogId", .string⟩, ⟨"age", .number⟩, ⟨"age", .number⟩] ∧
    table.describe.Consistent := by
  obtain ⟨table, ht, hkeys⟩ := Except.exists_ok_of_decide (x := Table.ofDeclaration (agedDogs "Float") none)
    (p := fun table => table.describe.keys = [⟨"dogId", .string⟩, ⟨"age", .number⟩, ⟨"age", .number⟩])
    (by decide +kernel)
  exact ⟨table, ht, hkeys, (Table.key_definitions ht).2.2.1.2 (by decide +kernel)⟩

/-- With a text for the sort key the age is defined as a text, and the index has it as a number. -/
theorem agedDogs_text_not_consistent : ∃ table, Table.ofDeclaration (agedDogs "String") none = .ok table ∧
    table.describe.attributes = [⟨"dogId", .string⟩, ⟨"age", .string⟩] ∧
    table.describe.globalIndexes.map GlobalIndexDescriptor.partition = [⟨"age", .number⟩] ∧
    ¬ table.describe.Consistent := by
  obtain ⟨table, ht, hattributes, hindexes⟩ :=
    Except.exists_ok_of_decide (x := Table.ofDeclaration (agedDogs "String") none)
      (p := fun table => table.describe.attributes = [⟨"dogId", .string⟩, ⟨"age", .string⟩] ∧
        table.describe.globalIndexes.map GlobalIndexDescriptor.partition = [⟨"age", .number⟩] ∧
        ¬ table.describe.Consistent) (by decide +kernel)
  exact ⟨table, ht, hattributes, hindexes⟩

end TableApi
