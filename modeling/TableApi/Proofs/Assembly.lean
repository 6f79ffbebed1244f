import TableApi.Proofs.TableTypes

/-! How a table is put together from its declaration. Keys and indexes are declared in three forms each; every form
is brought to one, so that what is built can be told without them. -/
namespace TableApi

theorem Except.mapM_toList_ok_iff {ε α β : Type} {f : α → Except ε β} {x : Option α} {y : Option β} :
    x.mapM f = .ok y ↔ List.Forall₂ (fun a b => f a = .ok b) x.toList y.toList := by
  cases x with
  | none => cases y <;> simp
  | some a =>
    rw [Option.mapM_some, map_ok_iff]
    cases y <;> simp

theorem Except.exists_mapM_toList_iff {ε α β : Type} {f : α → Except ε β} {x : Option α} :
    (∃ y, x.mapM f = .ok y) ↔ ∀ a ∈ x.toList, ∃ b, f a = .ok b := by
  cases x with
  | none => exact iff_of_true ⟨none, rfl⟩ (by simp)
  | some a =>
    simp only [Option.mapM_some, map_ok_iff, Option.toList_some, List.mem_singleton, forall_eq]
    constructor
    · rintro ⟨_, b, hb, _⟩
      exact ⟨b, hb⟩
    · rintro ⟨b, hb⟩
      exact ⟨some b, b, hb, rfl⟩

namespace KeyDeclaration

variable {declaration : KeyDeclaration} {role : KeyRole} {attributes : Attributes} {key : Key}

def name : KeyDeclaration → String
  | named name => name
  | reference name _ _ => name
  | built key => key.name

/-- The type that stands with the key itself. A built key gives its own up for that of the attribute. -/
def ownType : KeyDeclaration → Option String
  | reference _ type _ => type
  | named _ | built _ => none

/-- The type that is declared for the key, if there is one. -/
def typeText (declaration : KeyDeclaration) (attributes : Attributes) : Option String :=
  declaration.ownType <|> attributes.get? declaration.name

/-- The type that the key has without one. -/
def untyped : KeyDeclaration → TypeRef
  | named _ | reference _ _ _ => .named "String"
  | built key => key.type

def roleIn (role : KeyRole) : KeyDeclaration → KeyRole
  | named _ => role
  | reference _ _ own => own.getD role
  | built key => key.role

/-- The key has the declared name and, if a type is declared for it, this type. -/
def Reads (attributes : Attributes) (declaration : KeyDeclaration) (key : Key) : Prop :=
  key.name = declaration.name ∧
    ∀ text, declaration.typeText attributes = some text → TypeRef.parse? text = some key.type

theorem make_eq (name : String) (text : Option String) (role : KeyRole) : Key.make name text role =
    match text with
    | some text => (⟨name, ·, role⟩) <$> Key.parseType text
    | none => .ok ⟨name, .named "String", role⟩ := by
  cases text with
  | none =>
    have hstring : Key.parseType "String" = .ok (.named "String") := by decide
    simp only [Key.make, Option.getD_none, hstring]
    rfl
  | some text => rfl

theorem retype_eq (key : Key) (attributes : Attributes) : key.retype attributes =
    match attributes.get? key.name with
    | some text => (⟨key.name, ·, key.role⟩) <$> Key.parseType text
    | none => .ok ⟨key.name, key.type, key.role⟩ := by
  unfold Key.retype
  cases attributes.get? key.name <;> rfl

/-- All that can fail where a key is built is to read the type that is declared for it. -/
theorem toKey_eq (declaration : KeyDeclaration) (role : KeyRole) (attributes : Attributes) :
    declaration.toKey role attributes =
      match declaration.typeText attributes with
      | some text => (⟨declaration.name, ·, declaration.roleIn role⟩) <$> Key.parseType text
      | none => .ok ⟨declaration.name, declaration.untyped, declaration.roleIn role⟩ := by
  cases declaration with
  | named name => exact make_eq name _ role
  | reference name type own => exact make_eq name _ _
  | built key => exact retype_eq key attributes

theorem toKey_reads (h : declaration.toKey role attributes = .ok key) : Reads attributes declaration key := by
  rw [toKey_eq] at h
  cases ht : declaration.typeText attributes with
  | none =>
    rw [ht] at h
    obtain rfl := Except.ok.inj h
    exact ⟨rfl, fun text htext => by simp [ht] at htext⟩
  | some text =>
    simp only [ht, Except.map_ok_iff, Key.parseType_ok_iff] at h
    obtain ⟨type, htype, rfl⟩ := h
    exact ⟨rfl, fun other hother => Option.some.inj (ht.symm.trans hother) ▸ htype⟩

theorem exists_typeText (h : declaration.name ∈ attributes.names) :
    ∃ text, declaration.typeText attributes = some text := by
  unfold typeText
  cases declaration.ownType with
  | some own => exact ⟨own, rfl⟩
  | none => exact Option.ne_none_iff_exists'.1 (mt OrderedMap.get?_eq_none_iff.1 (not_not.2 h))

/-- A type that is declared for the key can be read. -/
def Legible (attributes : Attributes) (declaration : KeyDeclaration) : Prop :=
  ∀ text, declaration.typeText attributes = some text → ∃ type, TypeRef.parse? text = some type

theorem exists_toKey_iff :
    (∃ key, declaration.toKey role attributes = .ok key) ↔ declaration.Legible attributes := by
  rw [toKey_eq, Legible]
  cases declaration.typeText attributes with
  | none => simp
  | some text => simp [Key.parseType_ok_iff]

theorem names_of_reads {declarations : List KeyDeclaration} {keys : List Key}
    (h : List.Forall₂ (Reads attributes) declarations keys) : keys.map Key.name = declarations.map name := by
  induction h with
  | nil => rfl
  | cons hkey _ ih => rw [List.map_cons, List.map_cons, hkey.1, ih]

end KeyDeclaration

section Indexes

variable {attributes : Attributes} {table : String}

namespace GlobalIndexDeclaration

variable {declaration : GlobalIndexDeclaration} {index : GlobalIndex}

def partition : GlobalIndexDeclaration → KeyDeclaration
  | named partition => .named partition
  | declared form => form.partition
  | built index => .built index.partition

def sort : GlobalIndexDeclaration → Option KeyDeclaration
  | named _ => none
  | declared form => form.sort
  | built index => index.sort.map .built

def keys : GlobalIndexDeclaration → List KeyDeclaration
  | named partition => [.named partition]
  | declared form => form.partition :: form.sort.toList
  | built index => index.keys.map .built

/-- The name that the declaration gives. -/
def givenName : GlobalIndexDeclaration → Option String
  | named _ => none
  | declared form => form.name
  | built index => some index.name

def list : GlobalIndexDeclaration → Bool
  | named _ => false
  | declared form => form.list
  | built index => index.list

def projection : GlobalIndexDeclaration → Projection
  | named _ => .all
  | declared form => .ofInclude form.included
  | built index => index.projection

def capacity : GlobalIndexDeclaration → Capacity
  | named _ => .onDemand
  | declared form => form.capacity
  | built index => index.capacity

theorem keys_eq (declaration : GlobalIndexDeclaration) :
    declaration.keys = declaration.partition :: declaration.sort.toList := by
  cases declaration with
  | named _ | declared _ => rfl
  | built index => cases hs : index.sort <;> simp [keys, partition, sort, GlobalIndex.keys, hs]

theorem toIndex_eq (declaration : GlobalIndexDeclaration) (table : String) (attributes : Attributes) :
    declaration.toIndex table attributes = do
      let partition ← declaration.partition.toKey .partition attributes
      let sort ← declaration.sort.mapM (·.toKey .sort attributes)
      let name := declaration.givenName.getD
        (GlobalIndex.defaultName table partition.name (sort.map Key.name))
      return ⟨name, partition, sort, declaration.list, declaration.projection, declaration.capacity⟩ := by
  cases declaration with
  | named _ | declared _ => rfl
  | built index =>
    cases index with
    | mk name partition sort list projection capacity => cases sort <;> rfl

theorem toIndex_reads (h : declaration.toIndex table attributes = .ok index) :
    List.Forall₂ (KeyDeclaration.Reads attributes) declaration.keys index.keys := by
  simp only [toIndex_eq, Except.bind_ok_iff, Except.pure_ok_iff] at h
  obtain ⟨partition, hp, sort, hs, rfl⟩ := h
  rw [keys_eq]
  exact .cons (KeyDeclaration.toKey_reads hp)
    ((Except.mapM_toList_ok_iff.1 hs).imp fun _ _ => KeyDeclaration.toKey_reads)

theorem exists_toIndex_iff : (∃ index, declaration.toIndex table attributes = .ok index) ↔
    ∀ key ∈ declaration.keys, key.Legible attributes := by
  have hkeys : (∃ index, declaration.toIndex table attributes = .ok index) ↔
      (∃ partition, declaration.partition.toKey .partition attributes = .ok partition) ∧
        ∃ sort, declaration.sort.mapM (·.toKey .sort attributes) = .ok sort := by
    simp only [toIndex_eq, Except.bind_ok_iff, Except.pure_ok_iff]
    constructor
    · rintro ⟨_, partition, hp, sort, hs, _⟩
      exact ⟨⟨partition, hp⟩, sort, hs⟩
    · rintro ⟨⟨partition, hp⟩, sort, hs⟩
      exact ⟨_, partition, hp, sort, hs, rfl⟩
  rw [hkeys, keys_eq, List.forall_mem_cons, Except.exists_mapM_toList_iff]
  simp only [KeyDeclaration.exists_toKey_iff]

end GlobalIndexDeclaration

namespace LocalIndexDeclaration

variable {declaration : LocalIndexDeclaration} {index : LocalIndex}

def sort : LocalIndexDeclaration → KeyDeclaration
  | named sort => .named sort
  | declared form => form.sort
  | built index => .built index.sort

/-- The name that the declaration gives. -/
def givenName : LocalIndexDeclaration → Option String
  | named _ => none
  | declared form => form.name
  | built index => some index.name

def projection : LocalIndexDeclaration → Projection
  | named _ => .all
  | declared form => .ofInclude form.included
  | built index => index.projection

theorem toIndex_eq (declaration : LocalIndexDeclaration) (table : String) (attributes : Attributes) :
    declaration.toIndex table attributes = do
      let sort ← declaration.sort.toKey .sort attributes
      return ⟨declaration.givenName.getD (LocalIndex.defaultName table sort.name), sort,
        declaration.projection⟩ := by
  cases declaration <;> rfl

theorem toIndex_reads (h : declaration.toIndex table attributes = .ok index) :
    KeyDeclaration.Reads attributes declaration.sort index.sort := by
  simp only [toIndex_eq, Except.bind_ok_iff, Except.pure_ok_iff] at h
  obtain ⟨sort, hs, rfl⟩ := h
  exact KeyDeclaration.toKey_reads hs

theorem exists_toIndex_iff :
    (∃ index, declaration.toIndex table attributes = .ok index) ↔ declaration.sort.Legible attributes := by
  rw [toIndex_eq, Except.exists_bind_pure_iff, KeyDeclaration.exists_toKey_iff]

end LocalIndexDeclaration

end Indexes

namespace TableDeclaration

def attributeMap (declaration : TableDeclaration) : Attributes :=
  (declaration.attributes.map (·.toAttributes)).getD .empty

/-- The keys as they are declared, in the order in which a descriptor goes through them. -/
def keys (declaration : TableDeclaration) : List KeyDeclaration :=
  declaration.partition :: declaration.sort.toList ++
    declaration.globalIndexes.flatMap GlobalIndexDeclaration.keys ++
    declaration.localIndexes.map LocalIndexDeclaration.sort

end TableDeclaration

namespace Table

variable {declaration : TableDeclaration} {label : Option String} {table : Table}

/-- The table has what is declared, whether or not it passes the checks. -/
structure Assembled (declaration : TableDeclaration) (table : Table) : Prop where
  baseName : table.baseName = declaration.name
  attributes : table.attributes = declaration.attributeMap
  settings : table.settings = declaration.settings.getD .default
  partition : declaration.partition.toKey .partition declaration.attributeMap = .ok table.primary.partition
  sort : declaration.sort.mapM (·.toKey .sort declaration.attributeMap) = .ok table.primary.sort
  globalIndexes : List.Forall₂
    (fun declared index => declared.toIndex declaration.name declaration.attributeMap = .ok index)
    declaration.globalIndexes table.globalIndexes
  localIndexes : List.Forall₂
    (fun declared index => declared.toIndex declaration.name declaration.attributeMap = .ok index)
    declaration.localIndexes table.localIndexes

theorem assembled_of_ok (h : assemble declaration label = .ok table) : Assembled declaration table := by
  simp only [assemble, Except.bind_ok_iff, Except.pure_ok_iff] at h
  obtain ⟨partition, hp, sort, hs, localIndexes, hl, globalIndexes, hg, rfl⟩ := h
  exact ⟨rfl, rfl, rfl, hp, hs, Except.mapM_ok_iff.1 hg, Except.mapM_ok_iff.1 hl⟩

theorem assembled_of_declaration (h : ofDeclaration declaration label = .ok table) :
    Assembled declaration table :=
  assembled_of_ok (ofDeclaration_ok_iff.1 h).1

/-- Before the checks nothing but a type that cannot be read keeps a declaration from becoming a table. -/
theorem exists_assemble_iff : (∃ table, assemble declaration label = .ok table) ↔
    ∀ key ∈ declaration.keys, key.Legible declaration.attributeMap := by
  have hparts : (∃ table, assemble declaration label = .ok table) ↔
      (∃ partition, declaration.partition.toKey .partition declaration.attributeMap = .ok partition) ∧
      (∃ sort, declaration.sort.mapM (·.toKey .sort declaration.attributeMap) = .ok sort) ∧
      (∃ indexes, declaration.globalIndexes.mapM (·.toIndex declaration.name declaration.attributeMap) =
        .ok indexes) ∧
      ∃ indexes, declaration.localIndexes.mapM (·.toIndex declaration.name declaration.attributeMap) =
        .ok indexes := by
    simp only [assemble, Except.bind_ok_iff, Except.pure_ok_iff]
    constructor
    · rintro ⟨_, partition, hp, sort, hs, localIndexes, hl, globalIndexes, hg, _⟩
      exact ⟨⟨partition, hp⟩, ⟨sort, hs⟩, ⟨globalIndexes, hg⟩, localIndexes, hl⟩
    · rintro ⟨⟨partition, hp⟩, ⟨sort, hs⟩, ⟨globalIndexes, hg⟩, localIndexes, hl⟩
      exact ⟨_, partition, hp, sort, hs, localIndexes, hl, globalIndexes, hg, rfl⟩
  simp only [hparts, TableDeclaration.keys, List.cons_append, List.forall_mem_cons, List.forall_mem_append,
    List.forall_mem_flatMap, List.forall_mem_map, Except.exists_mapM_toList_iff, Except.exists_mapM_ok_iff,
    KeyDeclaration.exists_toKey_iff, GlobalIndexDeclaration.exists_toIndex_iff,
    LocalIndexDeclaration.exists_toIndex_iff, and_assoc]

/-- Keys are read one for one. -/
theorem Assembled.keys_read (h : Assembled declaration table) :
    List.Forall₂ (KeyDeclaration.Reads declaration.attributeMap) declaration.keys table.allKeys := by
  have hsort := (Except.mapM_toList_ok_iff.1 h.sort).imp fun _ _ => KeyDeclaration.toKey_reads
  refine List.rel_append (List.rel_append (.cons (KeyDeclaration.toKey_reads h.partition) hsort) ?_) ?_
  · exact List.rel_flatMap (h.globalIndexes.imp fun _ _ => GlobalIndexDeclaration.toIndex_reads) fun _ _ h => h
  · rw [List.forall₂_map_left_iff, List.forall₂_map_right_iff]
    exact h.localIndexes.imp fun _ _ => LocalIndexDeclaration.toIndex_reads

end Table

end TableApi
