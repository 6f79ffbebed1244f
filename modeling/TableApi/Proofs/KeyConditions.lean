import Mathlib.Data.List.TakeWhile
import TableApi.Proofs.Plan
import TableApi.Proofs.TableTypes
import TableApi.Storage

/-! What a query asks storage for: the keys that its request marks, and the index that they belong to. -/
namespace TableApi

def Unmarked (text : String) : Prop :=
  '#' ∉ text.toList

instance (text : String) : Decidable (Unmarked text) := by
  unfold Unmarked
  infer_instance

/-- No name that stands before the text goes on in it. -/
def EndsName (text : String) : Prop :=
  ∃ c cs, text.toList = c :: cs ∧ isNameChar c = false

section Marks

variable {a b name : String} {names : List String}

theorem Unmarked.append (ha : Unmarked a) (hb : Unmarked b) : Unmarked (a ++ b) := by
  simp_all [Unmarked, String.toList_append]

theorem EndsName.append (ha : EndsName a) : EndsName (a ++ b) := by
  obtain ⟨c, cs, hcs, hc⟩ := ha
  exact ⟨c, cs ++ b.toList, by rw [String.toList_append, hcs, List.cons_append], hc⟩

theorem endsName_of_literal {c : Char} {cs : List Char} (h : a.toList = c :: cs)
    (hc : isNameChar c = false) : EndsName a :=
  ⟨c, cs, h, hc⟩

theorem Unmarked.inQuotes (ha : Unmarked a) : Unmarked (inQuotes a) :=
  ((show Unmarked "\"" by decide).append ha).append (by decide)

theorem Unmarked.storageValue (ha : Unmarked a) : Unmarked (storageValue a) :=
  ((show Unmarked "$util.dynamodb.toDynamoDBJson(" by decide).append ha).append (by decide)

end Marks

namespace KeyCondition

variable {key : String} {condition : KeyCondition}

/-- The text of a condition is made of three lists of its keys. -/
def expression (condition : KeyCondition) : String :=
  String.intercalate " AND " (condition.keys.map renderEquality)

def names (condition : KeyCondition) : String :=
  String.intercalate ", " (condition.keys.map renderName)

def values (condition : KeyCondition) : String :=
  String.intercalate ", " (condition.keys.map renderValue)

end KeyCondition

namespace RequestTemplate

variable {index : Option String} {condition : KeyCondition}

end RequestTemplate

/-- The attribute that stores the key. -/
def KeyArgument.toAttribute (argument : KeyArgument) : KeyAttribute :=
  ⟨argument.name, AttributeType.classify argument.type.name⟩

/-- The keys stand first, in order, in the key schema of what the index names: the table itself, or one of
its indexes. A local index has the partition key of its table. -/
inductive TableDescriptor.Targets (descriptor : TableDescriptor) : Option String → List KeyAttribute → Prop
  | table {keys : List KeyAttribute} : keys <+: descriptor.partition :: descriptor.sort.toList →
      Targets descriptor none keys
  | globalIndex {index : GlobalIndexDescriptor} {keys : List KeyAttribute} :
      index ∈ descriptor.globalIndexes → keys <+: index.partition :: index.sort.toList →
      Targets descriptor (some index.name) keys
  | localIndex {index : LocalIndexDescriptor} : index ∈ descriptor.localIndexes →
      Targets descriptor (some index.name) [descriptor.partition, index.sort]

namespace Table

theorem isIndexNameChar_of_name {name : String} (h : isIndexName name) :
    ∀ c ∈ name.toList, isIndexNameChar c = true := by
  simp only [isIndexName, Bool.and_eq_true, List.all_eq_true] at h
  exact h.2

/-- The keys that stand in the place of a role, in the table or in an index. -/
def keysAt (table : Table) : KeyRole → List Key
  | .partition => table.primary.partition :: table.globalIndexes.map GlobalIndex.partition
  | .sort => table.primary.sort.toList ++ table.globalIndexes.flatMap (·.sort.toList) ++
      table.localIndexes.map LocalIndex.sort

theorem mem_allKeys_of_keysAt {table : Table} {role : KeyRole} {key : Key} (h : key ∈ table.keysAt role) :
    key ∈ table.allKeys := by
  cases role with
  | partition =>
    rcases List.mem_cons.1 h with rfl | h
    · exact List.mem_append_left _ (List.mem_append_left _ List.mem_cons_self)
    · obtain ⟨index, hi, rfl⟩ := List.mem_map.1 h
      exact List.mem_append_left _
        (List.mem_append_right _ (List.mem_flatMap.2 ⟨index, hi, List.mem_cons_self⟩))
  | sort =>
    rcases List.mem_append.1 h with h | h
    · rcases List.mem_append.1 h with h | h
      · exact List.mem_append_left _ (List.mem_append_left _ (List.mem_cons_of_mem _ h))
      · obtain ⟨index, hi, hs⟩ := List.mem_flatMap.1 h
        exact List.mem_append_left _
          (List.mem_append_right _ (List.mem_flatMap.2 ⟨index, hi, List.mem_cons_of_mem _ hs⟩))
    · exact List.mem_append_right _ h

end Table

namespace Candidate

variable {table : Table} {o : Operation}

theorem targets (h : Candidate table o) (hk : o.kind = .query) :
    table.describe.Targets o.index (o.keys.map KeyArgument.toAttribute) := by
  have hglobal : ∀ index ∈ table.globalIndexes, index.describe ∈ table.describe.globalIndexes :=
    fun index hi => List.mem_map_of_mem hi
  have hlocal : ∀ index ∈ table.localIndexes, index.describe ∈ table.describe.localIndexes :=
    fun index hi => List.mem_map_of_mem hi
  cases h with
  | scan | get | create | put | delete | change => cases hk
  | list => exact .table (List.prefix_append _ _)
  | globalPartition hq hi => exact .globalIndex (hglobal _ hi) (List.prefix_append _ _)
  | @globalSort index sort hq hi hs =>
    have hkeys : index.describe.partition :: index.describe.sort.toList =
        [index.partition.toAttribute, sort.toAttribute] := by
      simp [GlobalIndex.describe, hs]
    exact .globalIndex (hglobal _ hi) (hkeys ▸ List.prefix_rfl)
  | localSort hq hg hi => exact .localIndex (hlocal _ hi)

/-- An operation asks for keys of the table or of its indexes only, each with the type of the key and in the role of
its place. -/
theorem exists_ofKey (h : Candidate table o) {argument : KeyArgument} (ha : argument ∈ o.keys) :
    ∃ key ∈ table.keysAt argument.role, KeyArgument.ofKey key argument.role = argument := by
  have hprimary : table.primary.partition ∈ table.keysAt .partition := List.mem_cons_self
  have hglobal : ∀ index ∈ table.globalIndexes, index.partition ∈ table.keysAt .partition :=
    fun index hi => List.mem_cons_of_mem _ (List.mem_map_of_mem hi)
  have hprimarySort : ∀ sort, table.primary.sort = some sort → sort ∈ table.keysAt .sort :=
    fun sort hs => List.mem_append_left _ (List.mem_append_left _ (Option.mem_toList.2 hs))
  have hglobalSort : ∀ index ∈ table.globalIndexes, ∀ sort, index.sort = some sort → sort ∈ table.keysAt .sort := by
    intro index hi sort hs
    exact List.mem_append_left _
      (List.mem_append_right _ (List.mem_flatMap.2 ⟨index, hi, Option.mem_toList.2 hs⟩))
  have hlocal : ∀ index ∈ table.localIndexes, index.sort ∈ table.keysAt .sort :=
    fun index hi => List.mem_append_right _ (List.mem_map_of_mem hi)
  cases h with
  | scan | create => cases ha
  | get | put | delete | change =>
    rcases List.mem_cons.1 ha with rfl | ha
    · exact ⟨_, hprimary, rfl⟩
    · obtain ⟨key, hs, rfl⟩ := Option.map_eq_some_iff.1 (Option.mem_toList.1 ha)
      exact ⟨key, hprimarySort key hs, rfl⟩
  | list =>
    obtain rfl := List.mem_singleton.1 ha
    exact ⟨_, hprimary, rfl⟩
  | globalPartition hq hi =>
    obtain rfl := List.mem_singleton.1 ha
    exact ⟨_, hglobal _ hi, rfl⟩
  | globalSort hq hi hs =>
    rcases List.mem_pair.1 ha with rfl | rfl
    · exact ⟨_, hglobal _ hi, rfl⟩
    · exact ⟨_, hglobalSort _ hi _ hs, rfl⟩
  | localSort hq hg hi =>
    rcases List.mem_pair.1 ha with rfl | rfl
    · exact ⟨_, hprimary, rfl⟩
    · exact ⟨_, hlocal _ hi, rfl⟩

theorem legal_key (h : Candidate table o) (ha : table.Accepted) :
    ∀ name ∈ o.keys.map KeyArgument.name, isLegalName name := by
  intro name hname
  obtain ⟨argument, hargument, rfl⟩ := List.mem_map.1 hname
  obtain ⟨key, hkey, hsame⟩ := h.exists_ofKey hargument
  rw [← hsame]
  exact ha.legal_key (Table.mem_allKeys_of_keysAt hkey)

theorem keys_ne_nil (h : Candidate table o) (hk : o.kind = .query) : o.keys ≠ [] := by
  rw [ne_eq, h.keys_eq_nil_iff]
  simp [hk]

end Candidate

namespace Table

variable {table : Table} {o : Operation}

theorem exists_condition (table : Table) (hk : o.kind = .query) (hn : o.keys ≠ []) : ∃ condition : KeyCondition,
    condition.keys = o.keys.map KeyArgument.name ∧
      (table.bindingOf o).request = (RequestTemplate.query o.index condition).render := by
  obtain ⟨first, others, hkeys⟩ := List.exists_cons_of_ne_nil hn
  refine ⟨⟨first.name, others.map KeyArgument.name⟩, by simp [KeyCondition.keys, hkeys], ?_⟩
  change (o.template table.primary.partition.name).render = _
  simp only [Operation.template, hk, hkeys, List.map_cons]

/-- Events that may also be found by their title, and in one place by their rating. -/
def ratedEvents : TableDeclaration :=
  { TableDeclaration.ofName "Event" (.named "place") with
    sort := some (.named "time")
    attributes := some (.typed (.ofList [("place", "ID!"), ("time", "Int"), ("title", "String"),
      ("rating", "Int")]))
    globalIndexes := [.named "title"]
    localIndexes := [.named "rating"] }

end Table

end TableApi
