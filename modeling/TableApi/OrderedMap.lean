/-! Maps from names to values that remember the order in which the names first came.
A name given again keeps its place and takes the new value. -/
namespace TableApi

/-- Gives `name` the value `value`: in its place when it is there, else at the end. -/
def putEntry (name : String) (value : α) : List (String × α) → List (String × α)
  | [] => [(name, value)]
  | entry :: rest =>
    if entry.1 = name then (name, value) :: rest else entry :: putEntry name value rest

theorem putEntry_names (name : String) (value : α) (entries : List (String × α)) :
    (putEntry name value entries).map Prod.fst =
      if name ∈ entries.map Prod.fst then entries.map Prod.fst else entries.map Prod.fst ++ [name] := by
  induction entries with
  | nil => simp [putEntry]
  | cons entry rest ih =>
    by_cases h : entry.1 = name
    · simp [putEntry, h]
    · have h' : name ≠ entry.1 := fun e => h e.symm
      by_cases hr : name ∈ rest.map Prod.fst
      · simp only [putEntry, h, if_false, List.map_cons, ih, hr, if_true, List.mem_cons, or_true]
      · simp only [putEntry, h, if_false, List.map_cons, ih, hr, List.mem_cons, h', or_self,
          List.cons_append]

theorem putEntry_nodup {name : String} {value : α} {entries : List (String × α)}
    (h : (entries.map Prod.fst).Nodup) : ((putEntry name value entries).map Prod.fst).Nodup := by
  rw [putEntry_names]
  split
  · exact h
  · rename_i hn
    exact List.nodup_append.2 ⟨h, by simp, by rintro a ha b hb rfl; simp at hb; exact hn (hb ▸ ha)⟩

theorem lookup_putEntry (name key : String) (value : α) (entries : List (String × α)) :
    (putEntry name value entries).lookup key =
      if key = name then some value else entries.lookup key := by
  induction entries with
  | nil =>
    by_cases h : key = name
    · simp [putEntry, h]
    · simp [putEntry, List.lookup_cons, h, beq_eq_false_iff_ne.2 h]
  | cons entry rest ih =>
    obtain ⟨n, v⟩ := entry
    by_cases h : n = name
    · subst h
      by_cases hk : key = n
      · simp [putEntry, hk]
      · simp [putEntry, List.lookup_cons, hk, beq_eq_false_iff_ne.2 hk]
    · by_cases hk : key = n
      · subst hk; simp [putEntry, h]
      · simp [putEntry, h, List.lookup_cons, beq_eq_false_iff_ne.2 hk, ih]

structure OrderedMap (α : Type) where
  entries : List (String × α)
  nodup : (entries.map Prod.fst).Nodup
  deriving DecidableEq, Repr

namespace OrderedMap

def empty : OrderedMap α := ⟨[], by simp⟩

instance : EmptyCollection (OrderedMap α) := ⟨empty⟩
instance : Inhabited (OrderedMap α) := ⟨empty⟩

def insert (map : OrderedMap α) (name : String) (value : α) : OrderedMap α :=
  ⟨putEntry name value map.entries, putEntry_nodup map.nodup⟩

/-- All entries of a list, entered one after another. -/
def extend (map : OrderedMap α) (entries : List (String × α)) : OrderedMap α :=
  entries.foldl (fun m entry => m.insert entry.1 entry.2) map

def ofList (entries : List (String × α)) : OrderedMap α :=
  empty.extend entries

def names (map : OrderedMap α) : List String :=
  map.entries.map Prod.fst

def isEmpty (map : OrderedMap α) : Bool :=
  map.entries.isEmpty

def get? (map : OrderedMap α) (name : String) : Option α :=
  map.entries.lookup name

def contains (map : OrderedMap α) (name : String) : Bool :=
  map.names.contains name

/-- The entries whose name passes the test. -/
def filterNames (map : OrderedMap α) (keep : String → Bool) : OrderedMap α :=
  ⟨map.entries.filter (keep ·.1),
    ((List.filter_sublist (l := map.entries)).map Prod.fst).nodup map.nodup⟩

/-- Applies `change` to the value of `name`, if it is there. -/
def modify (map : OrderedMap α) (name : String) (change : α → α) : OrderedMap α :=
  ⟨map.entries.map fun entry => if entry.1 = name then (entry.1, change entry.2) else entry, by
    have h : (map.entries.map fun entry => if entry.1 = name then (entry.1, change entry.2) else entry).map
        Prod.fst = map.entries.map Prod.fst := by
      rw [List.map_map]
      exact List.map_congr_left fun entry _ => by by_cases he : entry.1 = name <;> simp [he]
    rw [h]; exact map.nodup⟩

def size (map : OrderedMap α) : Nat :=
  map.entries.length

theorem ext {a b : OrderedMap α} (h : a.entries = b.entries) : a = b := by
  cases a; cases b; cases h; rfl

@[simp] theorem get?_insert (map : OrderedMap α) (name key : String) (value : α) :
    (map.insert name value).get? key = if key = name then some value else map.get? key :=
  lookup_putEntry name key value map.entries

theorem names_insert (map : OrderedMap α) (name : String) (value : α) :
    (map.insert name value).names = if name ∈ map.names then map.names else map.names ++ [name] :=
  putEntry_names name value map.entries

end OrderedMap

end TableApi
