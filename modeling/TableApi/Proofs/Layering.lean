import Mathlib.Data.List.Basic
import Mathlib.Data.Prod.Basic
import TableApi.Proofs.DeclaredTypes

/-! Configurations from several sources. What they are merged to depends on the order of the sources alone and not
on how they are grouped, since of maps that are put together both the names in their order and what stands under each
of them are told source by source. -/
namespace TableApi

/-- Configurations that are merged two by two. -/
inductive Layers where
  | single (config : Config)
  | merge (earlier later : Layers)

namespace Layers

/-- What is merged, the earliest first. -/
def sources : Layers → List Config
  | single config => [config]
  | merge earlier later => earlier.sources ++ later.sources

def merged : Layers → Config
  | single config => config
  | merge earlier later => earlier.merged.merge later.merged

end Layers

namespace OrderedMap

variable {α : Type} {map a b c : OrderedMap α} {name : String} {entries : List (String × α)}

theorem extend_cons {entry : String × α} :
    map.extend (entry :: entries) = (map.insert entry.1 entry.2).extend entries := rfl

/-- Maps are the same if they have the same names in the same order and the same under each. -/
theorem ext_get? (hnames : a.names = b.names) (hget : ∀ name, a.get? name = b.get? name) : a = b := by
  have hentries : ∀ map : OrderedMap α,
      map.entries.map (Prod.map id some) = map.names.map fun name => (name, map.get? name) := by
    intro map
    rw [names, List.map_map]
    refine List.map_congr_left fun entry he => ?_
    rw [Function.comp_apply, get?_eq_some_iff.2 he]
    rfl
  refine ext (List.map_injective_iff.2 (Function.Injective.prodMap Function.injective_id fun _ _ => Option.some.inj) ?_)
  rw [hentries, hentries, hnames]
  exact List.map_congr_left fun name _ => by rw [hget]

/-- Names that are new come behind those that are there, in their order. -/
theorem names_extend (h : (entries.map Prod.fst).Nodup) :
    (map.extend entries).names = map.names ++ (entries.map Prod.fst).filter (· ∉ map.names) := by
  induction entries generalizing map with
  | nil => exact (List.append_nil _).symm
  | cons entry entries ih =>
    obtain ⟨hfresh, hrest⟩ := List.nodup_cons.1 h
    rw [extend_cons, ih hrest, names_insert, List.map_cons]
    by_cases hm : entry.1 ∈ map.names
    · rw [if_pos hm, List.filter_cons_of_neg (by simpa using hm)]
    · have hothers : (entries.map Prod.fst).filter (· ∉ map.names ++ [entry.1]) =
          (entries.map Prod.fst).filter (· ∉ map.names) := by
        refine List.filter_congr fun name hname => ?_
        have hne : name ≠ entry.1 := fun he => hfresh (he ▸ hname)
        simp [hne]
      rw [if_neg hm, hothers, List.filter_cons_of_pos (by simpa using hm), List.append_assoc, List.singleton_append]

/-- Of values that are entered under one name the last stands. -/
theorem get?_extend : (map.extend entries).get? name = (entries.reverse.lookup name <|> map.get? name) := by
  induction entries generalizing map with
  | nil => rfl
  | cons entry entries ih =>
    obtain ⟨first, value⟩ := entry
    rw [extend_cons, ih, get?_insert, List.reverse_cons, List.lookup_append]
    by_cases hname : name = first
    · cases entries.reverse.lookup name <;> simp [hname]
    · cases entries.reverse.lookup name <;> simp [List.lookup_cons, hname, beq_eq_false_iff_ne.2 hname]

theorem get?_extend_entries : (a.extend b.entries).get? name = (b.get? name <|> a.get? name) := by
  have hreverse : b.entries.reverse.lookup name = b.get? name := by
    have hnodup : (b.entries.reverse.map Prod.fst).Nodup := by
      rw [List.map_reverse, List.nodup_reverse]
      exact b.nodup
    refine Option.ext fun value => ?_
    have hmem : (⟨b.entries.reverse, hnodup⟩ : OrderedMap α).get? name = some value ↔ _ := get?_eq_some_iff
    exact hmem.trans (List.mem_reverse.trans get?_eq_some_iff.symm)
  rw [get?_extend, hreverse]

theorem extend_assoc : (a.extend b.entries).extend c.entries = a.extend (b.extend c.entries).entries := by
  refine ext_get? ?_ fun name => ?_
  · have hnames : ∀ map other : OrderedMap α, (map.extend other.entries).names =
        map.names ++ other.names.filter (· ∉ map.names) := fun _ other => names_extend other.nodup
    rw [hnames, hnames, hnames, hnames, List.filter_append, List.filter_filter, List.append_assoc]
    refine congrArg (fun rest => a.names ++ (b.names.filter (· ∉ a.names) ++ rest)) ?_
    refine List.filter_congr fun name _ => ?_
    by_cases ha : name ∈ a.names <;> simp [ha]
  · simp only [get?_extend_entries, Option.orElse_eq_orElse, Option.orElse_eq_or, Option.or_assoc]

theorem empty_extend : empty.extend a.entries = a := by
  refine ext_get? ?_ fun name => ?_
  · rw [names_extend a.nodup]
    exact List.filter_eq_self.2 (by simp [names, empty])
  · rw [get?_extend_entries]
    cases a.get? name <;> rfl

end OrderedMap

namespace AuxiliaryTypes

variable {a b c : AuxiliaryTypes} {category : TypeCategory}

theorem ofCategory_merge :
    (a.merge b).ofCategory category = (a.ofCategory category).extend (b.ofCategory category).entries := by
  cases category <;> rfl

theorem merge_assoc : (a.merge b).merge c = a.merge (b.merge c) := by
  simp only [merge, OrderedMap.extend_assoc]

theorem empty_merge : empty.merge a = a := by
  simp only [merge, empty, OrderedMap.empty_extend]

end AuxiliaryTypes

namespace Config

variable {a b c : Config}

/-- Of lists the last that is not empty counts. -/
theorem lastFilled_assoc {α : Type} (xs ys zs : List α) :
    (if zs.isEmpty then if ys.isEmpty then xs else ys else zs) =
      if (if zs.isEmpty then ys else zs).isEmpty then xs else if zs.isEmpty then ys else zs := by
  cases zs <;> simp

theorem merge_assoc : (a.merge b).merge c = a.merge (b.merge c) := by
  simp only [merge, List.append_assoc, AuxiliaryTypes.merge_assoc, lastFilled_assoc, Bool.or_assoc,
    Option.orElse_eq_orElse, Option.orElse_eq_or, Option.or_assoc]

theorem lastFilled_nil {α : Type} (xs : List α) : (if xs.isEmpty then [] else xs) = xs := by
  cases xs <;> rfl

theorem empty_merge : empty.merge a = a := by
  simp only [merge, empty, List.nil_append, AuxiliaryTypes.empty_merge, lastFilled_nil, Bool.or_false,
    Option.orElse_eq_orElse, Option.orElse_eq_or, Option.or_none]

theorem merge_empty : a.merge empty = a := by
  have htypes : a.types.merge .empty = a.types := rfl
  simp only [merge, empty, List.append_nil, htypes, List.isEmpty_nil, if_true, Bool.false_or, Option.orElse_eq_orElse,
    Option.orElse_eq_or, Option.none_or]

instance : Std.Associative merge := ⟨fun _ _ _ => merge_assoc⟩

theorem foldl_merge (sources : List Config) : sources.foldl merge a = a.merge (sources.foldl merge empty) := by
  have hfold : sources.foldl merge (a.merge empty) = a.merge (sources.foldl merge empty) := List.foldl_assoc
  rwa [merge_empty] at hfold

end Config

theorem Layers.merged_eq (layers : Layers) : layers.merged = layers.sources.foldl Config.merge .empty := by
  induction layers with
  | single config => exact Config.empty_merge.symm
  | merge earlier later hearlier hlater =>
    rw [sources, List.foldl_append, Config.foldl_merge, ← hearlier, ← hlater, merged]

/-- To merge configurations is associative, and the empty one changes nothing on either side. So sources in one order
give the same however they are grouped: the tables one behind the other, and of each category the names in the order
in which they first come, each with what was declared for it last. -/
theorem Config.merge_monoid :
    (∀ a b c : Config, (a.merge b).merge c = a.merge (b.merge c)) ∧
      (∀ a : Config, empty.merge a = a ∧ a.merge empty = a) ∧
      (∀ layers : Layers, layers.merged = layers.sources.foldl merge empty) ∧
      ∀ a b : Config, (a.merge b).tables = a.tables ++ b.tables ∧ ∀ category,
        ((a.merge b).types.ofCategory category).names = (a.types.ofCategory category).names ++
          (b.types.ofCategory category).names.filter (· ∉ (a.types.ofCategory category).names) ∧
        ∀ name, ((a.merge b).types.ofCategory category).get? name =
          ((b.types.ofCategory category).get? name <|> (a.types.ofCategory category).get? name) := by
  refine ⟨fun _ _ _ => merge_assoc, fun _ => ⟨empty_merge, merge_empty⟩, Layers.merged_eq, fun a b => ⟨rfl, ?_⟩⟩
  intro category
  rw [merge, AuxiliaryTypes.ofCategory_merge]
  exact ⟨OrderedMap.names_extend (b.types.ofCategory category).nodup, fun _ => OrderedMap.get?_extend_entries⟩

end TableApi
