import TableApi.Proofs.ClosedSchema
import TableApi.Proofs.RegisteredTypes

/-! Which types the roots of a schema take. A root takes over an object type whose name is read as its own,
and goes by the name under which that type was registered first. -/
namespace TableApi

namespace Schema

/-- Every root that the schema block names has an object type of its very name. -/
def NamesRoots (schema : Schema) (written : List TypeDefinition) : Prop :=
  ∀ root ∈ schema.roots, ∃ d ∈ written, d.name = root.typeName ∧ d.category = .type

/-- No root goes by the type that the operations of the table give. -/
def KeepsRoots (schema : Schema) (table : Table) : Prop :=
  ∀ root ∈ schema.roots, schema.registry.resolve table.baseName ≠ schema.registry.resolve root.typeName

instance (schema : Schema) (written : List TypeDefinition) : Decidable (schema.NamesRoots written) := by
  unfold NamesRoots
  infer_instance

end Schema

section Resolution

variable {registry : Registry} {made : List TypeDefinition} {d e : TypeDefinition}
  {added : List (RootType × FieldDefinition)} {name : String} {root : RootType}

/-- Names of types are resolved alike exactly if they have one key. -/
theorem Registry.Filled.resolve_eq_iff (h : registry.Filled made added) (hd : d ∈ made) (he : e ∈ made) :
    registry.resolve d.name = registry.resolve e.name ↔ lookupKey d.name = lookupKey e.name := by
  obtain ⟨first, hfirst, _⟩ := h.held d hd
  obtain ⟨second, hsecond, _⟩ := h.held e he
  simp only [resolve, h.scalars d hd, h.scalars e he, hfirst, hsecond, Except.ok.injEq]
  constructor
  · intro hname
    rw [← h.keyed.key_of_get? hfirst, ← h.keyed.key_of_get? hsecond, hname]
  · intro hk
    rw [Registry.get?_congr hk, hsecond] at hfirst
    exact congrArg TypeDefinition.name (Option.some.inj hfirst).symm

/-- A type goes by the first name that was registered under its key. -/
theorem Registry.Filled.first_name (h : registry.Filled made added) (hg : registry.get? name = some d) :
    (made.map TypeDefinition.name).find? (lookupKey · = lookupKey name) = some d.name := by
  rw [h.get?_eq, Option.map_eq_some_iff] at hg
  obtain ⟨first, hfirst, rfl⟩ := hg
  rw [List.find?_map, TypeDefinition.grown_name, Function.comp_def, hfirst, Option.map_some]

/-- The object type of a root is written under the root's name exactly if it was registered under it first. -/
theorem Registry.Filled.written_as_root_iff {types : List TypeDefinition} (h : registry.Filled made added)
    (ht : registry.written = .ok types) (hr : registry.Holds .type root.typeName) :
    (∃ d ∈ types, d.name = root.typeName ∧ d.category = .type) ↔
      (made.map TypeDefinition.name).find? (lookupKey · = lookupKey root.typeName) = some root.typeName := by
  obtain ⟨d, hd, hc⟩ := hr
  rw [h.first_name hd, Option.some.injEq]
  constructor
  · rintro ⟨written, hwritten, hname, _⟩
    obtain ⟨e, he, hresolved⟩ := Except.exists_of_mapM_ok ht hwritten
    have hsame := (TypeDefinition.writes_of_resolved h.keyed hresolved).1.symm.trans hname
    have hkey := h.keyed.key_of_get? hd
    rw [h.keyed.eq_of_key (h.keyed.get?_mem hd) he (hkey.trans (congrArg lookupKey hsame.symm)), hsame]
  · intro hname
    obtain ⟨written, hwritten, hresolved⟩ :=
      forall₂_exists_right (Except.mapM_ok_iff.1 ht) (h.keyed.get?_mem hd)
    obtain ⟨hsame, hcategory, _⟩ := TypeDefinition.writes_of_resolved h.keyed hresolved
    exact ⟨written, hwritten, hsame.trans hname, hcategory.trans hc⟩

end Resolution

/-- The roots in use are those of the planned operations. All of them have object types of their own names
exactly if, of the types that the calls bring under the key of a root, the first has the root's name. A table's
type is none of theirs exactly if the table's name has none of their keys. -/
theorem Run.root_types_iff {id : String} {authorization : Option Authorization} {settings : Settings}
    {calls : List Call} {pass : Synthesis} {output : Output}
    (h : Run (.start id authorization settings) calls pass) (ha : ∀ call ∈ calls, call.Accepted)
    (hf : pass.finish = .ok output) :
    (∀ root, root ∈ pass.schema.roots ↔ ∃ planned ∈ calls.flatMap Call.planned, planned.2.root = root) ∧
      ∃ written, pass.schema.registry.written = .ok written ∧
        output.schema = Schema.ofLines (Schema.rootLines pass.schema.roots ++
          written.flatMap TypeDefinition.lines ++ pass.schema.additions.map Schema.additionLine) ∧
        (pass.schema.NamesRoots written ↔ ∀ root ∈ pass.schema.roots,
          (calls.flatMap Call.names).find? (lookupKey · = lookupKey root.typeName) = some root.typeName) ∧
        ∀ table, Call.table table ∈ calls → (pass.schema.KeepsRoots table ↔
          ∀ root ∈ pass.schema.roots, lookupKey table.baseName ≠ lookupKey root.typeName) := by
  obtain ⟨definitions, hdefinitions, hfilled⟩ := h.filled_start
  have hmade : ∀ root ∈ pass.schema.roots, root.emptyType ∈ definitions.flatten := by
    intro root hroot
    obtain ⟨field, hfield⟩ := (hfilled.roots root).1 hroot
    exact hfilled.registry.roots _ hfield
  obtain ⟨_, hrender, _⟩ := Synthesis.finish_ok_iff.1 hf
  obtain ⟨written, ht, htext⟩ := Schema.render_ok_iff.1 hrender
  refine ⟨?_, written, ht, htext, ?_, ?_⟩
  · intro root
    rw [hfilled.roots]
    constructor
    · rintro ⟨field, hfield⟩
      obtain ⟨planned, hp, heq⟩ := List.mem_map.1 hfield
      exact ⟨planned, hp, congrArg Prod.fst heq⟩
    · rintro ⟨planned, hp, rfl⟩
      exact ⟨_, List.mem_map_of_mem (f := Planned.rootField) hp⟩
  · rw [← Call.flatten_names ha hdefinitions]
    refine forall₂_congr fun root hroot => ?_
    have hheld : pass.schema.registry.Holds .type root.typeName :=
      hfilled.registry.held root.emptyType (hmade root hroot)
    exact hfilled.registry.written_as_root_iff ht hheld
  · intro table hcall
    have hname : table.baseName ∈ definitions.flatten.map TypeDefinition.name := by
      rw [Call.flatten_names ha hdefinitions]
      exact List.mem_flatMap.2 ⟨_, hcall, List.mem_append_left _ List.mem_cons_self⟩
    obtain ⟨d, hd, hname⟩ := List.mem_map.1 hname
    refine forall₂_congr fun root hroot => not_congr ?_
    rw [← hname]
    exact hfilled.registry.resolve_eq_iff (e := root.emptyType) hd (hmade root hroot)

theorem dogs_accepted : dogs.Accepted := by
  obtain ⟨table, ht, rfl⟩ := Except.exists_ok_of_decide (x := Table.ofDeclaration
    { TableDeclaration.ofName "Dog" (.named "owner") with
      sort := some (.named "name")
      attributes := some (.typed (.ofList [("owner", "ID!"), ("name", "String"), ("breed", "String")]))
      scan := true
      subscription := true } none) (p := (· = dogs)) (by decide +kernel)
  exact Table.accepted_of_declaration ht

/-- Types in the words of which the names of roots occur. -/
def questions : AuxiliaryTypes :=
  (AuxiliaryTypes.empty.declare .type "QueryLog" (.plain (.ofList [("dog", "Dog")]))).declare
    .enum "Subscriptions" (.members ["DAILY", "WEEKLY"])

theorem dogs_keep_roots : ∃ pass output written,
    Run (.start "Pets" none []) [.types questions, .table dogs] pass ∧ pass.finish = .ok output ∧
      pass.schema.registry.written = .ok written ∧ pass.schema.roots = [.query, .mutation, .subscription] ∧
      pass.schema.NamesRoots written ∧ pass.schema.KeepsRoots dogs := by
  obtain ⟨pass, hrun, hfinish, hroots⟩ : ∃ pass : Synthesis,
      Run (.start "Pets" none []) [.types questions, .table dogs] pass ∧
        (pass.finish.toOption.any fun _ => decide True) ∧
        pass.schema.roots = [.query, .mutation, .subscription] :=
    ⟨_, .types (gives_of_ok (by decide +kernel)) (.table (gives_of_ok (by decide +kernel)) (.nil _)),
      by decide +kernel⟩
  obtain ⟨output, hf, _⟩ := Except.exists_ok_of_decide hfinish
  have ha : ∀ call ∈ [Call.types questions, Call.table dogs], call.Accepted :=
    List.forall_mem_cons.2 ⟨trivial, List.forall_mem_singleton.2 dogs_accepted⟩
  obtain ⟨_, written, ht, _, hnames, hkeeps⟩ := hrun.root_types_iff ha hf
  refine ⟨pass, output, written, hrun, hf, ht, hroots, hnames.2 ?_, (hkeeps dogs (by simp)).2 ?_⟩
  · rw [hroots]
    decide +kernel
  · rw [hroots]
    decide +kernel

/-- A table of questions, named like a root but for the capital letter. -/
def queries : Table where
  baseName := "query"
  displayName := "query"
  primary := ⟨⟨"id", .single "ID" true, .partition⟩, none⟩
  localIndexes := []
  globalIndexes := []
  attributes := .ofList [("id", "ID!"), ("text", "String")]
  flags := ⟨false, false, true, true, false⟩
  settings := .default

/-- A type `query` without fields, and the table of that name after it: the root takes the type over, and the
operations of the table give it. -/
theorem queries_take_root : queries.Accepted ∧ ∃ pass output written,
    Run (.start "Pets" none [])
      [.types (AuxiliaryTypes.empty.declare .type "query" (.plain .empty)), .table queries] pass ∧
      pass.finish = .ok output ∧ pass.schema.registry.written = .ok written ∧
      written.map TypeDefinition.name = ["query", "queryInput", "Mutation"] ∧
      pass.schema.roots = [.query, .mutation] ∧
      ¬ pass.schema.NamesRoots written ∧ ¬ pass.schema.KeepsRoots queries := by
  refine ⟨?_, ?_⟩
  · obtain ⟨table, ht, rfl⟩ := Except.exists_ok_of_decide (x := Table.ofDeclaration
      { TableDeclaration.ofName "query" (.named "id") with
        attributes := some (.typed (.ofList [("id", "ID!"), ("text", "String")])) } none)
      (p := (· = queries)) (by decide +kernel)
    exact Table.accepted_of_declaration ht
  · obtain ⟨pass, hrun, hfinish, hwritten, hroots⟩ : ∃ pass : Synthesis, Run (.start "Pets" none [])
        [.types (AuxiliaryTypes.empty.declare .type "query" (.plain .empty)), .table queries] pass ∧
          (pass.finish.toOption.any fun _ => decide True) ∧
          (pass.schema.registry.written.toOption.any fun written => decide
            (written.map TypeDefinition.name = ["query", "queryInput", "Mutation"] ∧
              ¬ pass.schema.NamesRoots written)) ∧
          pass.schema.roots = [.query, .mutation] ∧
          pass.schema.registry.resolve queries.baseName = pass.schema.registry.resolve RootType.query.typeName :=
      ⟨_, .types (gives_of_ok (by decide +kernel)) (.table (gives_of_ok (by decide +kernel)) (.nil _)),
        by decide +kernel⟩
    obtain ⟨output, hf, _⟩ := Except.exists_ok_of_decide hfinish
    obtain ⟨written, ht, hnames, hno⟩ := Except.exists_ok_of_decide hwritten
    refine ⟨pass, output, written, hrun, hf, ht, hnames, hroots.1, hno, fun hkeeps => ?_⟩
    exact hkeeps .query (by simp [hroots.1]) hroots.2

end TableApi
