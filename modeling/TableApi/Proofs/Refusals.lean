import Mathlib.Data.List.Perm.Subperm
import TableApi.Proofs.Growth
import TableApi.Proofs.Rendering

/-! Passes in which calls were refused. A pass does not remember that a call was refused; the comparison at the end
sees only what has become of the fields of roots. -/
namespace TableApi

namespace Call

/-- The update that a call stands for. -/
def update : Call → Updating Synthesis Unit
  | table added => Synthesis.addTable added
  | types declared => Synthesis.addTypes declared
  | text added => do let _ ← Synthesis.addText added

def tables : Call → List Table
  | table added => [added]
  | types _ | text _ => []

def Refused (call : Call) (pass : Synthesis) : Prop :=
  ∃ e, (outcome call.update pass).1 = .error e

/-- The tables that the call adds: its own, and none if it is refused. -/
def taken (call : Call) (pass : Synthesis) : List Table :=
  match (outcome call.update pass).1 with
  | .ok () => call.tables
  | .error _ => []

theorem Refused.taken {call : Call} {pass : Synthesis} (h : call.Refused pass) : call.taken pass = [] := by
  obtain ⟨e, he⟩ := h
  simp [Call.taken, he]

theorem taken_eq_nil {call : Call} {pass : Synthesis} (h : call.tables = []) : call.taken pass = [] := by
  rw [taken, h]
  split <;> rfl

end Call

namespace Synthesis

variable {pass : Synthesis} {call : Call} {table : Table}

/-- The pass as the call leaves it, be it refused or not. -/
def after (pass : Synthesis) (call : Call) : Synthesis :=
  (outcome call.update pass).2

/-- The pass after all calls have been tried. -/
def attempt (pass : Synthesis) (calls : List Call) : Synthesis :=
  calls.foldl after pass

/-- What every call keeps is kept by all of them. -/
theorem attempt_keeps {p : Synthesis → Prop} (hstep : ∀ pass call, p pass → p (pass.after call)) (h : p pass)
    (calls : List Call) : p (pass.attempt calls) := by
  induction calls generalizing pass with
  | nil => exact h
  | cons call calls ih => exact ih (hstep pass call h)

/-- The next pass has further tables with their operations, and the schema has grown by their fields at least. -/
structure Extends (pass : Synthesis) (added : List Table) (next : Synthesis) : Prop where
  fields : ∃ more, pass.schema.Grows more next.schema ∧ (plannedFields added).Sublist more
  tables : next.tables = pass.tables ++ added
  bindings : next.bindings = pass.bindings ++ (added.flatMap Planned.ofTable).map Planned.binding

theorem extends_of_grows {more : List (RootType × FieldDefinition)} {t : Schema} (h : pass.schema.Grows more t) :
    pass.Extends [] { pass with schema := t } where
  fields := ⟨more, h, List.nil_sublist _⟩
  tables := (List.append_nil _).symm
  bindings := (List.append_nil _).symm

theorem outcome_addTable_of_error {e : Error} {t : Schema}
    (h : outcome (Schema.addTable table table.plan) pass.schema = (.error e, t)) :
    outcome (addTable table) pass = (.error e, { pass with schema := t }) := by
  rw [addTable, outcome_bind, outcome_onSchema, h]

theorem after_table_extends : pass.Extends ((Call.table table).taken pass) (pass.after (.table table)) := by
  have hadds : Schema.Adds (Schema.addTable table table.plan) pass.schema _ := Schema.adds_addTable
  obtain ⟨more, hgrows, hmore⟩ := hadds
  rcases ho : outcome (Schema.addTable table table.plan) pass.schema with ⟨e | v, t⟩
  · have herror := outcome_addTable_of_error ho
    rw [ho] at hgrows
    have htaken : (Call.table table).taken pass = [] := Call.Refused.taken ⟨e, congrArg Prod.fst herror⟩
    rw [htaken, after, Call.update, herror]
    exact extends_of_grows hgrows
  · have hgives : outcome (addTable table) pass = _ := (gives_addTable (v := ())).2 ⟨t, ho, rfl⟩
    rw [ho] at hgrows hmore
    have htaken : (Call.table table).taken pass = [table] := by
      rw [Call.taken, Call.update, hgives]
      rfl
    rw [htaken, after, Call.update, hgives]
    refine ⟨⟨more, hgrows, ?_⟩, rfl, ?_⟩
    · rw [hmore v rfl, plannedFields_singleton]
    · rw [List.flatMap_singleton, Planned.map_binding_ofTable]

/-- A call adds its table with its operations, or it is refused and may leave fields of theirs. -/
theorem after_extends (pass : Synthesis) (call : Call) : pass.Extends (call.taken pass) (pass.after call) := by
  cases call with
  | table added => exact after_table_extends
  | types declared =>
    have hadds : Schema.Adds declared.register pass.schema [] := AuxiliaryTypes.adds_register
    obtain ⟨more, hgrows, _⟩ := hadds
    have hafter : pass.after (.types declared) =
        { pass with schema := (outcome declared.register pass.schema).2 } :=
      congrArg Prod.snd outcome_onSchema
    rw [hafter, Call.taken_eq_nil rfl]
    exact extends_of_grows hgrows
  | text added =>
    have hafter : pass.after (.text added) = (outcome (addText added) pass).2 := by
      rw [after, Call.update, outcome_bind]
      rcases outcome (addText added) pass with ⟨_ | _, _⟩ <;> rfl
    rw [hafter, addText_leaves, Call.taken_eq_nil rfl]
    exact extends_of_grows (.of_keeps rfl fun _ _ he => he)

/-- The bindings are those of the tables that were not refused, and the fields of these tables are among the
ones that were added. -/
def Tracked (pass : Synthesis) : Prop :=
  ∃ added, pass.schema.Aligned added ∧ (plannedFields pass.tables).Sublist added ∧
    pass.bindings = (pass.tables.flatMap Planned.ofTable).map Planned.binding

/-- Some root has more fields than the tables come with. -/
def Outgrown (pass : Synthesis) : Prop :=
  ∃ root, (fieldsOf root (plannedFields pass.tables)).length < (pass.schema.rootFields root).length

/-- Every call adds to the roots the fields of its table, and nothing if it is refused. -/
def Exact (pass : Synthesis) : List Call → Prop
  | [] => True
  | call :: calls =>
    (∀ root, (pass.after call).schema.rootFields root =
      pass.schema.rootFields root ++ fieldsOf root (plannedFields (call.taken pass))) ∧
    (pass.after call).Exact calls

variable {id : String} {authorization : Option Authorization} {settings : Settings} {calls : List Call}
  {root : RootType}

theorem tracked_start : (start id authorization settings).Tracked :=
  ⟨[], Schema.aligned_empty, .refl _, rfl⟩

theorem Tracked.after (h : pass.Tracked) (call : Call) : (pass.after call).Tracked := by
  obtain ⟨added, haligned, hsub, hbindings⟩ := h
  obtain ⟨⟨more, hgrows, hmore⟩, htables, hbound⟩ := pass.after_extends call
  refine ⟨added ++ more, hgrows.aligned added haligned, ?_, ?_⟩
  · rw [htables, plannedFields_append]
    exact hsub.append hmore
  · rw [htables, hbound, hbindings, List.flatMap_append, List.map_append]

theorem Tracked.attempt (h : pass.Tracked) (calls : List Call) : (pass.attempt calls).Tracked :=
  attempt_keeps (fun _ call hp => hp.after call) h calls

theorem rootFields_after_sublist (pass : Synthesis) (call : Call) (root : RootType) :
    (pass.schema.rootFields root ++ fieldsOf root (plannedFields (call.taken pass))).Sublist
      ((pass.after call).schema.rootFields root) := by
  obtain ⟨⟨more, hgrows, hmore⟩, _, _⟩ := pass.after_extends call
  exact ((fieldsOf_sublist hmore).append_left _).trans (hgrows.fields root)

theorem plannedFields_after (pass : Synthesis) (call : Call) (root : RootType) :
    fieldsOf root (plannedFields (pass.after call).tables) =
      fieldsOf root (plannedFields pass.tables) ++ fieldsOf root (plannedFields (call.taken pass)) := by
  rw [(pass.after_extends call).tables, plannedFields_append, fieldsOf_append]

theorem Outgrown.after (h : pass.Outgrown) (call : Call) : (pass.after call).Outgrown := by
  obtain ⟨root, hlt⟩ := h
  have hle := (pass.rootFields_after_sublist call root).length_le
  refine ⟨root, ?_⟩
  rw [plannedFields_after, List.length_append]
  rw [List.length_append] at hle
  omega

theorem Outgrown.attempt (h : pass.Outgrown) (calls : List Call) : (pass.attempt calls).Outgrown :=
  attempt_keeps (fun _ call hp => hp.after call) h calls

/-- The fields of all tables that were not refused are there. -/
theorem Tracked.plannedFields_sublist (h : pass.Tracked) (root : RootType) :
    (fieldsOf root (plannedFields pass.tables)).Sublist (pass.schema.rootFields root) := by
  obtain ⟨added, haligned, hsub, _⟩ := h
  obtain ⟨earlier, hfields, _⟩ := haligned.fields root
  rw [hfields]
  exact (fieldsOf_sublist hsub).trans (List.sublist_append_right _ _)

theorem Tracked.outgrown_after (h : pass.Tracked) (hne : (pass.after call).schema.rootFields root ≠
      pass.schema.rootFields root ++ fieldsOf root (plannedFields (call.taken pass))) :
    (pass.after call).Outgrown := by
  have hsub := pass.rootFields_after_sublist call root
  have hlt := Nat.lt_of_le_of_ne hsub.length_le fun hl => hne (hsub.eq_of_length hl).symm
  have hplanned := (h.plannedFields_sublist root).length_le
  refine ⟨root, ?_⟩
  rw [plannedFields_after, List.length_append]
  rw [List.length_append] at hlt
  omega

/-- A call that is not exact shows in every later state. -/
theorem Tracked.exact_or_outgrown (h : pass.Tracked) (calls : List Call) :
    pass.Exact calls ∨ (pass.attempt calls).Outgrown := by
  induction calls generalizing pass with
  | nil => exact .inl trivial
  | cons call calls ih =>
    by_cases hexact : ∀ root, (pass.after call).schema.rootFields root =
        pass.schema.rootFields root ++ fieldsOf root (plannedFields (call.taken pass))
    · exact (ih (h.after call)).imp_left fun hrest => ⟨hexact, hrest⟩
    · obtain ⟨root, hne⟩ := not_forall.1 hexact
      exact .inr ((h.outgrown_after hne).attempt calls)

theorem Exact.rootFields (h : pass.Exact calls)
    (hfields : ∀ root, pass.schema.rootFields root = fieldsOf root (plannedFields pass.tables)) :
    ∀ root, (pass.attempt calls).schema.rootFields root =
      fieldsOf root (plannedFields (pass.attempt calls).tables) := by
  induction calls generalizing pass with
  | nil => exact hfields
  | cons call calls ih =>
    refine ih h.2 fun root => ?_
    rw [h.1, hfields, plannedFields_after]

/-- If every field has a binding, no field is left of a table that was refused. -/
theorem Tracked.follows (h : pass.Tracked) (hbound : ∀ root, ∀ field ∈ pass.schema.rootFields root,
    ∃ binding ∈ pass.bindings, binding.root = root ∧ binding.operation = field.name) :
    pass.Follows (pass.tables.flatMap Planned.ofTable) := by
  obtain ⟨added, haligned, hsub, hbindings⟩ := h
  have hmem : added ⊆ plannedFields pass.tables := by
    intro entry he
    have hfield : entry.2 ∈ pass.schema.rootFields entry.1 := by
      obtain ⟨earlier, hfields, _⟩ := haligned.fields entry.1
      rw [hfields]
      exact List.mem_append_right _ (mem_fieldsOf_iff.2 he)
    obtain ⟨binding, hb, hroot, hname⟩ := hbound _ _ hfield
    rw [hbindings] at hb
    obtain ⟨planned, hp, rfl⟩ := List.mem_map.1 hb
    have hplanned : planned.rootField ∈ plannedFields pass.tables := List.mem_map_of_mem hp
    -- of the fields that were added no two share root and name
    have hsame : planned.rootField = entry :=
      List.inj_on_of_nodup_map haligned.distinct (hsub.subset hplanned) he (Prod.ext hroot hname)
    exact hsame ▸ hplanned
  have hnodup : added.Nodup := List.Nodup.of_map _ haligned.distinct
  have heq := hsub.eq_of_length_le (List.Nodup.subperm hnodup hmem).length_le
  rw [← heq, plannedFields] at haligned
  exact ⟨hbindings, haligned⟩

/-- A pass stands the comparison exactly if its roots have the fields of its tables and no others, and no
key has the name of the input. -/
theorem Tracked.verify_ok_iff (h : pass.Tracked) : pass.verify = .ok () ↔
    (∀ root, pass.schema.rootFields root = fieldsOf root (plannedFields pass.tables)) ∧
      ∀ table ∈ pass.tables, ∀ operation ∈ table.plan, ∀ key ∈ operation.keys, key.name ≠ "input" := by
  constructor
  · intro hv
    have hfollows := h.follows (Synthesis.verify_ok_iff.1 hv).2
    refine ⟨fun root => ?_, fun table ht operation ho => ?_⟩
    · rw [hfollows.rootFields hv, plannedFields, Planned.fieldsOf_map_rootField]
    · have hp : (table, operation) ∈ pass.tables.flatMap Planned.ofTable := Planned.mem_tables_iff.2 ⟨ht, ho⟩
      exact hfollows.keys_ne_input hv hp
  · rintro ⟨hfields, hkeys⟩
    have hbound : ∀ root, ∀ field ∈ pass.schema.rootFields root,
        ∃ binding ∈ pass.bindings, binding.root = root ∧ binding.operation = field.name := by
      intro root field hf
      rw [hfields, mem_fieldsOf_iff, plannedFields] at hf
      obtain ⟨planned, hp, he⟩ := List.mem_map.1 hf
      obtain ⟨_, _, _, hbindings⟩ := h
      refine ⟨planned.binding, hbindings ▸ List.mem_map_of_mem hp, ?_, ?_⟩
      · exact congrArg Prod.fst he
      · exact congrArg (fun field => field.2.name) he
    refine (h.follows hbound).verify_ok (fun root => ?_) fun planned hp => ?_
    · rw [hfields, plannedFields, Planned.fieldsOf_map_rootField]
    · obtain ⟨ht, ho⟩ := Planned.mem_tables_iff.1 hp
      exact hkeys _ ht _ ho

theorem Tracked.verify_ne_ok (h : pass.Tracked) (hout : pass.Outgrown) : pass.verify ≠ .ok () := by
  intro hv
  obtain ⟨root, hlt⟩ := hout
  rw [(h.verify_ok_iff.1 hv).1] at hlt
  exact Nat.lt_irrefl _ hlt

/-- No key has the name of the input, and all types that are named are there. -/
structure Complete (pass : Synthesis) : Prop where
  keys : ∀ table ∈ pass.tables, ∀ operation ∈ table.plan, ∀ key ∈ operation.keys, key.name ≠ "input"
  types : ∀ d ∈ pass.schema.registry.definitions, d.Resolves pass.schema.registry

/-- Whatever calls were refused, the pass can be finished if all were exact and nothing is missing. -/
theorem exists_finish_attempt_iff (calls : List Call) :
    (∃ output, ((start id authorization settings).attempt calls).finish = .ok output) ↔
      (start id authorization settings).Exact calls ∧
        ((start id authorization settings).attempt calls).Complete := by
  have htracked : (start id authorization settings).Tracked := tracked_start
  rw [exists_finish_iff, Schema.exists_render_iff]
  constructor
  · rintro ⟨hv, htypes⟩
    have hexact := (htracked.exact_or_outgrown calls).resolve_right fun hout =>
      (htracked.attempt calls).verify_ne_ok hout hv
    exact ⟨hexact, ((htracked.attempt calls).verify_ok_iff.1 hv).2, htypes⟩
  · rintro ⟨hexact, hkeys, htypes⟩
    have hfields := hexact.rootFields fun _ => rfl
    exact ⟨(htracked.attempt calls).verify_ok_iff.2 ⟨hfields, hkeys⟩, htypes⟩

theorem attempt_append {later : List Call} :
    pass.attempt (calls ++ later) = (pass.attempt calls).attempt later :=
  List.foldl_append

theorem exact_append_iff {later : List Call} :
    pass.Exact (calls ++ later) ↔ pass.Exact calls ∧ (pass.attempt calls).Exact later := by
  induction calls generalizing pass with
  | nil => exact (and_iff_right trivial).symm
  | cons call calls ih => exact (and_congr_right fun _ => ih).trans and_assoc.symm

theorem exact_cons_of_refused (h : call.Refused pass) : pass.Exact (call :: calls) ↔
    (∀ root, (pass.after call).schema.rootFields root = pass.schema.rootFields root) ∧
      (pass.after call).Exact calls := by
  rw [Exact, h.taken]
  simp [plannedFields, fieldsOf]

/-- After a call that was refused the pass can still be finished, namely where the fields of roots are as before
that call, the other calls were exact, and nothing is missing. If the fields of a root are not as before, there
is a conflict, whatever calls follow. -/
theorem exists_finish_of_refused_iff {earlier later : List Call} {last : Synthesis}
    (hpass : (start id authorization settings).attempt earlier = pass) (hrefused : call.Refused pass)
    (hlast : pass.attempt (call :: later) = last) :
    ((∃ output, last.finish = .ok output) ↔
      (∀ root, (pass.after call).schema.rootFields root = pass.schema.rootFields root) ∧
        (start id authorization settings).Exact earlier ∧ (pass.after call).Exact later ∧ last.Complete) ∧
    ((∀ root, (pass.after call).schema.rootFields root = pass.schema.rootFields root) ∨
      ∃ e, last.finish = .error e ∧ e.kind = .conflict) := by
  have hall : (start id authorization settings).attempt (earlier ++ call :: later) = last := by
    rw [attempt_append, hpass, hlast]
  refine ⟨?_, ?_⟩
  · rw [← hall, exists_finish_attempt_iff, exact_append_iff, hpass, exact_cons_of_refused hrefused]
    simp only [and_assoc, and_left_comm]
  · have htracked : pass.Tracked := hpass ▸ tracked_start.attempt earlier
    rcases htracked.exact_or_outgrown (call :: later) with hexact | hout
    · exact .inl ((exact_cons_of_refused hrefused).1 hexact).1
    · have htried := htracked.attempt (call :: later)
      rw [hlast] at htried hout
      exact .inr (finish_conflict (htried.verify_ne_ok hout))

/-- A declared root with a field that is called like an operation on dogs. -/
def declaredMutations : AuxiliaryTypes :=
  AuxiliaryTypes.empty.declare .type "Mutation" (.plain (.ofList [("putDog", "String")]))

/-- Dogs are refused at their mutations. The queries that they left are found at the end. -/
theorem dogs_refused_conflict : ∃ pass last : Synthesis,
    (start "Pets" none []).attempt [.types declaredMutations] = pass ∧ (Call.table dogs).Refused pass ∧
    pass.attempt [.table dogs, .types .empty] = last ∧ pass.schema.rootFields .query = [] ∧
    ((pass.after (.table dogs)).schema.rootFields .query).map FieldDefinition.name =
      ["scanDog", "getDogByOwnerAndName", "listDogByOwner"] ∧
    (¬ ∃ output, last.finish = .ok output) ∧ ∃ e, last.finish = .error e ∧ e.kind = .conflict := by
  obtain ⟨pass, hpass, herror, hnone, hleft⟩ : ∃ pass : Synthesis,
      (start "Pets" none []).attempt [.types declaredMutations] = pass ∧
      (outcome (Call.table dogs).update pass).1 = .error (.repeatedField "putDog" .mutation) ∧
      pass.schema.rootFields .query = [] ∧
      ((pass.after (.table dogs)).schema.rootFields .query).map FieldDefinition.name =
        ["scanDog", "getDogByOwnerAndName", "listDogByOwner"] :=
    ⟨_, rfl, by decide +kernel⟩
  obtain ⟨last, hlast⟩ : ∃ last, pass.attempt [.table dogs, .types .empty] = last := ⟨_, rfl⟩
  have hchanged : ¬ ∀ root, (pass.after (.table dogs)).schema.rootFields root = pass.schema.rootFields root := by
    intro hsame
    rw [hsame, hnone] at hleft
    cases hleft
  obtain ⟨hiff, hconflict⟩ := exists_finish_of_refused_iff hpass ⟨_, herror⟩ hlast
  exact ⟨pass, last, hpass, ⟨_, herror⟩, hlast, hnone, hleft, fun hok => hchanged (hiff.1 hok).1,
    hconflict.resolve_left hchanged⟩

/-- A declared type that is called like the input type of cats. -/
def declaredInputs : AuxiliaryTypes :=
  AuxiliaryTypes.empty.declare .enum "CatInput" (.members ["KITTEN", "TOM"])

def cats : Table where
  baseName := "Cat"
  displayName := "Cat"
  primary := ⟨⟨"catId", .single "ID" true, .partition⟩, none⟩
  localIndexes := []
  globalIndexes := []
  attributes := .ofList [("catId", "ID!"), ("name", "String")]
  flags := ⟨false, false, true, true, false⟩
  settings := .default

/-- Cats are refused once their object type is registered, which is then given out with the types of dogs. -/
theorem cats_refused_given_out : cats.Accepted ∧ ∃ pass last output,
    (start "Pets" none []).attempt [.table dogs, .types declaredInputs] = pass ∧
    (Call.table cats).Refused pass ∧ pass.attempt [.table cats] = last ∧ last.finish = .ok output ∧
    output.tables = [dogs.describe] ∧ last.schema.registry.definitions.map TypeDefinition.name =
      ["Dog", "DogInput", "Query", "Mutation", "Subscription", "CatInput", "Cat"] := by
  refine ⟨?_, ?_⟩
  · obtain ⟨table, ht, rfl⟩ := Except.exists_ok_of_decide (x := Table.ofDeclaration
      { TableDeclaration.ofName "Cat" (.named "catId") with
        attributes := some (.typed (.ofList [("catId", "ID!"), ("name", "String")])) } none)
      (p := (· = cats)) (by decide +kernel)
    exact Table.accepted_of_declaration ht
  · obtain ⟨pass, last, hpass, herror, hlast, hfinish, hnames⟩ : ∃ pass last : Synthesis,
        (start "Pets" none []).attempt [.table dogs, .types declaredInputs] = pass ∧
        (outcome (Call.table cats).update pass).1 = .error (.categoryTaken "CatInput" .enum .input) ∧
        pass.attempt [.table cats] = last ∧
        (last.finish.toOption.any fun output => decide (output.tables = [dogs.describe])) ∧
        last.schema.registry.definitions.map TypeDefinition.name =
          ["Dog", "DogInput", "Query", "Mutation", "Subscription", "CatInput", "Cat"] :=
      ⟨_, _, rfl, by decide +kernel, rfl, by decide +kernel, by decide +kernel⟩
    obtain ⟨output, hf, htables⟩ := Except.exists_ok_of_decide hfinish
    exact ⟨pass, last, output, hpass, ⟨_, herror⟩, hlast, hf, htables, hnames⟩

end Synthesis

end TableApi
