import TableApi.Proofs.Passes

/-! A pass over a configuration, taken apart: the tables are built, a schema is made of them and of the declared
types and is compared and written, and all else is read off the tables one by one. Refusals stay what they are. -/
namespace TableApi

section Left

variable {σ α : Type} {s : σ}

/-- The state that an update leaves, if it is not refused. -/
def left (update : Updating σ α) (s : σ) : Except Error σ :=
  match outcome update s with
  | (.ok _, t) => .ok t
  | (.error e, _) => .error e

theorem left_ok_iff {update : Updating σ α} {t : σ} : left update s = .ok t ↔ ∃ a, Gives update s a t := by
  rw [left]
  unfold Gives
  rcases outcome update s with ⟨e | a, r⟩ <;> simp

theorem left_bind {β : Type} {x : Updating σ PUnit} {f : PUnit → Updating σ β} :
    left (x >>= f) s = left x s >>= left (f ⟨⟩) := by
  rw [left, left, outcome_bind]
  rcases outcome x s with ⟨e | ⟨⟩, t⟩ <;> rfl

theorem left_forM_cons {f : α → Updating σ PUnit} {x : α} {xs : List α} :
    left (forM (x :: xs) f) s = left (f x) s >>= left (forM xs f) :=
  left_bind

end Left

/-- A binding without its data source. -/
def Binding.anywhere (binding : Binding) : Binding :=
  { binding with dataSource := "" }

namespace Synthesis

variable {pass : Synthesis} {table : Table} {tables : List Table}

/-- The pass with another schema and more tables with their bindings. -/
def extend (pass : Synthesis) (tables : List Table) (schema : Schema) : Synthesis :=
  { pass with
    schema
    bindings := pass.bindings ++ tables.flatMap fun table => table.bindings table.plan
    tables := pass.tables ++ tables }

theorem left_onSchema {α : Type} {update : Updating Schema α} :
    left (onSchema update) pass = (fun schema => { pass with schema }) <$> left update pass.schema := by
  rw [left, left, outcome_onSchema]
  rcases outcome update pass.schema with ⟨e | a, t⟩ <;> rfl

theorem left_addTable : left (addTable table) pass =
    pass.extend [table] <$> left (Schema.addTable table table.plan) pass.schema := by
  rw [addTable, left_bind, left_onSchema]
  cases left (Schema.addTable table table.plan) pass.schema with
  | error e => rfl
  | ok schema =>
    have hextend : pass.extend [table] schema = { pass with
        schema, bindings := pass.bindings ++ table.bindings table.plan, tables := pass.tables ++ [table] } := by
      simp [extend]
    change Except.ok _ = Except.ok _
    rw [hextend]

theorem left_addTables : left (forM tables addTable) pass =
    pass.extend tables <$> left (forM tables fun table => Schema.addTable table table.plan) pass.schema := by
  induction tables generalizing pass with
  | nil =>
    have hextend : pass.extend [] pass.schema = pass := by simp [extend]
    exact congrArg Except.ok hextend.symm
  | cons table tables ih =>
    rw [left_forM_cons, left_forM_cons, left_addTable]
    cases left (Schema.addTable table table.plan) pass.schema with
    | error e => rfl
    | ok schema =>
      change left (forM tables addTable) (pass.extend [table] schema) = _
      rw [ih]
      have hextend : (pass.extend [table] schema).extend tables = pass.extend (table :: tables) := by
        funext later
        simp [extend]
      rw [hextend]
      rfl

/-- The comparison at the end of a pass. -/
def compare (schema : Schema) (bindings : List Binding) : Except Error Unit :=
  match complaints schema bindings with
  | [] => .ok ()
  | error :: _ => .error error

theorem complaints_anywhere {schema : Schema} {bindings : List Binding} :
    complaints schema (bindings.map Binding.anywhere) = complaints schema bindings := by
  have hfield : ∀ root, fieldComplaint? (bindings.map Binding.anywhere) root = fieldComplaint? bindings root := by
    intro root
    funext field
    rw [fieldComplaint?, List.any_map]
    rfl
  rw [complaints, List.filterMap_map]
  simp only [hfield]
  rfl

/-- The comparison looks at all of a binding but its data source. -/
theorem compare_congr {schema : Schema} {bindings others : List Binding}
    (h : bindings.map Binding.anywhere = others.map Binding.anywhere) :
    compare schema bindings = compare schema others := by
  rw [compare, compare, ← complaints_anywhere, h, complaints_anywhere]

end Synthesis

/-- The text of a schema, once it is found to agree with the bindings of the tables. -/
def Schema.agreedText (schema : Schema) (tables : List Table) : Except Error String := do
  Synthesis.compare schema (tables.flatMap fun table => table.bindings table.plan)
  schema.render

/-- The text of the schema that comes of tables and declared types. -/
def schemaText (types : AuxiliaryTypes) (tables : List Table) : Except Error String :=
  left (forM tables fun table => Schema.addTable table table.plan) .empty >>= left types.register >>=
    fun schema => schema.agreedText tables

namespace Config

variable {config : Config} {id : String} {label : Option String} {tables : List Table}

/-- What a pass gives for the tables once the schema text is written. -/
def output (config : Config) (id : String) (tables : List Table) (schema : String) : Output where
  schema
  bindings := tables.flatMap fun table => table.bindings table.plan
  tables := tables.map Table.describe
  dataSources := tables.map DataSource.ofTable
  api := .ofId id (config.authorization id) config.apiSettings

theorem pass_eq_left : config.pass id label = config.buildTables label >>= fun tables =>
    left (do tables.forM Synthesis.addTable; Synthesis.addTypes config.types) (config.start id) := by
  refine bind_congr fun tables => ?_
  dsimp only [left]
  generalize outcome _ (config.start id) = result
  rcases result with ⟨_ | _, _⟩ <;> rfl

theorem finish_extend {schema : Schema} : ((config.start id).extend tables schema).finish =
    config.output id tables <$> schema.agreedText tables := by
  change (Synthesis.compare schema (tables.flatMap fun table => table.bindings table.plan) >>= fun _ =>
    schema.render >>= fun text => pure (config.output id tables text)) = _
  rw [Schema.agreedText]
  cases Synthesis.compare schema (tables.flatMap fun table => table.bindings table.plan) with
  | error e => rfl
  | ok _ =>
    change (schema.render >>= fun text => pure (config.output id tables text)) = _ <$> schema.render
    cases schema.render <;> rfl

/-- All but the schema text is read off the tables. -/
theorem synthesize_eq_map : synthesize id config label = config.buildTables label >>= fun tables =>
    config.output id tables <$> schemaText config.types tables := by
  rw [synthesize_eq, pass_eq_left, bind_assoc]
  refine bind_congr fun tables => ?_
  have htables : left (tables.forM Synthesis.addTable) (config.start id) = _ := Synthesis.left_addTables
  have hstart : (config.start id).schema = .empty := rfl
  rw [left_bind, htables, schemaText, hstart]
  cases left (forM tables fun table => Schema.addTable table table.plan) .empty with
  | error e => rfl
  | ok made =>
    have htypes : left (Synthesis.addTypes config.types) ((config.start id).extend tables made) =
        (config.start id).extend tables <$> left config.types.register made := Synthesis.left_onSchema
    change left (Synthesis.addTypes config.types) ((config.start id).extend tables made) >>= Synthesis.finish =
      config.output id tables <$> (left config.types.register made >>= fun schema => schema.agreedText tables)
    rw [htypes]
    cases left config.types.register made with
    | error e => rfl
    | ok schema => exact finish_extend

end Config

end TableApi
