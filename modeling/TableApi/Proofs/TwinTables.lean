import TableApi.Proofs.Composition
import TableApi.Proofs.WrittenTypes

/-! Tables that differ only in their names in storage and in their settings bring the same schema. The label of a
pass changes no more than such names, and to delete tables with the stack changes no more than their removal. -/
namespace TableApi

/-- Both are refused for the same reason, or what they give is related. -/
inductive SameResult {α β : Type} (r : α → β → Prop) : Except Error α → Except Error β → Prop
  | refused (e : Error) : SameResult r (.error e) (.error e)
  | given {a : α} {b : β} : r a b → SameResult r (.ok a) (.ok b)

namespace SameResult

variable {α β γ δ : Type} {r : α → β → Prop} {q : γ → δ → Prop} {x : Except Error α} {y : Except Error β}

theorem exists_of_ok {a : α} (h : SameResult r x y) (hx : x = .ok a) : ∃ b, y = .ok b ∧ r a b := by
  cases h with
  | refused e => cases hx
  | given hab =>
    obtain rfl := Except.ok.inj hx
    exact ⟨_, rfl, hab⟩

theorem imp {p : α → β → Prop} (h : SameResult r x y) (hrp : ∀ a b, r a b → p a b) : SameResult p x y := by
  cases h with
  | refused e => exact .refused e
  | given hab => exact .given (hrp _ _ hab)

theorem bind {f : α → Except Error γ} {g : β → Except Error δ} (h : SameResult r x y)
    (hfg : ∀ a b, r a b → SameResult q (f a) (g b)) : SameResult q (x >>= f) (y >>= g) := by
  cases h with
  | refused e => exact .refused e
  | given hab => exact hfg _ _ hab

theorem mapM {f : α → Except Error γ} {g : β → Except Error δ} {xs : List α} {ys : List β}
    (h : List.Forall₂ (fun a b => SameResult q (f a) (g b)) xs ys) :
    SameResult (List.Forall₂ q) (xs.mapM f) (ys.mapM g) := by
  induction h with
  | nil => exact .given .nil
  | cons hab _ ih =>
    rw [List.mapM_cons, List.mapM_cons]
    exact hab.bind fun c d hcd => ih.bind fun cs ds hall => .given (.cons hcd hall)

end SameResult

namespace Table

variable {a b : Table}

/-- The tables differ at most in the name in storage and in the settings. -/
def Twin (a b : Table) : Prop :=
  ∃ displayName settings, b = { a with displayName, settings }

/-- What no check notices can be changed before the checks or after them. -/
theorem ofDeclaration_map {f : Table → Table} {declaration other : TableDeclaration} {first second : Option String}
    (hf : ∀ table, (f table).complaints = table.complaints)
    (h : assemble other second = f <$> assemble declaration first) :
    ofDeclaration other second = f <$> ofDeclaration declaration first := by
  rw [ofDeclaration, ofDeclaration, h]
  cases assemble declaration first with
  | error e => rfl
  | ok table =>
    change (f table).check = f <$> table.check
    rw [check, check, hf]
    cases table.complaints <;> rfl

theorem Twin.addTable_eq (h : a.Twin b) : Schema.addTable a a.plan = Schema.addTable b b.plan := by
  obtain ⟨_, _, rfl⟩ := h
  rfl

theorem Twin.bindings_eq (h : a.Twin b) :
    (a.bindings a.plan).map Binding.anywhere = (b.bindings b.plan).map Binding.anywhere := by
  obtain ⟨_, _, rfl⟩ := h
  simp only [bindings, List.map_map]
  rfl

end Table

section Twins

variable {tables others : List Table}

theorem addTables_eq_of_twins (h : List.Forall₂ Table.Twin tables others) :
    (forM tables fun table => Schema.addTable table table.plan) =
      forM others fun table => Schema.addTable table table.plan := by
  induction h with
  | nil => rfl
  | cons hab _ ih => rw [List.forM_cons, List.forM_cons, ih, hab.addTable_eq]

theorem bindings_eq_of_twins (h : List.Forall₂ Table.Twin tables others) :
    (tables.flatMap fun table => table.bindings table.plan).map Binding.anywhere =
      (others.flatMap fun table => table.bindings table.plan).map Binding.anywhere := by
  induction h with
  | nil => rfl
  | cons hab _ ih =>
    rw [List.flatMap_cons, List.flatMap_cons, List.map_append, List.map_append, ih, hab.bindings_eq]

/-- Neither names in storage nor settings are told by the schema, or by what is wrong with it. -/
theorem schemaText_eq_of_twins {types : AuxiliaryTypes} (h : List.Forall₂ Table.Twin tables others) :
    schemaText types tables = schemaText types others := by
  have hagreed : ∀ schema : Schema, schema.agreedText tables = schema.agreedText others := by
    intro schema
    rw [Schema.agreedText, Schema.agreedText, Synthesis.compare_congr (bindings_eq_of_twins h)]
  simp only [schemaText, addTables_eq_of_twins h, hagreed]

end Twins

section Labels

/-- The table under another name in storage. -/
def Table.called (name : String) (table : Table) : Table :=
  { table with displayName := name }

/-- The tables differ at most in the name in storage. -/
def Table.SameButName (a b : Table) : Prop :=
  b = a.called b.displayName

namespace Table

variable {a b : Table} {declaration : TableDeclaration} {first second : Option String}

theorem SameButName.twin (h : a.SameButName b) : a.Twin b :=
  ⟨b.displayName, a.settings, h⟩

theorem sameButName_called {name : String} : a.SameButName (a.called name) := rfl

theorem assemble_label : assemble declaration second =
    called (displayNameOf second declaration) <$> assemble declaration first := by
  simp only [assemble, map_bind, map_pure]
  rfl

/-- The label is told only by the name in storage. -/
theorem ofDeclaration_label (first second : Option String) : ofDeclaration declaration second =
    called (displayNameOf second declaration) <$> ofDeclaration declaration first :=
  ofDeclaration_map (fun _ => rfl) assemble_label

theorem sameResult_ofDeclaration :
    SameResult SameButName (ofDeclaration declaration first) (ofDeclaration declaration second) := by
  rw [ofDeclaration_label first second]
  cases ofDeclaration declaration first with
  | error e => exact .refused e
  | ok table => exact .given sameButName_called

end Table

/-- The bindings differ at most in the name of the data source. -/
def Binding.SameButSource (a b : Binding) : Prop :=
  b = { a with dataSource := b.dataSource }

def TableDescriptor.SameButName (a b : TableDescriptor) : Prop :=
  b = { a with name := b.name }

def DataSource.SameButNames (a b : DataSource) : Prop :=
  b = { a with name := b.name, table := b.table }

/-- Schema and API are the same, and so is all else, one by one and in order, but for names that come of names in
storage. -/
structure Output.SameButNames (a b : Output) : Prop where
  schema : a.schema = b.schema
  api : a.api = b.api
  bindings : List.Forall₂ Binding.SameButSource a.bindings b.bindings
  tables : List.Forall₂ TableDescriptor.SameButName a.tables b.tables
  dataSources : List.Forall₂ DataSource.SameButNames a.dataSources b.dataSources

theorem Table.SameButName.bindings {a b : Table} (h : a.SameButName b) :
    List.Forall₂ Binding.SameButSource (a.bindings a.plan) (b.bindings b.plan) := by
  rw [h]
  have hplan : (a.called b.displayName).plan = a.plan := rfl
  rw [hplan, Table.bindings, Table.bindings, List.forall₂_map_left_iff, List.forall₂_map_right_iff]
  exact List.forall₂_same.2 fun operation _ => rfl

namespace Config

variable {config : Config} {id : String} {first second : Option String} {tables others : List Table}

theorem sameResult_buildTables :
    SameResult (List.Forall₂ Table.SameButName) (config.buildTables first) (config.buildTables second) := by
  rw [buildTables, buildTables]
  split
  · exact .refused _
  · refine SameResult.mapM (List.forall₂_same.2 fun entry _ => ?_)
    cases entry with
    | declared declaration => exact Table.sameResult_ofDeclaration
    | built table =>
      rw [buildTable, buildTable]
      split
      · exact .refused _
      · split <;> exact .given rfl

theorem output_sameButNames {text : String} (h : List.Forall₂ Table.SameButName tables others) :
    (config.output id tables text).SameButNames (config.output id others text) where
  schema := rfl
  api := rfl
  bindings := List.rel_flatMap h fun _ _ hab => hab.bindings
  tables := by
    refine List.forall₂_map_left_iff.2 (List.forall₂_map_right_iff.2 (h.imp fun a b hab => ?_))
    rw [TableDescriptor.SameButName, hab]
    rfl
  dataSources := List.forall₂_map_left_iff.2 (List.forall₂_map_right_iff.2 (h.imp fun _ _ _ => rfl))

end Config

/-- Whatever the labels, both passes are refused for one reason or give the same but for names in storage and
names of data sources. -/
theorem synthesize_labels (id : String) (config : Config) (first second : Option String) :
    SameResult Output.SameButNames (synthesize id config first) (synthesize id config second) := by
  rw [Config.synthesize_eq_map, Config.synthesize_eq_map]
  refine Config.sameResult_buildTables.bind fun tables others h => ?_
  rw [schemaText_eq_of_twins (h.imp fun _ _ hab => hab.twin)]
  cases schemaText config.types others with
  | error e => exact .refused e
  | ok text => exact .given (Config.output_sameButNames h)

end Labels

section Removal

/-- The settings agree in all but the removal policy. -/
structure TableSettings.SameButRemoval (a b : TableSettings) : Prop where
  billing : a.billing = b.billing
  pointInTimeRecovery : a.pointInTimeRecovery = b.pointInTimeRecovery
  timeToLiveAttribute : a.timeToLiveAttribute = b.timeToLiveAttribute
  stream : a.stream = b.stream
  deletionProtection : a.deletionProtection = b.deletionProtection
  readCapacity : a.readCapacity = b.readCapacity
  writeCapacity : a.writeCapacity = b.writeCapacity

/-- The second table is removed with its stack, and is described as the first in all else. -/
structure TableDescriptor.GivenUp (a b : TableDescriptor) : Prop where
  name : a.name = b.name
  partition : a.partition = b.partition
  sort : a.sort = b.sort
  attributes : a.attributes = b.attributes
  globalIndexes : a.globalIndexes = b.globalIndexes
  localIndexes : a.localIndexes = b.localIndexes
  settings : a.settings.SameButRemoval b.settings
  removal : b.settings.removal = .destroy

/-- All tables of the second output are removed with their stack, and are those of the first in all else, one by one
and in order. What is not about storage is the same. -/
structure Output.GivenUp (a b : Output) : Prop where
  schema : a.schema = b.schema
  bindings : a.bindings = b.bindings
  dataSources : a.dataSources = b.dataSources
  api : a.api = b.api
  tables : List.Forall₂ TableDescriptor.GivenUp a.tables b.tables

theorem Output.GivenUp.removal {a b : Output} (h : a.GivenUp b) :
    ∀ table ∈ b.tables, table.settings.removal = .destroy := by
  intro table htable
  obtain ⟨_, _, hgiven⟩ := forall₂_exists_left h.tables htable
  exact hgiven.removal

theorem TableSettings.sameButRemoval_withRemoval (settings : TableSettings) (removal : RemovalPolicy) :
    settings.SameButRemoval (settings.withRemoval removal) :=
  ⟨rfl, rfl, rfl, rfl, rfl, rfl, rfl⟩

/-- The table with the policy to be removed with its stack. -/
def Table.destroyed (table : Table) : Table :=
  table.withSettings (table.settings.withRemoval .destroy)

namespace Table

variable {table : Table} {label : Option String}

theorem twin_destroyed : table.Twin table.destroyed :=
  ⟨_, _, rfl⟩

theorem describe_destroyed (table : Table) : table.describe.GivenUp table.destroyed.describe :=
  ⟨rfl, rfl, rfl, rfl, rfl, rfl, table.settings.sameButRemoval_withRemoval .destroy, rfl⟩

/-- No check looks at the removal policy. -/
theorem ofDeclaration_destroyed (declaration : TableDeclaration) (settings : Option TableSettings) :
    ofDeclaration { declaration with settings := some ((settings.getD .default).withRemoval .destroy) } label =
      destroyed <$> ofDeclaration { declaration with settings } label := by
  refine ofDeclaration_map (fun _ => rfl) ?_
  simp only [assemble, map_bind, map_pure]
  rfl

end Table

/-- The configuration with the flag that has tables deleted with their stack. -/
def Config.deleting (config : Config) : Config :=
  { config with deleteTablesWithStack := true }

namespace Config

variable {config : Config} {id : String} {label : Option String} {tables : List Table} {entry : TableEntry}

/-- With the flag each kind of entry is built as without it, but for the removal policy. -/
theorem buildTable_deleting :
    config.deleting.buildTable label entry = Table.destroyed <$> config.buildTable label entry := by
  cases entry with
  | declared declaration =>
    have hsettings : config.deleting.settingsFor declaration =
        some (((declaration.settings <|> config.tableSettings).getD .default).withRemoval .destroy) := rfl
    rw [buildTable, buildTable, hsettings, settingsFor]
    generalize (declaration.settings <|> config.tableSettings) = settings
    by_cases hdelete : config.deleteTablesWithStack
    · simp only [hdelete, if_true]
      exact Table.ofDeclaration_destroyed declaration (some ((settings.getD .default).withRemoval .destroy))
    · simp only [hdelete, Bool.false_eq_true, if_false]
      exact Table.ofDeclaration_destroyed declaration settings
  | built table =>
    rw [buildTable, buildTable]
    have htableSettings : config.deleting.tableSettings = config.tableSettings := rfl
    rw [htableSettings]
    by_cases hrefused : config.tableSettings.isSome
    · rw [if_pos hrefused, if_pos hrefused]
      rfl
    · rw [if_neg hrefused, if_neg hrefused]
      cases config.deleteTablesWithStack <;> rfl

theorem buildTables_deleting :
    config.deleting.buildTables label = List.map Table.destroyed <$> config.buildTables label := by
  have hbuild : config.deleting.buildTable label = fun entry => Table.destroyed <$> config.buildTable label entry :=
    funext fun _ => buildTable_deleting
  have htables : config.deleting.tables = config.tables := rfl
  rw [buildTables, buildTables, htables, hbuild, Except.mapM_map]
  split <;> rfl

theorem output_deleting {text : String} :
    (config.output id tables text).GivenUp (config.deleting.output id (tables.map Table.destroyed) text) where
  schema := rfl
  bindings := by
    simp only [output, List.flatMap_map]
    rfl
  dataSources := by
    simp only [output, List.map_map]
    rfl
  api := rfl
  tables := by
    refine List.forall₂_map_left_iff.2 (List.forall₂_map_right_iff.2 (List.forall₂_map_right_iff.2 ?_))
    exact List.forall₂_same.2 fun table _ => table.describe_destroyed

end Config

/-- With the flag a pass is refused for the same reason or gives the same, but that all tables are removed with
their stack. -/
theorem synthesize_deleting (id : String) (config : Config) (label : Option String) :
    SameResult Output.GivenUp (synthesize id config label) (synthesize id config.deleting label) := by
  rw [Config.synthesize_eq_map, Config.synthesize_eq_map, Config.buildTables_deleting]
  cases config.buildTables label with
  | error e => exact .refused e
  | ok tables =>
    have htwins : List.Forall₂ Table.Twin tables (tables.map Table.destroyed) :=
      List.forall₂_map_right_iff.2 (List.forall₂_same.2 fun table _ => Table.twin_destroyed)
    change SameResult Output.GivenUp (config.output id tables <$> schemaText config.types tables)
      (config.deleting.output id (tables.map Table.destroyed) <$>
        schemaText config.types (tables.map Table.destroyed))
    rw [← schemaText_eq_of_twins htwins]
    cases schemaText config.types tables with
    | error e => exact .refused e
    | ok text => exact .given Config.output_deleting

/-- A table beside cats, which are declared without settings. -/
def besideCats (entry : TableEntry) (settings : Option TableSettings) : Config :=
  { Config.empty with
    tables := [entry, declared "Cat" "catId" [("catId", "ID!")]]
    tableSettings := settings }

/-- Dogs with settings of their own, in a configuration that has other tables leave a snapshot. -/
def protectedDogs : Config :=
  besideCats (.declared { TableDeclaration.ofName "Dog" (.named "dogId") with
      attributes := some (.typed (.ofList [("dogId", "ID!"), ("breed", "String")]))
      settings := some { TableSettings.default with deletionProtection := true } })
    (some (TableSettings.default.withRemoval .snapshot))

/-- Whether a table has settings of its own, those of the configuration or none, and whether it is declared or built,
with the flag it is destroyed. It keeps its protection. -/
theorem besideCats_deleting :
    (∃ output deleted, synthesize "Pets" protectedDogs none = .ok output ∧
      synthesize "Pets" protectedDogs.deleting none = .ok deleted ∧
      output.tables.map (·.settings.removal) = [.retain, .snapshot] ∧
      (∀ table ∈ deleted.tables, table.settings.removal = .destroy) ∧
      deleted.tables.map (·.settings.deletionProtection) = [true, false]) ∧
    ∃ output deleted, synthesize "Pets" (besideCats (.built dogs) none) none = .ok output ∧
      synthesize "Pets" (besideCats (.built dogs) none).deleting none = .ok deleted ∧
      output.tables.map (·.settings.removal) = [.retain, .retain] ∧
      (∀ table ∈ deleted.tables, table.settings.removal = .destroy) ∧
      deleted.tables.map TableDescriptor.name = ["Dog", "Cat"] := by
  constructor
  · obtain ⟨output, ho, hremoval, hprotection⟩ := Except.exists_ok_of_decide (x := synthesize "Pets" protectedDogs none)
      (p := fun output => output.tables.map (·.settings.removal) = [.retain, .snapshot] ∧
        output.tables.map (·.settings.deletionProtection) = [true, false]) (by decide +kernel)
    obtain ⟨deleted, hd, hgiven⟩ := (synthesize_deleting "Pets" protectedDogs none).exists_of_ok ho
    have hkept := map_eq_map_iff.2 (hgiven.tables.imp fun _ _ htable => htable.settings.deletionProtection)
    exact ⟨output, deleted, ho, hd, hremoval, hgiven.removal, hkept.symm.trans hprotection⟩
  · obtain ⟨output, ho, hremoval, hnames⟩ := Except.exists_ok_of_decide
      (x := synthesize "Pets" (besideCats (.built dogs) none) none)
      (p := fun output => output.tables.map (·.settings.removal) = [.retain, .retain] ∧
        output.tables.map TableDescriptor.name = ["Dog", "Cat"]) (by decide +kernel)
    obtain ⟨deleted, hd, hgiven⟩ := (synthesize_deleting "Pets" (besideCats (.built dogs) none) none).exists_of_ok ho
    have hkept := map_eq_map_iff.2 (hgiven.tables.imp fun _ _ htable => htable.name)
    exact ⟨output, deleted, ho, hd, hremoval, hgiven.removal, hkept.symm.trans hnames⟩

end Removal

end TableApi
