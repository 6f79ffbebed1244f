import Mathlib.Data.List.Induction
import Mathlib.Data.List.TakeWhile
import TableApi.Proofs.Assembly
import TableApi.Proofs.Composition
import TableApi.Proofs.DataSources
import TableApi.Proofs.RootOwnership

/-! Which tables a finished pass asks of storage. Their names differ behind the last point, whatever stands before
it. The billing rule is checked where a table is built from its declaration, and not where its settings are replaced
afterwards. -/
namespace TableApi

section Names

/-- What stands behind the last point of a text, and all of it if it has none. -/
def behindPoint (text : String) : String :=
  String.ofList (text.toList.reverse.takeWhile (· ≠ '.')).reverse

/-- No point stands in a legal name, so that the last one ends the label. -/
theorem behindPoint_storageName {label : Option String} {name : String} (h : isLegalName name) :
    behindPoint (storageName label name) = name := by
  have hname : ∀ c ∈ name.toList.reverse, decide (c ≠ '.') = true := by
    intro c hc
    have hne : c ≠ '.' := fun he => point_not_mem_of_legal h (he ▸ List.mem_reverse.1 hc)
    exact decide_eq_true hne
  cases label with
  | none =>
    rw [storageName, behindPoint, List.takeWhile_eq_self_iff.2 hname, List.reverse_reverse, String.ofList_toList]
  | some label =>
    have hpoint : (label ++ "." ++ name).toList.reverse = name.toList.reverse ++ '.' :: label.toList.reverse := by
      simp [String.toList_append]
    rw [storageName, behindPoint, hpoint, List.takeWhile_append_of_pos hname]
    simp

end Names

namespace TableEntry

/-- The name of the table without a label. -/
def baseName : TableEntry → String
  | declared declaration => declaration.name
  | built table => table.baseName

/-- A table that is declared is built with settings that are checked; of one that is built already the settings
count as they are. -/
inductive Billed : TableEntry → Prop
  | declared (declaration : TableDeclaration) : Billed (.declared declaration)
  | built {table : Table} : table.settings.BillingRule → Billed (.built table)

@[simp] theorem billed_declared (declaration : TableDeclaration) : (TableEntry.declared declaration).Billed :=
  .declared declaration

@[simp] theorem billed_built_iff {table : Table} :
    (TableEntry.built table).Billed ↔ table.settings.BillingRule := by
  constructor
  · intro h
    cases h with
    | built hrule => exact hrule
  · exact .built

end TableEntry

namespace Table

variable {table : Table} {declaration : TableDeclaration} {label : Option String}

/-- The table with its settings replaced one after another. -/
def changed (table : Table) (changes : List TableSettings) : Table :=
  changes.foldl withSettings table

/-- The last change counts. -/
theorem settings_changed (table : Table) (changes : List TableSettings) :
    (table.changed changes).settings = changes.getLast?.getD table.settings := by
  induction changes using List.reverseRecOn with
  | nil => rfl
  | append_singleton changes last _ =>
    rw [changed, List.foldl_append, List.getLast?_concat]
    rfl

theorem billed_changed_iff {changes : List TableSettings} (h : ofDeclaration declaration label = .ok table) :
    (TableEntry.built (table.changed changes)).Billed ↔ ∀ last ∈ changes.getLast?, last.BillingRule := by
  rw [TableEntry.billed_built_iff, settings_changed]
  cases changes.getLast? with
  | none => simpa using (faultless_of_declaration h).billing
  | some last => simp

end Table

namespace Config

variable {config : Config} {id : String} {label : Option String} {entry : TableEntry} {table : Table}
  {output : Output}

theorem baseName_of_buildTable (h : config.buildTable label entry = .ok table) :
    table.baseName = entry.baseName := by
  cases entry with
  | declared declaration =>
    have hassembled := Table.assembled_of_declaration h
    exact hassembled.baseName
  | built given =>
    simp only [buildTable] at h
    split at h
    · cases h
    · split at h <;> cases h <;> rfl

/-- The settings of a configuration are checked with the declaration that takes them, and the removal policy is
nothing to billing. -/
theorem billingRule_of_buildTable (h : config.buildTable label entry = .ok table) :
    table.settings.BillingRule ↔ entry.Billed := by
  cases entry with
  | declared declaration => exact iff_of_true (Table.faultless_of_declaration h).billing (.declared _)
  | built given =>
    rw [TableEntry.billed_built_iff]
    simp only [buildTable] at h
    split at h
    · cases h
    · split at h <;> cases h <;> rfl

/-- The descriptors are those of the tables that are built. -/
theorem exists_described (h : synthesize id config label = .ok output) :
    ∃ tables, config.buildTables label = .ok tables ∧ output.tables = tables.map Table.describe := by
  rw [synthesize_eq_map, Except.bind_ok_iff] at h
  obtain ⟨tables, ht, h⟩ := h
  obtain ⟨_, _, rfl⟩ := Except.map_ok_iff.1 h
  exact ⟨tables, ht, rfl⟩

end Config

/-- Behind the last point of a name in storage stands the name of a table, one after another as the tables come, and
no two of these are the same. So all names in storage are different, whatever labels stand before the points. -/
theorem synthesize_tableNames_nodup {config : Config} {id : String} {label : Option String} {output : Output}
    (hb : config.BuiltAccepted) (h : synthesize id config label = .ok output) :
    output.tables.map (behindPoint ·.name) = config.tables.map TableEntry.baseName ∧
      (config.tables.map TableEntry.baseName).Nodup ∧ (output.tables.map TableDescriptor.name).Nodup := by
  obtain ⟨tables, ht, hdescribed⟩ := Config.exists_described h
  have ha := Config.buildTables_accepted hb ht
  have hentries : tables.map Table.baseName = config.tables.map TableEntry.baseName :=
    Except.map_eq_of_mapM_ok (Config.buildTables_ok_iff.1 ht).2 fun _ _ => Config.baseName_of_buildTable
  have hbehind : output.tables.map (behindPoint ·.name) = tables.map Table.baseName := by
    rw [hdescribed, List.map_map]
    refine List.map_congr_left fun table htable => ?_
    obtain ⟨mark, hmark⟩ := (ha table htable).exists_label
    exact (congrArg behindPoint hmark).trans (behindPoint_storageName (ha table htable).legalName)
  have hdistinct := (Config.synthesize_parts ht h).2.2
  refine ⟨hbehind.trans hentries, hentries ▸ hdistinct, ?_⟩
  have hnames : (output.tables.map TableDescriptor.name).map behindPoint = tables.map Table.baseName := by
    rw [List.map_map]
    exact hbehind
  exact List.Nodup.of_map behindPoint (hnames ▸ hdistinct)

/-- Tables that are only read, by a single key. -/
def lookedUp (name key : String) (label : Option String) : TableEntry :=
  .declared { TableDeclaration.ofName name (.named key) with
    attributes := some (.single key)
    mutation := some false
    namespaceLabel := label }

/-- Dogs without a label, cats under the name of the dogs, and birds under an empty label. -/
def petsUnderLabels : Config :=
  { Config.empty with
    tables := [.built dogs, lookedUp "Cat" "catId" (some "pets.Dog"), lookedUp "Bird" "birdId" (some "")] }

theorem petsUnderLabels_apart : ∃ output, synthesize "Pets" petsUnderLabels none = .ok output ∧
    output.tables.map TableDescriptor.name = ["Dog", "pets.Dog.Cat", ".Bird"] ∧
    output.tables.map (behindPoint ·.name) = ["Dog", "Cat", "Bird"] ∧
    (output.tables.map TableDescriptor.name).Nodup := by
  have hb : petsUnderLabels.BuiltAccepted := by
    intro table hm
    obtain rfl : table = dogs := by simpa [petsUnderLabels, lookedUp] using hm
    exact dogs_accepted
  obtain ⟨output, ho, hnames⟩ := Except.exists_ok_of_decide (x := synthesize "Pets" petsUnderLabels none)
    (p := fun output => output.tables.map TableDescriptor.name = ["Dog", "pets.Dog.Cat", ".Bird"])
    (by decide +kernel)
  obtain ⟨hbehind, _, hnodup⟩ := synthesize_tableNames_nodup hb ho
  exact ⟨output, ho, hnames, hbehind, hnodup⟩

/-- The settings of a described table keep the billing rule exactly if its entry is declared or was built already
with settings that keep it. A table that was built from a declaration has such settings until they are replaced, and
then exactly if the last ones keep the rule. -/
theorem synthesize_billing_iff {config : Config} {id : String} {label : Option String} {output : Output}
    (h : synthesize id config label = .ok output) :
    List.Forall₂ (fun entry descriptor => descriptor.settings.BillingRule ↔ entry.Billed)
        config.tables output.tables ∧
      ((∀ descriptor ∈ output.tables, descriptor.settings.BillingRule) ↔ ∀ entry ∈ config.tables, entry.Billed) ∧
      ∀ declaration own built changes, Table.ofDeclaration declaration own = .ok built →
        ((TableEntry.built (built.changed changes)).Billed ↔ ∀ last ∈ changes.getLast?, last.BillingRule) := by
  obtain ⟨tables, ht, hdescribed⟩ := Config.exists_described h
  have heach : List.Forall₂ (fun entry descriptor => descriptor.settings.BillingRule ↔ entry.Billed)
      config.tables output.tables := by
    rw [hdescribed]
    refine List.forall₂_map_right_iff.2 ?_
    exact (Except.mapM_ok_iff.1 (Config.buildTables_ok_iff.1 ht).2).imp
      fun _ _ => Config.billingRule_of_buildTable
  refine ⟨heach, (forall₂_forall_mem_iff heach fun _ _ => Iff.symm).symm, ?_⟩
  intro declaration own built changes hbuilt
  exact Table.billed_changed_iff hbuilt

/-- Dogs that have been built already and had their settings replaced, beside cats that are declared. -/
def petsWithChanges (changes : List TableSettings) : Config :=
  { Config.empty with
    tables := [.built (dogs.changed changes), lookedUp "Cat" "catId" none]
    deleteTablesWithStack := true }

def provisioned (read write : Option UInt32) : TableSettings :=
  { TableSettings.default with billing := .provisioned, readCapacity := read, writeCapacity := write }

/-- What was wrong in between does no harm. -/
theorem petsWithChanges_billed : ∃ output,
    synthesize "Pets" (petsWithChanges [provisioned none none, provisioned (some 5) (some 2)]) none = .ok output ∧
      output.tables.map (·.settings.billing) = [.provisioned, .payPerRequest] ∧
      ∀ descriptor ∈ output.tables, descriptor.settings.BillingRule := by
  obtain ⟨output, ho, hmodes⟩ := Except.exists_ok_of_decide
    (x := synthesize "Pets" (petsWithChanges [provisioned none none, provisioned (some 5) (some 2)]) none)
    (p := fun output => output.tables.map (·.settings.billing) = [.provisioned, .payPerRequest])
    (by decide +kernel)
  have hbilled : ∀ entry ∈
      (petsWithChanges [provisioned none none, provisioned (some 5) (some 2)]).tables, entry.Billed := by
    simp [petsWithChanges, lookedUp, Table.changed, Table.withSettings, provisioned, TableSettings.BillingRule]
  exact ⟨output, ho, hmodes, (synthesize_billing_iff ho).2.1.2 hbilled⟩

/-- The pass describes a provisioned table without capacities. -/
theorem petsWithChanges_unbilled : (petsWithChanges [provisioned none none]).BuiltAccepted ∧ ∃ output,
    synthesize "Pets" (petsWithChanges [provisioned none none]) none = .ok output ∧
      ¬ ∀ descriptor ∈ output.tables, descriptor.settings.BillingRule := by
  refine ⟨?_, Except.exists_ok_of_decide (by decide +kernel)⟩
  intro table hm
  obtain rfl : table = dogs.withSettings (provisioned none none) := by
    simpa [petsWithChanges, lookedUp, Table.changed] using hm
  exact dogs_accepted.withSettings _

end TableApi
