import TableApi.Index

/-! Storage settings of a table and the rule that ties billing to capacity. -/
namespace TableApi

inductive BillingMode where
  | payPerRequest | provisioned
  deriving DecidableEq, Repr

namespace BillingMode

def word : BillingMode → String
  | payPerRequest => "PAY_PER_REQUEST"
  | provisioned => "PROVISIONED"

def ofWord? : String → Option BillingMode
  | "PAY_PER_REQUEST" => some payPerRequest
  | "PROVISIONED" => some provisioned
  | _ => none

def toJson (mode : BillingMode) : Json := .string mode.word

def ofJson? (value : Json) : Option BillingMode := value.constant?.bind ofWord?

end BillingMode

/-- The item images that are written to the table's stream. -/
inductive StreamView where
  | newImage | oldImage | newAndOldImages | keysOnly
  deriving DecidableEq, Repr

namespace StreamView

def word : StreamView → String
  | newImage => "NEW_IMAGE"
  | oldImage => "OLD_IMAGE"
  | newAndOldImages => "NEW_AND_OLD_IMAGES"
  | keysOnly => "KEYS_ONLY"

def ofWord? : String → Option StreamView
  | "NEW_IMAGE" => some newImage
  | "OLD_IMAGE" => some oldImage
  | "NEW_AND_OLD_IMAGES" => some newAndOldImages
  | "KEYS_ONLY" => some keysOnly
  | _ => none

def toJson (view : StreamView) : Json := .string view.word

def ofJson? (value : Json) : Option StreamView := value.constant?.bind ofWord?

end StreamView

/-- What becomes of a table that is no longer wanted. -/
inductive RemovalPolicy where
  | retain | snapshot | destroy
  deriving DecidableEq, Repr

namespace RemovalPolicy

def word : RemovalPolicy → String
  | retain => "retain"
  | snapshot => "snapshot"
  | destroy => "destroy"

def ofWord? : String → Option RemovalPolicy
  | "retain" => some retain
  | "snapshot" => some snapshot
  | "destroy" => some destroy
  | _ => none

def toJson (policy : RemovalPolicy) : Json := .string policy.word

def ofJson? (value : Json) : Option RemovalPolicy := value.constant?.bind ofWord?

end RemovalPolicy

structure TableSettings where
  billing : BillingMode
  pointInTimeRecovery : Bool
  timeToLiveAttribute : Option String
  stream : Option StreamView
  deletionProtection : Bool
  removal : RemovalPolicy
  readCapacity : Option UInt32
  writeCapacity : Option UInt32
  deriving DecidableEq, Repr

namespace TableSettings

def default : TableSettings :=
  ⟨.payPerRequest, true, none, none, false, .retain, none, none⟩

instance : Inhabited TableSettings := ⟨default⟩

def withRemoval (settings : TableSettings) (removal : RemovalPolicy) : TableSettings :=
  { settings with removal }

/-- Provisioned tables set both capacities, the others set neither. -/
def BillingRule (settings : TableSettings) : Prop :=
  match settings.billing with
  | .provisioned => settings.readCapacity.isSome ∧ settings.writeCapacity.isSome
  | .payPerRequest => settings.readCapacity = none ∧ settings.writeCapacity = none

instance (settings : TableSettings) : Decidable settings.BillingRule := by
  unfold BillingRule; cases settings.billing <;> infer_instance

/-- What breaks the billing rule of the table with the given name. -/
def complaint? (settings : TableSettings) (table : String) : Option Error :=
  match settings.billing with
  | .provisioned =>
    if settings.readCapacity.isNone || settings.writeCapacity.isNone then some (.missingCapacity table)
    else none
  | .payPerRequest =>
    if settings.readCapacity.isSome || settings.writeCapacity.isSome then
      some (.unexpectedCapacity table)
    else none

theorem complaint?_eq_none_iff (settings : TableSettings) (table : String) :
    settings.complaint? table = none ↔ settings.BillingRule := by
  unfold complaint? BillingRule
  cases settings.billing <;> cases settings.readCapacity <;> cases settings.writeCapacity <;> simp

def check (settings : TableSettings) (table : String) : Except Error Unit :=
  match settings.complaint? table with
  | some error => .error error
  | none => .ok ()

def toJson (settings : TableSettings) : Json :=
  .object ([("billingMode", settings.billing.toJson),
      ("pointInTimeRecovery", .bool settings.pointInTimeRecovery)] ++
    Json.memberIfSome "timeToLiveAttribute" .string settings.timeToLiveAttribute ++
    Json.memberIfSome "stream" StreamView.toJson settings.stream ++
    [("deletionProtection", .bool settings.deletionProtection),
      ("removalPolicy", settings.removal.toJson)] ++
    Json.memberIfSome "readCapacity" Json.ofWord32 settings.readCapacity ++
    Json.memberIfSome "writeCapacity" Json.ofWord32 settings.writeCapacity)

def ofJson? (value : Json) : Option TableSettings :=
  match value.slots [["billingMode"], ["pointInTimeRecovery"], ["timeToLiveAttribute"], ["stream"],
    ["deletionProtection"], ["removalPolicy"], ["readCapacity"], ["writeCapacity"]] with
  | some [billing, recovery, timeToLive, stream, protection, removal, read, write] => do
    return {
      billing := ← Json.defaulted default.billing BillingMode.ofJson? billing
      pointInTimeRecovery := ← Json.defaulted default.pointInTimeRecovery Json.bool? recovery
      timeToLiveAttribute := ← Json.optional Json.string? timeToLive
      stream := ← Json.optional StreamView.ofJson? stream
      deletionProtection := ← Json.defaulted default.deletionProtection Json.bool? protection
      removal := ← Json.defaulted default.removal RemovalPolicy.ofJson? removal
      readCapacity := ← Json.optional Json.word32? read
      writeCapacity := ← Json.optional Json.word32? write }
  | _ => none

end TableSettings

end TableApi
