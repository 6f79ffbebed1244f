import TableApi.Name

/-! The built-in scalar types and the spellings under which they are declared. -/
namespace TableApi

inductive Scalar where
  | id | string | int | float | boolean
  | awsDate | awsTime | awsDateTime | awsTimestamp | awsEmail | awsJson | awsUrl | awsPhone | awsIpAddress
  deriving DecidableEq, Repr

namespace Scalar

def all : List Scalar :=
  [id, string, int, float, boolean,
   awsDate, awsTime, awsDateTime, awsTimestamp, awsEmail, awsJson, awsUrl, awsPhone, awsIpAddress]

theorem mem_all (s : Scalar) : s ∈ all := by cases s <;> decide

/-- The name in schema text. -/
def render : Scalar → String
  | id => "ID"
  | string => "String"
  | int => "Int"
  | float => "Float"
  | boolean => "Boolean"
  | awsDate => "AWSDate"
  | awsTime => "AWSTime"
  | awsDateTime => "AWSDateTime"
  | awsTimestamp => "AWSTimestamp"
  | awsEmail => "AWSEmail"
  | awsJson => "AWSJSON"
  | awsUrl => "AWSURL"
  | awsPhone => "AWSPhone"
  | awsIpAddress => "AWSIPAddress"

/-- The lookup key of the spelling with underscores between words, such as `AWS_IP_ADDRESS`. -/
def key : Scalar → String
  | id => "id"
  | string => "string"
  | int => "int"
  | float => "float"
  | boolean => "boolean"
  | awsDate => "awsDate"
  | awsTime => "awsTime"
  | awsDateTime => "awsDateTime"
  | awsTimestamp => "awsTimestamp"
  | awsEmail => "awsEmail"
  | awsJson => "awsJson"
  | awsUrl => "awsUrl"
  | awsPhone => "awsPhone"
  | awsIpAddress => "awsIpAddress"

/-- A scalar goes by every name with its key and by its rendered name in any case. -/
def goesBy (name : String) (s : Scalar) : Bool :=
  s.key = lookupKey name || Text.sameButAsciiCase s.render name

def ofName? (name : String) : Option Scalar :=
  all.find? (goesBy name)

end Scalar

end TableApi
