/-
Why a JSON document cannot be read.

Three things can be wrong: the document stops inside a value, it is not JSON, or it is JSON up to
the place where its content is not what is asked for.  Only the last has something to say.
-/
import Mandate.Decimal.Shortest
import Mandate.Text.Quoted

namespace Mandate
namespace Json

/-- A defect of the text as such. -/
inductive Fault
  | cutOff
  | malformed
deriving DecidableEq, Repr

/-- What is wrong where something is missing in front of the given text. -/
def Fault.before (cs : List Char) : Fault :=
  if cs.isEmpty then .cutOff else .malformed

/-- What stands in a document where something else was asked for. -/
inductive Found
  | null
  | bool (b : Bool)
  | integer (n : Int)
  | real (x : Float)
  | string (s : String)
  | array
  | object

def Found.message : Found → String
  | null => "null"
  | bool b => "boolean `" ++ toString b ++ "`"
  | integer n => "integer `" ++ toString n ++ "`"
  | real x => "floating point `" ++ Decimal.text x ++ "`"
  | string s => "string " ++ Quoted.text s
  | array => "sequence"
  | object => "map"

/-- A defect of the content. -/
inductive Complaint
  | wrongType (found : Found) (expected : String)
  | outOfRange (found : Found) (expected : String)
  | wrongLength (found : Nat) (expected : String)
  | missingField (name : String)
  | repeatedField (name : String)
  /-- The value is of the right shape but was refused, with this explanation. -/
  | refused (reason : String)

def Complaint.message : Complaint → String
  | wrongType found expected => "invalid type: " ++ found.message ++ ", expected " ++ expected
  | outOfRange found expected => "invalid value: " ++ found.message ++ ", expected " ++ expected
  | wrongLength found expected =>
    "invalid length " ++ toString found ++ ", expected " ++ expected
  | missingField name => "missing field `" ++ name ++ "`"
  | repeatedField name => "duplicate field `" ++ name ++ "`"
  | refused reason => reason

inductive Error
  | text (fault : Fault)
  | content (complaint : Complaint)

def Error.message : Error → String
  | text .cutOff => "the document ends inside a value"
  | text .malformed => "the document is not JSON"
  | content complaint => complaint.message

end Json
end Mandate
