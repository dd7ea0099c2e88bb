/-
Readers: what a JSON document has to look like to be read as a value of some type.

A reader works in two ways.  It can go through the outline of a document, so that the first thing
wrong in the text is what it reports; or it can look at a generic value, which has been found to be
JSON before.  The combinators below keep the two ways together.
-/
import Mandate.Json.Value

namespace Mandate
namespace Json

/-- What stands in an outline, seen from outside.  The value of a scalar has to be readable; an
array or object is known by its opening bracket. -/
def Outline.found : Outline → Except Fault Found
  | .null => .ok .null
  | .bool b => .ok (.bool b)
  | .number l =>
    l.value.map fun
      | .integer n => .integer n
      | .real x => .real x
  | .string s => s.text.map .string
  | .broken needed _ => .error needed
  | .array _ => .ok .array
  | .object _ => .ok .object

/-- What a value is, seen from outside. -/
def Value.found : Value → Found
  | .null => .null
  | .bool b => .bool b
  | .number (.integer n) => .integer n
  | .number (.real x) => .real x
  | .string s => .string s
  | .array _ => .array
  | .object _ => .object

/-- A way to read a `α`, from an outline and from a value. -/
structure Reader (α : Type) where
  outline : Outline → Except Error α
  value : Value → Except Complaint α

/-- What is found in an outline is not what is expected. -/
def Outline.refuse {α : Type} (o : Outline) (expected : String) : Except Error α :=
  (o.found.mapError .text).bind fun found => .error (.content (.wrongType found expected))

namespace Reader

variable {α β : Type}

/-- Reads something that shows all of itself from outside. -/
def scalar (f : Found → Except Complaint α) : Reader α where
  outline o := (o.found.mapError .text).bind fun found => (f found).mapError .content
  value v := f v.found

/-- An integer of less than `bound` that is not negative. -/
def natural (bound : Nat) (expected : String) : Reader Nat :=
  scalar fun
    | .integer n =>
      if 0 ≤ n ∧ n < bound then .ok n.toNat else .error (.outOfRange (.integer n) expected)
    | found => .error (.wrongType found expected)

def text : Reader String :=
  scalar fun
    | .string s => .ok s
    | found => .error (.wrongType found "a string")

def map (f : α → β) (r : Reader α) : Reader β where
  outline o := (r.outline o).map f
  value v := (r.value v).map f

def byte : Reader UInt8 :=
  (natural UInt8.size "u8").map UInt8.ofNat

def word : Reader UInt64 :=
  (natural UInt64.size "u64").map UInt64.ofNat

/-- Reads what `r` reads and then converts it, or refuses it with an explanation. -/
def refine (r : Reader α) (f : α → Except String β) : Reader β where
  outline o := (r.outline o).bind fun a => (f a).mapError fun e => .content (.refused e)
  value v := (r.value v).bind fun a => (f a).mapError .refused

def readItems (r : Reader α) : Items → Except Error (List α)
  | .close .closed => .ok []
  | .close (.missing f) => .error (.text f)
  | .close (.afterComma f) => .error (.text f)
  | .cons o rest => (r.outline o).bind fun a => (readItems r rest).map (a :: ·)

def list (r : Reader α) : Reader (List α) where
  outline
    | .array items => readItems r items
    | o => o.refuse "a sequence"
  value
    | .array vs => vs.mapM r.value
    | v => .error (.wrongType v.found "a sequence")

/-- Reads a document in one pass.  What stands after it comes last. -/
def read (r : Reader α) (text : String) : Except Error α :=
  let d := Document.ofText text
  (r.outline d.root).bind fun a =>
    if d.trailing then .error (.text .malformed) else .ok a

/-- Reads a document by way of its generic value. -/
def readThroughValue (r : Reader α) (text : String) : Except Error α :=
  ((Value.parse text).mapError .text).bind fun v => (r.value v).mapError .content

end Reader

end Json
end Mandate
