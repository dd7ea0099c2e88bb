/-
JSON values, with nothing left of how they were written.

Making a value of a document needs everything in it: each string must be text, each number must have
a size that can be represented, and no more than 127 brackets may be open at once.  An object has
each name once, with the value that the document gives it last, and lists its members in the order
of their names.
-/
import Mandate.Json.Outline

namespace Mandate
namespace Json

inductive Value
  | null
  | bool (b : Bool)
  | number (n : Number)
  | string (s : String)
  | array (items : List Value)
  | object (members : List (String × Value))

/-- Adds a member to members in the order of their names, unless they already have its name. -/
def addMember (name : String) (v : Value) : List (String × Value) → List (String × Value)
  | [] => [(name, v)]
  | (n, w) :: rest =>
    if name < n then (name, v) :: (n, w) :: rest
    else if name = n then (n, w) :: rest
    else (n, w) :: addMember name v rest

/- The value of an outline; `depth` is how many more brackets may be opened.  The later of two
members of one name is in the tail, where it is found before the earlier one is added. -/
mutual
def Outline.value (depth : Nat) : Outline → Except Fault Value
  | .null => .ok .null
  | .bool b => .ok (.bool b)
  | .number l => l.value.map .number
  | .string s => s.text.map .string
  | .broken needed _ => .error needed
  | .array items =>
    match depth with
    | 0 => .error .malformed
    | depth + 1 => (items.values depth).map .array
  | .object members =>
    match depth with
    | 0 => .error .malformed
    | depth + 1 => (members.values depth).map .object

def Items.values (depth : Nat) : Items → Except Fault (List Value)
  | .close .closed => .ok []
  | .close (.missing f) => .error f
  | .close (.afterComma f) => .error f
  | .cons o rest =>
    (o.value depth).bind fun v => (rest.values depth).map (v :: ·)

def Members.values (depth : Nat) : Members → Except Fault (List (String × Value))
  | .close none => .ok []
  | .close (some f) => .error f
  | .stop name f => name.text.bind fun _ => .error f
  | .cons name o rest =>
    name.text.bind fun n =>
      (o.value depth).bind fun v => (rest.values depth).map (addMember n v)
end

namespace Value

/-- How many brackets may be open at once. -/
def maxDepth : Nat := 127

/-- The value of a text that is one JSON document and nothing more. -/
def parse (text : String) : Except Fault Value :=
  let d := Document.ofText text
  (d.root.value maxDepth).bind fun v => if d.trailing then .error .malformed else .ok v

end Value

end Json
end Mandate
