/-
Records: objects with known members.

The members may come in any order, each at most once, between members that nobody asked for.  A
record may also be written as an array of its members' values.  Reading fills a draft member by
member, and what is still missing is found out at the end.
-/
import Mandate.Json.Reader

namespace Mandate
namespace Json

/-- A known member: its name, whether a draft already has it, and how to read it into a draft. -/
structure Field (σ : Type) where
  name : String
  isFilled : σ → Bool
  reader : Reader (σ → σ)

/-- How a record is read: what it is called where something else stands in its place, its members in
order, and what becomes of a draft.  `positional` is what an array that is too short should
have been, for a record that may be written as an array. -/
structure Record (σ α : Type) where
  expected : String
  positional : Option String
  fields : List (Field σ)
  start : σ
  finish : σ → Except Complaint α

namespace Record

variable {σ α : Type}

def field? (fields : List (Field σ)) (name : String) : Option (Field σ) :=
  fields.find? fun f => f.name == name

/-- Goes through the members of an object.  A repeated member is refused as soon as its name has
been read, and an unknown one is passed over. -/
def readMembers (fields : List (Field σ)) (s : σ) : Members → Except Error σ
  | .close none => .ok s
  | .close (some f) => .error (.text f)
  | .stop name f =>
    (name.text.mapError .text).bind fun n =>
      match field? fields n with
      | some field =>
        if field.isFilled s then .error (.content (.repeatedField n)) else .error (.text f)
      | none => .error (.text f)
  | .cons name o rest =>
    (name.text.mapError .text).bind fun n =>
      match field? fields n with
      | some field =>
        if field.isFilled s then .error (.content (.repeatedField n))
        else (field.reader.outline o).bind fun fill => readMembers fields (fill s) rest
      | none => (o.skip.mapError .text).bind fun _ => readMembers fields s rest

/-- Goes through an array of the members' values, of which `count` have been read.  After the last
one nothing but the closing bracket may stand, and a comma there is no beginning of anything. -/
def readItems (short : String) :
    List (Field σ) → (count : Nat) → σ → Items → Except Error σ
  | [], _, s, .close .closed => .ok s
  | [], _, _, .close (.missing f) => .error (.text f)
  | [], _, _, _ => .error (.text .malformed)
  | _ :: _, count, _, .close .closed => .error (.content (.wrongLength count short))
  | _ :: _, _, _, .close (.missing f) => .error (.text f)
  | _ :: _, _, _, .close (.afterComma f) => .error (.text f)
  | field :: fields, count, s, .cons o rest =>
    (field.reader.outline o).bind fun fill => readItems short fields (count + 1) (fill s) rest

/-- Goes through the members of a generic object, which have distinct names. -/
def fillMembers (fields : List (Field σ)) (s : σ) : List (String × Value) → Except Complaint σ
  | [] => .ok s
  | (n, v) :: rest =>
    match field? fields n with
    | some field => (field.reader.value v).bind fun fill => fillMembers fields (fill s) rest
    | none => fillMembers fields s rest

/-- Goes through a generic array of `length` values, of which `count` have been read. -/
def fillItems (short : String) (length : Nat) :
    List (Field σ) → (count : Nat) → σ → List Value → Except Complaint σ
  | [], _, s, [] => .ok s
  | [], _, _, _ :: _ => .error (.wrongLength length "fewer elements in array")
  | _ :: _, count, _, [] => .error (.wrongLength count short)
  | field :: fields, count, s, v :: rest =>
    (field.reader.value v).bind fun fill =>
      fillItems short length fields (count + 1) (fill s) rest

/-- The draft that an outline fills. -/
def draftOfOutline (r : Record σ α) : Outline → Except Error σ
  | .object members => readMembers r.fields r.start members
  | .array items =>
    match r.positional with
    | some short => readItems short r.fields 0 r.start items
    | none => .error (.content (.wrongType .array r.expected))
  | o => o.refuse r.expected

/-- The draft that a value fills. -/
def draftOfValue (r : Record σ α) : Value → Except Complaint σ
  | .object members => fillMembers r.fields r.start members
  | .array vs =>
    match r.positional with
    | some short => fillItems short vs.length r.fields 0 r.start vs
    | none => .error (.wrongType .array r.expected)
  | v => .error (.wrongType v.found r.expected)

def reader (r : Record σ α) : Reader α where
  outline o := (r.draftOfOutline o).bind fun s => (r.finish s).mapError .content
  value v := (r.draftOfValue v).bind r.finish

end Record

end Json
end Mandate
