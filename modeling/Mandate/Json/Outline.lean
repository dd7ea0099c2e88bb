/-
The outline of a JSON document: its structure as far as it goes.

An outline is a tree of what stands in the text, in the order of the text.  A text that breaks has
an outline too, which ends at the break: a list that is never closed says so at its end.  A reader
that goes through an outline in order therefore meets a defect of the text exactly when it would
meet it in the text, and not before.
-/
import Mandate.Json.Token

namespace Mandate
namespace Json

/-- How a list of items ends: closed, or where a comma or bracket is missing, or after a comma. -/
inductive Close
  | closed
  | missing (fault : Fault)
  | afterComma (fault : Fault)
deriving DecidableEq, Repr

mutual
/-- What stands where a value is expected. -/
inductive Outline
  | null
  | bool (b : Bool)
  | number (l : NumberLiteral)
  | string (s : StringLiteral)
  /-- No value: the fault where it is needed, and where it is passed over. -/
  | broken (needed skipped : Fault)
  | array (items : Items)
  | object (members : Members)

inductive Items
  | close (c : Close)
  | cons (o : Outline) (rest : Items)

/-- The members of an object.  They may stop with a fault between two members, or after a name. -/
inductive Members
  | close (fault : Option Fault)
  | stop (name : StringLiteral) (fault : Fault)
  | cons (name : StringLiteral) (o : Outline) (rest : Members)
end

/-- What is wrong where something else than these tokens is expected. -/
def Fault.beforeTokens (ts : List Token) : Fault :=
  if ts.isEmpty then .cutOff else .malformed

/- Reading the outline off the tokens by recursive descent.  Every function returns the tokens that
it leaves; `fuel` bounds the depth of the descent. -/
mutual
def Outline.read : (fuel : Nat) → List Token → Outline × List Token
  | 0, _ => (.broken .cutOff .cutOff, [])
  | _ + 1, [] => (.broken .cutOff .cutOff, [])
  | fuel + 1, t :: ts =>
    match t with
    | .null => (.null, ts)
    | .bool b => (.bool b, ts)
    | .number l => (.number l, ts)
    | .string s => (.string s, ts)
    | .broken needed skipped => (.broken needed skipped, ts)
    | .openArray =>
      let (items, ts) := Items.read fuel ts
      (.array items, ts)
    | .openObject =>
      let (members, ts) := Members.read fuel ts
      (.object members, ts)
    | _ => (.broken .malformed .malformed, [])

/-- Reads the items of an array that has just been opened. -/
def Items.read : (fuel : Nat) → List Token → Items × List Token
  | 0, _ => (.close (.missing .cutOff), [])
  | _ + 1, [] => (.close (.missing .cutOff), [])
  | _ + 1, .closeArray :: ts => (.close .closed, ts)
  | fuel + 1, ts =>
    let (o, ts) := Outline.read fuel ts
    let (rest, ts) := Items.readMore fuel ts
    (.cons o rest, ts)

/-- Reads the items of an array after the end of one. -/
def Items.readMore : (fuel : Nat) → List Token → Items × List Token
  | 0, _ => (.close (.missing .cutOff), [])
  | _ + 1, .closeArray :: ts => (.close .closed, ts)
  | _ + 1, [.comma] => (.close (.afterComma .cutOff), [])
  | _ + 1, .comma :: .closeArray :: _ => (.close (.afterComma .malformed), [])
  | fuel + 1, .comma :: ts =>
    let (o, ts) := Outline.read fuel ts
    let (rest, ts) := Items.readMore fuel ts
    (.cons o rest, ts)
  | _ + 1, ts => (.close (.missing (.beforeTokens ts)), [])

/-- Reads the members of an object that has just been opened. -/
def Members.read : (fuel : Nat) → List Token → Members × List Token
  | 0, _ => (.close (some .cutOff), [])
  | _ + 1, .closeObject :: ts => (.close none, ts)
  | fuel + 1, ts => Members.readOne fuel ts

/-- Reads the members of an object from the name of one on. -/
def Members.readOne : (fuel : Nat) → List Token → Members × List Token
  | 0, _ => (.close (some .cutOff), [])
  | fuel + 1, .string name :: .colon :: ts =>
    let (o, ts) := Outline.read fuel ts
    let (rest, ts) := Members.readMore fuel ts
    (.cons name o rest, ts)
  | _ + 1, .string name :: ts => (.stop name (.beforeTokens ts), [])
  | _ + 1, ts => (.close (some (.beforeTokens ts)), [])

/-- Reads the members of an object after the end of one. -/
def Members.readMore : (fuel : Nat) → List Token → Members × List Token
  | 0, _ => (.close (some .cutOff), [])
  | _ + 1, .closeObject :: ts => (.close none, ts)
  | fuel + 1, .comma :: ts => Members.readOne fuel ts
  | _ + 1, ts => (.close (some (.beforeTokens ts)), [])
end

/-- A whole text: its value, and whether anything stands after it. -/
structure Document where
  root : Outline
  trailing : Bool

/-- The outline of a text.  No chain of calls is longer than three for each token. -/
def Document.ofText (text : String) : Document :=
  let ts := Token.ofChars text.toList
  let (root, rest) := Outline.read (3 * ts.length + 1) ts
  ⟨root, !rest.isEmpty⟩

/- Passing over a value looks at its form alone: the pairing of surrogates, the size of numbers and
the depth of nesting do not matter. -/
mutual
def Outline.skip : Outline → Except Fault Unit
  | .null => .ok ()
  | .bool _ => .ok ()
  | .number _ => .ok ()
  | .string s => s.skip
  | .broken _ skipped => .error skipped
  | .array items => items.skip
  | .object members => members.skip

def Items.skip : Items → Except Fault Unit
  | .close .closed => .ok ()
  | .close (.missing f) => .error f
  | .close (.afterComma f) => .error f
  | .cons o rest => o.skip.bind fun _ => rest.skip

def Members.skip : Members → Except Fault Unit
  | .close none => .ok ()
  | .close (some f) => .error f
  | .stop name f => name.skip.bind fun _ => .error f
  | .cons name o rest => name.skip.bind fun _ => o.skip.bind fun _ => rest.skip
end

end Json
end Mandate
