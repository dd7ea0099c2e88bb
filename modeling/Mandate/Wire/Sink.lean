/-
Writing into a place of limited size.

A sink takes bytes as long as it has room.  A write that does not fit fills the room that is left
and then fails, so what a sink holds is always a beginning of what it was given.
-/
import Mandate.Wire.Field

namespace Mandate

/-- A place to write to: what it holds, and how many more bytes fit. -/
structure Sink where
  written : Bytes
  room : Nat
deriving DecidableEq

def Sink.empty (capacity : Nat) : Sink :=
  ⟨[], capacity⟩

/-- An action on a sink that may fail, and leaves a sink in any case. -/
def Writer (ε : Type) := Sink → Except ε Unit × Sink

namespace Writer

variable {ε ε' α : Type}

def done : Writer ε :=
  fun sink => (.ok (), sink)

/-- Writes the bytes, or as many of them as fit. -/
def put (bs : Bytes) : Writer WireError :=
  fun sink =>
    let fitting := bs.take sink.room
    let sink' := ⟨sink.written ++ fitting, sink.room - fitting.length⟩
    if bs.length ≤ sink.room then (.ok (), sink') else (.error .noRoom, sink')

/-- Writes with `v` after `w`, unless `w` fails. -/
def andThen (w v : Writer ε) : Writer ε :=
  fun sink =>
    match w sink with
    | (.ok _, sink') => v sink'
    | (.error e, sink') => (.error e, sink')

def mapError (f : ε → ε') (w : Writer ε) : Writer ε' :=
  fun sink =>
    match w sink with
    | (.ok u, sink') => (.ok u, sink')
    | (.error e, sink') => (.error (f e), sink')

def each (write : α → Writer ε) : List α → Writer ε
  | [] => done
  | a :: as => (write a).andThen (each write as)

end Writer

namespace Wire

def writeByte (b : UInt8) : Writer WireError :=
  .put (encodeByte b)

def writeWord (w : UInt64) : Writer WireError :=
  .put (encodeWord w)

/-- Writes the length and the content as two separate pieces. -/
def writeByteString (content : Bytes) : Writer WireError :=
  (Writer.put (Length.encode content.length)).andThen (.put content)

def writeText (s : String) : Writer WireError :=
  writeByteString (Utf8.encode s)

def writeSeq {ε α : Type} (ofWire : WireError → ε) (write : α → Writer ε) (as : List α) :
    Writer ε :=
  ((Writer.put (Length.encode as.length)).mapError ofWire).andThen (.each write as)

end Wire
end Mandate
