/-
Sessions over one buffer: writes append to its end, reads take from its front.
-/
import Mandate.Format

namespace Mandate
namespace Session

/-- What one write puts into the buffer and one read takes out of it. -/
inductive Item
  | value (f : Format)
  | length
  | bytes

namespace Item

def Value : Item → Type
  | value f => f.Value
  | length => UInt64
  | bytes => Bytes

def Error : Item → Type
  | value f => f.Error
  | length | bytes => WireError

def encode : (i : Item) → i.Value → Bytes
  | value f => f.encode
  | length => fun n => Length.encode (UInt64.toNat n)
  | bytes => Wire.encodeByteString

def decoder : (i : Item) → Decoder i.Error i.Value
  | value f => f.decoder
  | length => Length.decode.refine fun n => .ok (UInt64.ofNat n)
  | bytes => Wire.decodeByteString

end Item

inductive Step
  | write (i : Item) (v : i.Value)
  /-- Appends bytes as they are. -/
  | append (bs : Bytes)
  | read (i : Item)

inductive Reply
  | done
  | value (i : Item) (v : i.Value)
  | failed (i : Item) (e : i.Error)

/-- Carries out a step on a buffer.  A failed read leaves what its decoder leaves. -/
def perform (buffer : Bytes) : Step → Reply × Bytes
  | .write i v => (.done, buffer ++ i.encode v)
  | .append bs => (.done, buffer ++ bs)
  | .read i =>
    match i.decoder buffer with
    | (.ok v, rest) => (.value i v, rest)
    | (.error e, rest) => (.failed i e, rest)

/-- Carries out the steps in order and lists the replies, each with the buffer after it. -/
def run (buffer : Bytes) : List Step → List (Reply × Bytes)
  | [] => []
  | s :: steps =>
    let after := perform buffer s
    after :: run after.2 steps

end Session
end Mandate
