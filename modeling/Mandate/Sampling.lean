/-
Sample records for trying things out.

Samples are drawn from a stream of words that a seed determines.  They are of every kind, and their
names are short and visible.  What a round of samples shows is summed up by plain functions of it.
-/
import Mandate.Format
import Mandate.Batch.Document

namespace Mandate
namespace Sampling

/-- A way to draw a value: it moves the state of the stream on. -/
def Sampler (α : Type) := UInt64 → α × UInt64

namespace Sampler

variable {α β : Type}

def pure (a : α) : Sampler α :=
  fun state => (a, state)

def bind (s : Sampler α) (f : α → Sampler β) : Sampler β :=
  fun state => f (s state).1 (s state).2

def replicate (s : Sampler α) : Nat → Sampler (List α)
  | 0 => pure []
  | n + 1 => s.bind fun a => (s.replicate n).bind fun as => pure (a :: as)

end Sampler

/-- Any word.  The state moves on by a constant and is then mixed. -/
def word : Sampler UInt64 :=
  fun state =>
    let state := state + 0x9E3779B97F4A7C15
    let z := (state ^^^ (state >>> 30)) * 0xBF58476D1CE4E5B9
    let z := (z ^^^ (z >>> 27)) * 0x94D049BB133111EB
    (z ^^^ (z >>> 31), state)

/-- A number below `n`, which must not be zero. -/
def below (n : Nat) : Sampler Nat :=
  word.bind fun w => .pure (w.toNat % n)

def byte : Sampler UInt8 :=
  (below 256).bind fun n => .pure (UInt8.ofNat n)

def key (k : KeyKind) : Sampler (Key k) :=
  (byte.replicate k.length).bind fun bs => .pure (FixedBytes.padLeft k.length bs)

/-- A visible character: an ASCII one, a letter with an accent, an ideograph or a face. -/
def char : Sampler Char :=
  (below 4).bind fun
    | 0 => (below 95).bind fun n => .pure (Char.ofNat (0x20 + n))
    | 1 => (below 64).bind fun n => .pure (Char.ofNat (0xC0 + n))
    | 2 => (below 0x5000).bind fun n => .pure (Char.ofNat (0x4E00 + n))
    | _ => (below 80).bind fun n => .pure (Char.ofNat (0x1F600 + n))

def maxNameLength : Nat := 32

def name : Sampler Name :=
  (below (maxNameLength + 1)).bind fun n =>
    (char.replicate n).bind fun cs => .pure ⟨String.ofList cs⟩

def owner : Sampler Owner :=
  (below 3).bind fun
    | 0 => name.bind fun n => .pure (.name n)
    | 1 => (key .publicKey).bind fun value => .pure (.key .publicKey value)
    | _ => (key .address).bind fun value => .pure (.key .address value)

def author : Sampler Author :=
  owner.bind fun o => word.bind fun w => .pure ⟨o, w⟩

def actionKind : Sampler ActionKind :=
  (below 3).bind fun
    | 0 => .pure .add
    | 1 => .pure .update
    | _ => .pure .delete

def action : Sampler Action :=
  actionKind.bind fun k => author.bind fun a => .pure ⟨k, a⟩

/-- Zero half of the time, and any word otherwise. -/
def threshold : Sampler UInt64 :=
  (below 2).bind fun
    | 0 => .pure 0
    | _ => word

def batch (maxActions : Nat) : Sampler Batch :=
  threshold.bind fun t =>
    threshold.bind fun u =>
      (below (maxActions + 1)).bind fun n =>
        (action.replicate n).bind fun actions => .pure ⟨t, u, actions⟩

/-- `count` samples from the stream of a seed. -/
def draw {α : Type} (s : Sampler α) (seed : UInt8) (count : Nat) : List α :=
  (s.replicate count seed.toUInt64).1

def isControl (c : Char) : Bool :=
  c.toNat < 0x20 || (0x7F ≤ c.toNat && c.toNat < 0xA0)

/-- Whether an owner, if it is a name, is as short and visible as promised. -/
def nameFits : Owner → Bool
  | .name n => n.text.length ≤ maxNameLength && n.text.toList.all fun c => !isControl c
  | .key _ _ => true

def gives {ε α : Type} [DecidableEq α] (r : Except ε α) (a : α) : Bool :=
  match r with
  | .ok b => b = a
  | .error _ => false

/-- Whether an owner comes back from its payload and from its text. -/
def ownerReturns (o : Owner) : Bool :=
  gives (Owner.ofPayload o.scheme o.payload) o && gives (Owner.parse o.scheme o.toText) o

def authorReturns (a : Author) : Bool :=
  gives (Author.decoder.whole (fun n => .stream (.trailing n)) a.encode) a &&
    gives (Author.ofDocument a.toDocument) a

def batchReturns (b : Batch) : Bool :=
  gives (Batch.decoder.whole (fun n => .stream (.trailing n)) b.encode) b &&
    gives (Batch.ofDocument b.toDocument) b

/-- The schemes that occur, in the order of their tags. -/
def schemes (owners : List Owner) : List Scheme :=
  Scheme.all.filter fun s => owners.any fun o => o.scheme = s

/-- The kinds of action that occur, in the order of their tags. -/
def actionKinds (kinds : List ActionKind) : List ActionKind :=
  ActionKind.all.filter fun k => kinds.contains k

/-- The numbers of actions that occur, in ascending order. -/
def sizes (maxActions : Nat) (batches : List Batch) : List Nat :=
  (List.range (maxActions + 1)).filter fun n => batches.any fun b => b.actions.length = n

/-- Whether some of the words are zero, and whether some are not. -/
def zeroAndNot (ws : List UInt64) : Bool × Bool :=
  (ws.any (· == 0), ws.any (· != 0))

end Sampling
end Mandate
