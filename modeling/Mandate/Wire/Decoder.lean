/-
Readers of a byte stream.

A decoder takes bytes from the front of its input and hands back the rest, also when it fails: what
a failed read has consumed is part of its meaning, because the next read starts after it.
-/
import Mandate.Wire.Error

namespace Mandate

/-- A reader: its outcome on an input, and what it leaves unread. -/
def Decoder (ε α : Type) := Bytes → Except ε α × Bytes

namespace Decoder

variable {ε ε' α β : Type}

def pure (a : α) : Decoder ε α :=
  fun bs => (.ok a, bs)

/-- Reads with `d` and then, if that succeeds, with what `f` makes of its value. -/
def bind (d : Decoder ε α) (f : α → Decoder ε β) : Decoder ε β :=
  fun bs =>
    match d bs with
    | (.ok a, rest) => f a rest
    | (.error e, rest) => (.error e, rest)

def mapError (f : ε → ε') (d : Decoder ε α) : Decoder ε' α :=
  fun bs =>
    match d bs with
    | (.ok a, rest) => (.ok a, rest)
    | (.error e, rest) => (.error (f e), rest)

/-- Reads a value and then checks or converts it, with no further reading. -/
def refine (d : Decoder ε α) (f : α → Except ε β) : Decoder ε β :=
  fun bs =>
    match d bs with
    | (.ok a, rest) => (f a, rest)
    | (.error e, rest) => (.error e, rest)

/-- Reads `n` values one after another and stops at the first failure. -/
def replicate (d : Decoder ε α) : Nat → Decoder ε (List α)
  | 0 => pure []
  | n + 1 => d.bind fun a => (d.replicate n).bind fun as => pure (a :: as)

/-- Reads one value that has to use up all the bytes; `trailing` says that `n` are left. -/
def whole (d : Decoder ε α) (trailing : Nat → ε) (bs : Bytes) : Except ε α :=
  match d bs with
  | (.ok a, []) => .ok a
  | (.ok _, rest) => .error (trailing rest.length)
  | (.error e, _) => .error e

theorem bind_ok {d : Decoder ε α} {f : α → Decoder ε β} {bs rest : Bytes} {a : α}
    (h : d bs = (.ok a, rest)) : d.bind f bs = f a rest := by
  simp [bind, h]

theorem bind_error {d : Decoder ε α} {f : α → Decoder ε β} {bs rest : Bytes} {e : ε}
    (h : d bs = (.error e, rest)) : d.bind f bs = (.error e, rest) := by
  simp [bind, h]

/-- Two readings in a row succeed exactly when each does, the second where the first has ended. -/
theorem bind_eq_ok_iff {d : Decoder ε α} {f : α → Decoder ε β} {bs rest : Bytes} {b : β} :
    d.bind f bs = (.ok b, rest) ↔ ∃ a mid, d bs = (.ok a, mid) ∧ f a mid = (.ok b, rest) := by
  rcases h : d bs with ⟨outcome, mid⟩
  cases outcome with
  | ok a =>
    rw [bind_ok h]
    constructor
    · intro hf
      exact ⟨a, mid, rfl, hf⟩
    · rintro ⟨_, _, hd, hf⟩
      cases hd
      exact hf
  | error e => simp [bind_error h]

/-- They fail when the first does, or when the second does where the first has ended. -/
theorem bind_eq_error_iff {d : Decoder ε α} {f : α → Decoder ε β} {bs rest : Bytes} {e : ε} :
    d.bind f bs = (.error e, rest) ↔
      d bs = (.error e, rest) ∨ ∃ a mid, d bs = (.ok a, mid) ∧ f a mid = (.error e, rest) := by
  rcases h : d bs with ⟨outcome, mid⟩
  cases outcome with
  | ok a =>
    rw [bind_ok h]
    constructor
    · intro hf
      exact Or.inr ⟨a, mid, rfl, hf⟩
    · intro h
      rcases h with hd | ⟨_, _, hd, hf⟩
      · cases hd
      · cases hd
        exact hf
  | error e' => simp [bind_error h]

theorem mapError_ok {g : ε → ε'} {d : Decoder ε α} {bs rest : Bytes} {a : α}
    (h : d bs = (.ok a, rest)) : d.mapError g bs = (.ok a, rest) := by
  simp [mapError, h]

theorem mapError_error {g : ε → ε'} {d : Decoder ε α} {bs rest : Bytes} {e : ε}
    (h : d bs = (.error e, rest)) : d.mapError g bs = (.error (g e), rest) := by
  simp [mapError, h]

theorem mapError_eq (g : ε → ε') (d : Decoder ε α) (bs : Bytes) :
    d.mapError g bs = ((d bs).1.mapError g, (d bs).2) := by
  rcases h : d bs with ⟨e | a, rest⟩
  · exact mapError_error h
  · exact mapError_ok h

theorem refine_ok {d : Decoder ε α} {f : α → Except ε β} {bs rest : Bytes} {a : α}
    (h : d bs = (.ok a, rest)) : d.refine f bs = (f a, rest) := by
  simp [refine, h]

theorem refine_error {d : Decoder ε α} {f : α → Except ε β} {bs rest : Bytes} {e : ε}
    (h : d bs = (.error e, rest)) : d.refine f bs = (.error e, rest) := by
  simp [refine, h]

theorem refine_eq (f : α → Except ε β) (d : Decoder ε α) (bs : Bytes) :
    d.refine f bs = ((d bs).1.bind f, (d bs).2) := by
  rcases h : d bs with ⟨e | a, rest⟩
  · exact refine_error h
  · exact refine_ok h

end Decoder

end Mandate
