/-
Readers whose answers later input does not change.

A reader sees its input from the front, and what it has not looked at cannot matter.  The exception
is an input that has ended too early: more of it may turn such a failure into anything.  A stable
reader is one where that is the only exception, with `cut` for the errors that say so.

It is stable because it is local.  What a local reader answers is decided by the bytes that it has
taken: they can be cut out of the input, and are read with the same outcome whatever is put behind
them.  Where the input has ended too early, there is nothing left to put there.  Being local is kept by
everything that readers are put together with, and by a check of what has been read, which looks at no
input, unless the check itself says that the input has ended.
-/
import Mandate.Wire.Decoder

namespace Mandate
namespace Decoder

variable {ε ε' α β : Type}

/-- Whether an outcome is a value, or an error that is not about the end of the input. -/
def Settled (cut : ε → Prop) : Except ε α → Prop
  | .ok _ => True
  | .error e => ¬ cut e

/-- `d` leaves an end of its input, and a settled outcome is the outcome for all longer inputs,
which are read just as far. -/
structure Stable (cut : ε → Prop) (d : Decoder ε α) : Prop where
  suffix : ∀ {bs rest : Bytes} {outcome : Except ε α}, d bs = (outcome, rest) → rest <:+ bs
  append : ∀ {bs rest : Bytes} {outcome : Except ε α}, d bs = (outcome, rest) →
    Settled cut outcome → ∀ s, d (bs ++ s) = (outcome, rest ++ s)

/-- A settled outcome is that of the bytes in front of what is left, whatever comes after them, and
after any other outcome nothing is left. -/
structure Local (cut : ε → Prop) (d : Decoder ε α) : Prop where
  own : ∀ {bs rest : Bytes} {outcome : Except ε α}, d bs = (outcome, rest) →
    Settled cut outcome → ∃ own, bs = own ++ rest ∧ ∀ later, d (own ++ later) = (outcome, later)
  ended : ∀ {bs rest : Bytes} {outcome : Except ε α}, d bs = (outcome, rest) →
    ¬ Settled cut outcome → rest = []

variable {cut : ε → Prop} {cut' : ε' → Prop} {d : Decoder ε α}

namespace Local

theorem of_forall (h : ∀ bs,
    (Settled cut (d bs).1 →
      ∃ own, bs = own ++ (d bs).2 ∧ ∀ later, d (own ++ later) = ((d bs).1, later)) ∧
    (¬ Settled cut (d bs).1 → (d bs).2 = [])) : Local cut d where
  own {bs rest outcome} hd hs := by
    have := (h bs).1
    rw [hd] at this
    exact this hs
  ended {bs rest outcome} hd hs := by
    have := (h bs).2
    rw [hd] at this
    exact this hs

theorem pure (a : α) : Local cut (Decoder.pure a : Decoder ε α) where
  own h _ := by
    cases h
    exact ⟨[], rfl, fun _ => rfl⟩
  ended h hs := by
    cases h
    exact absurd trivial hs

theorem bind {f : α → Decoder ε β} (hd : Local cut d) (hf : ∀ a, Local cut (f a)) :
    Local cut (d.bind f) where
  own {bs rest outcome} h hs := by
    rcases hdb : d bs with ⟨e | a, mid⟩
    · rw [bind_error hdb] at h
      cases h
      obtain ⟨own, hbs, hown⟩ := hd.own hdb hs
      exact ⟨own, hbs, fun later => bind_error (hown later)⟩
    · rw [bind_ok hdb] at h
      obtain ⟨first, rfl, hfirst⟩ := hd.own hdb trivial
      obtain ⟨second, rfl, hsecond⟩ := (hf a).own h hs
      refine ⟨first ++ second, by rw [List.append_assoc], fun later => ?_⟩
      rw [List.append_assoc, bind_ok (hfirst _), hsecond]
  ended {bs rest outcome} h hs := by
    rcases hdb : d bs with ⟨e | a, mid⟩
    · rw [bind_error hdb] at h
      cases h
      exact hd.ended hdb hs
    · rw [bind_ok hdb] at h
      exact (hf a).ended h hs

/-- Anything may be made of an outcome after reading, as long as it is about the end of the input if
and only if the outcome was. -/
theorem of_outcome {d' : Decoder ε' β} {g : Except ε α → Except ε' β} (h : Local cut d)
    (hd' : ∀ bs, d' bs = (g (d bs).1, (d bs).2))
    (hg : ∀ outcome, Settled cut' (g outcome) ↔ Settled cut outcome) : Local cut' d' where
  own {bs rest outcome} h' hs := by
    rw [hd'] at h'
    cases h'
    obtain ⟨own, hbs, hown⟩ := h.own rfl ((hg _).mp hs)
    refine ⟨own, hbs, fun later => ?_⟩
    rw [hd', hown]
  ended {bs rest outcome} h' hs := by
    rw [hd'] at h'
    cases h'
    exact h.ended rfl ((not_congr (hg _)).mp hs)

theorem mapError {g : ε → ε'} (h : Local cut d) (hg : ∀ e, cut' (g e) ↔ cut e) :
    Local cut' (d.mapError g) := by
  refine h.of_outcome (mapError_eq g d) fun outcome => ?_
  cases outcome with
  | ok a => exact Iff.rfl
  | error e => exact not_congr (hg e)

/-- A check that reports no end of the input looks at what has been read. -/
theorem refine {f : α → Except ε β} (h : Local cut d) (hf : ∀ a, Settled cut (f a)) :
    Local cut (d.refine f) := by
  refine h.of_outcome (g := fun outcome => outcome.bind f) (refine_eq f d) fun outcome => ?_
  cases outcome with
  | ok a => exact iff_of_true (hf a) trivial
  | error e => exact Iff.rfl

theorem replicate (h : Local cut d) (n : Nat) : Local cut (d.replicate n) := by
  induction n with
  | zero => exact pure []
  | succ n ih => exact h.bind fun a => ih.bind fun as => pure (a :: as)

theorem suffix (h : Local cut d) {bs rest : Bytes} {outcome : Except ε α}
    (hd : d bs = (outcome, rest)) : rest <:+ bs := by
  by_cases hs : Settled cut outcome
  · obtain ⟨own, hbs, -⟩ := h.own hd hs
    exact ⟨own, hbs.symm⟩
  · rw [h.ended hd hs]
    exact List.nil_suffix

theorem stable (h : Local cut d) : Stable cut d where
  suffix := h.suffix
  append hd hs s := by
    obtain ⟨own, rfl, hown⟩ := h.own hd hs
    rw [List.append_assoc, hown]

end Local

/-- A stable reader that uses up all of its input has no settled outcome on a beginning of it. -/
theorem Stable.cut_of_prefix (hd : Stable cut d) {front missing : Bytes} {a : α}
    (h : d (front ++ missing) = (.ok a, [])) (hmissing : missing ≠ []) :
    ∃ e rest, d front = (.error e, rest) ∧ cut e := by
  rcases hfront : d front with ⟨outcome, rest⟩
  have unsettled : ¬ Settled cut outcome := by
    intro hs
    have hlonger := hd.append hfront hs missing
    rw [h, Prod.mk.injEq] at hlonger
    exact hmissing (List.append_eq_nil_iff.mp hlonger.2.symm).2
  cases outcome with
  | ok b => exact absurd trivial unsettled
  | error e => exact ⟨e, rest, rfl, Classical.not_not.mp unsettled⟩

end Decoder
end Mandate
