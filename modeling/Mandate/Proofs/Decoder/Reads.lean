/-
Readers against grammars.

A grammar is a relation between values and the byte strings that spell them.  `d.Reads spells` says
that `d` succeeds exactly where its input begins with a spelling, and then leaves what follows that
spelling.  Both directions are in one statement, and it is over all that may follow, so that it
carries over to readers that are put together from others.
-/
import Mandate.Wire.Decoder
import Mathlib.Data.List.Forall2

namespace Except

variable {ε ε' α β : Type}

theorem map_eq_ok_iff {f : α → β} {x : Except ε α} {b : β} :
    x.map f = .ok b ↔ ∃ a, x = .ok a ∧ f a = b := by
  cases x <;> simp [Except.map]

theorem mapError_eq_ok_iff {f : ε → ε'} {x : Except ε α} {a : α} :
    x.mapError f = .ok a ↔ x = .ok a := by
  cases x <;> simp [Except.mapError]

theorem bind_eq_ok_iff {f : α → Except ε β} {x : Except ε α} {b : β} :
    x.bind f = .ok b ↔ ∃ a, x = .ok a ∧ f a = .ok b := by
  cases x <;> simp [Except.bind]

theorem map_eq_error_iff {f : α → β} {x : Except ε α} {e : ε} :
    x.map f = .error e ↔ x = .error e := by
  cases x <;> simp [Except.map]

theorem mapError_eq_error_iff {f : ε → ε'} {x : Except ε α} {e' : ε'} :
    x.mapError f = .error e' ↔ ∃ e, x = .error e ∧ f e = e' := by
  cases x <;> simp [Except.mapError]

end Except

namespace Mandate
namespace Decoder

variable {ε ε' α β : Type}

theorem whole_eq_ok_iff {d : Decoder ε α} {trailing : Nat → ε} {bs : Bytes} {a : α} :
    d.whole trailing bs = .ok a ↔ d bs = (.ok a, []) := by
  rw [whole]
  rcases d bs with ⟨_ | b, _ | ⟨c, rest⟩⟩ <;> simp

/-- `d` reads what `spells` relates to a value, and nothing else. -/
def Reads (d : Decoder ε α) (spells : α → Bytes → Prop) : Prop :=
  ∀ bs a rest, d bs = (.ok a, rest) ↔ ∃ front, spells a front ∧ bs = front ++ rest

namespace Reads

variable {d : Decoder ε α} {spells spells' : α → Bytes → Prop}

theorem append (h : d.Reads spells) {a : α} {front : Bytes} (hs : spells a front)
    (rest : Bytes) : d (front ++ rest) = (.ok a, rest) :=
  (h _ _ _).mpr ⟨front, hs, rfl⟩

theorem congr (h : d.Reads spells) (hs : ∀ a front, spells a front ↔ spells' a front) :
    d.Reads spells' := by
  intro bs a rest
  rw [h bs a rest]
  simp only [hs]

theorem pure (a : α) :
    Reads (Decoder.pure a : Decoder ε α) fun b front => b = a ∧ front = [] := by
  intro bs b rest
  constructor
  · intro h
    cases h
    exact ⟨[], ⟨rfl, rfl⟩, rfl⟩
  · intro h
    obtain ⟨_, ⟨rfl, rfl⟩, rfl⟩ := h
    rfl

theorem bind {f : α → Decoder ε β} {next : α → β → Bytes → Prop} (hd : d.Reads spells)
    (hf : ∀ a, (f a).Reads (next a)) :
    (d.bind f).Reads fun b front =>
      ∃ a p q, spells a p ∧ next a b q ∧ front = p ++ q := by
  intro bs b rest
  rw [bind_eq_ok_iff]
  constructor
  · intro h
    obtain ⟨a, mid, ha, hb⟩ := h
    obtain ⟨p, hp, rfl⟩ := (hd _ _ _).mp ha
    obtain ⟨q, hq, rfl⟩ := (hf a _ _ _).mp hb
    exact ⟨p ++ q, ⟨a, p, q, hp, hq, rfl⟩, by rw [List.append_assoc]⟩
  · intro h
    obtain ⟨_, ⟨a, p, q, hp, hq, rfl⟩, rfl⟩ := h
    refine ⟨a, q ++ rest, ?_, (hf a).append hq rest⟩
    rw [List.append_assoc]
    exact hd.append hp (q ++ rest)

theorem mapError {g : ε → ε'} (h : d.Reads spells) : (d.mapError g).Reads spells := by
  intro bs a rest
  rw [← h bs a rest]
  rcases hd : d bs with ⟨outcome, mid⟩
  cases outcome with
  | ok b => rw [mapError_ok hd]; simp
  | error e => rw [mapError_error hd]; simp

theorem refine {f : α → Except ε β} (h : d.Reads spells) :
    (d.refine f).Reads fun b front => ∃ a, f a = .ok b ∧ spells a front := by
  intro bs b rest
  constructor
  · intro hb
    rcases hd : d bs with ⟨outcome, mid⟩
    cases outcome with
    | ok a =>
      rw [refine_ok hd] at hb
      obtain ⟨hfa, rfl⟩ := Prod.mk.inj hb
      obtain ⟨front, hs, hbs⟩ := (h _ _ _).mp hd
      exact ⟨front, ⟨a, hfa, hs⟩, hbs⟩
    | error e => simp [refine_error hd] at hb
  · intro h
    obtain ⟨front, ⟨a, hfa, hs⟩, rfl⟩ := h
    rw [refine_ok (h.append hs rest), hfa]

theorem replicate (h : d.Reads spells) (n : Nat) :
    (d.replicate n).Reads fun as front =>
      as.length = n ∧ ∃ parts, List.Forall₂ spells as parts ∧ front = parts.flatten := by
  induction n with
  | zero =>
    refine (pure []).congr fun as front => ?_
    constructor
    · intro h
      obtain ⟨rfl, rfl⟩ := h
      exact ⟨rfl, [], .nil, rfl⟩
    · intro h
      obtain ⟨hlen, parts, hparts, rfl⟩ := h
      obtain rfl := List.length_eq_zero_iff.mp hlen
      cases hparts
      exact ⟨rfl, rfl⟩
  | succ n ih =>
    refine (h.bind fun a => ih.bind fun as => pure (a :: as)).congr fun as front => ?_
    constructor
    · intro h
      obtain ⟨a, p, _, hp, ⟨as, _, _, ⟨rfl, parts, hparts, rfl⟩, ⟨rfl, rfl⟩, rfl⟩, rfl⟩ := h
      exact ⟨rfl, p :: parts, .cons hp hparts, by simp⟩
    · intro h
      obtain ⟨hlen, parts, hparts, rfl⟩ := h
      cases hparts with
      | nil => simp at hlen
      | @cons a p as parts hp hparts =>
        refine ⟨a, p, parts.flatten, hp, ?_, rfl⟩
        exact ⟨as, _, [], ⟨by simpa using hlen, parts, hparts, rfl⟩, ⟨rfl, rfl⟩, by simp⟩

theorem whole (h : d.Reads spells) {trailing : Nat → ε} {bs : Bytes} {a : α} :
    d.whole trailing bs = .ok a ↔ spells a bs := by
  rw [whole_eq_ok_iff, h bs a []]
  simp

end Reads

theorem whole_error {d : Decoder ε α} {trailing : Nat → ε} {bs rest : Bytes} {e : ε}
    (h : d bs = (.error e, rest)) : d.whole trailing bs = .error e := by
  rw [whole, h]

theorem whole_of_nil {d : Decoder ε α} {trailing : Nat → ε} {bs : Bytes}
    (h : (d bs).2 = []) : d.whole trailing bs = (d bs).1 := by
  rw [whole]
  rcases hd : d bs with ⟨e | a, rest⟩
  · rfl
  · rw [hd] at h
    cases h
    rfl

theorem whole_append {d : Decoder ε α} {trailing : Nat → ε} {bs rest : Bytes} {a : α}
    (h : d bs = (.ok a, rest)) (hrest : rest ≠ []) :
    d.whole trailing bs = .error (trailing rest.length) := by
  rw [Decoder.whole, h]
  cases rest with
  | nil => exact absurd rfl hrest
  | cons b rest => rfl

end Decoder
end Mandate
