/-
Reading values one after another stops at the first failure.

A repetition makes one reading after another, so it fails exactly if one of its readings does, and then
as that reading fails: with its error, at the byte where it has stopped, and without a look at how many
more readings there would have been.  If a reader takes at least one byte for each value, then there is
always such a reading, and the bytes that are there say when at the latest.  So they also say how many
readings are made at most, which `counted` counts.
-/
import Mandate.Wire.Decoder

namespace Mandate
namespace Decoder

variable {ε α : Type} {d : Decoder ε α}

/-- `m` readings in a row succeed, and the one after them fails with `e` and leaves `rest`. -/
def FailsAfter (d : Decoder ε α) (m : Nat) (bs : Bytes) (e : ε) (rest : Bytes) : Prop :=
  ∃ as mid, d.replicate m bs = (.ok as, mid) ∧ d mid = (.error e, rest)

theorem failsAfter_zero_iff {bs rest : Bytes} {e : ε} :
    d.FailsAfter 0 bs e rest ↔ d bs = (.error e, rest) := by
  constructor
  · intro h
    obtain ⟨as, mid, hread, he⟩ := h
    cases hread
    exact he
  · intro he
    exact ⟨[], bs, rfl, he⟩

theorem failsAfter_succ_iff {m : Nat} {bs rest : Bytes} {e : ε} :
    d.FailsAfter (m + 1) bs e rest ↔
      ∃ a mid, d bs = (.ok a, mid) ∧ d.FailsAfter m mid e rest := by
  constructor
  · intro h
    obtain ⟨_, x, hread, he⟩ := h
    obtain ⟨a, mid, ha, hread⟩ := bind_eq_ok_iff.mp hread
    obtain ⟨as, _, has, hx⟩ := bind_eq_ok_iff.mp hread
    cases hx
    exact ⟨a, mid, ha, as, x, has, he⟩
  · intro h
    obtain ⟨a, mid, ha, as, x, has, he⟩ := h
    refine ⟨a :: as, x, ?_, he⟩
    rw [replicate, bind_ok ha, bind_ok has, pure]

theorem replicate_eq_error_iff {n : Nat} {bs rest : Bytes} {e : ε} :
    d.replicate n bs = (.error e, rest) ↔ ∃ m < n, d.FailsAfter m bs e rest := by
  induction n generalizing bs with
  | zero => simp [replicate, pure]
  | succ n ih =>
    rw [replicate, bind_eq_error_iff]
    constructor
    · intro h
      rcases h with he | ⟨a, mid, ha, hrest⟩
      · exact ⟨0, Nat.succ_pos n, failsAfter_zero_iff.mpr he⟩
      · rcases bind_eq_error_iff.mp hrest with he | ⟨as, x, -, hx⟩
        · obtain ⟨m, hm, hfails⟩ := ih.mp he
          exact ⟨m + 1, Nat.succ_lt_succ hm, failsAfter_succ_iff.mpr ⟨a, mid, ha, hfails⟩⟩
        · cases hx
    · intro h
      obtain ⟨m, hm, hfails⟩ := h
      cases m with
      | zero => exact Or.inl (failsAfter_zero_iff.mp hfails)
      | succ m =>
        obtain ⟨a, mid, ha, hfails⟩ := failsAfter_succ_iff.mp hfails
        have he := ih.mpr ⟨m, Nat.lt_of_succ_lt_succ hm, hfails⟩
        exact Or.inr ⟨a, mid, ha, bind_error he⟩

/-! ## How many readings there are -/

/-- A repetition that also says how many readings it has made, one that has failed included. -/
def counted (d : Decoder ε α) : Nat → Bytes → (Except ε (List α) × Bytes) × Nat
  | 0, bs => ((.ok [], bs), 0)
  | n + 1, bs =>
    match d bs with
    | (.error e, rest) => ((.error e, rest), 1)
    | (.ok a, mid) =>
      let (others, count) := d.counted n mid
      ((others.1.map (a :: ·), others.2), count + 1)

theorem replicate_succ_of_ok {bs mid : Bytes} {a : α} (hd : d bs = (.ok a, mid)) (n : Nat) :
    d.replicate (n + 1) bs = ((d.replicate n mid).1.map (a :: ·), (d.replicate n mid).2) := by
  rw [replicate, bind_ok hd]
  rcases hothers : d.replicate n mid with ⟨e | as, rest⟩
  · exact bind_error hothers
  · exact bind_ok hothers

/-- Counting changes nothing of what is read. -/
theorem counted_fst (n : Nat) (bs : Bytes) : (d.counted n bs).1 = d.replicate n bs := by
  induction n generalizing bs with
  | zero => rfl
  | succ n ih =>
    rw [counted]
    rcases hd : d bs with ⟨e | a, mid⟩
    · exact (bind_error hd).symm
    · rw [replicate_succ_of_ok hd, ← ih]

/-- The reading that fails is the last one, however many more there would have been. -/
theorem FailsAfter.counted_eq {m n : Nat} {bs rest : Bytes} {e : ε} (h : d.FailsAfter m bs e rest)
    (hm : m < n) : d.counted n bs = ((.error e, rest), m + 1) := by
  induction n generalizing m bs with
  | zero => exact absurd hm (Nat.not_lt_zero m)
  | succ n ih =>
    rw [counted]
    cases m with
    | zero => rw [failsAfter_zero_iff.mp h]
    | succ m =>
      obtain ⟨a, mid, ha, hfails⟩ := failsAfter_succ_iff.mp h
      simp only [ha, ih hfails (Nat.lt_of_succ_lt_succ hm)]
      rfl

/-- Whether a reader takes at least one byte for each value. -/
def Consumes (d : Decoder ε α) : Prop :=
  ∀ bs a rest, d bs = (.ok a, rest) → rest.length < bs.length

/-- Readings that each take a byte fail after at most as many as there are bytes. -/
theorem Consumes.exists_failsAfter (h : d.Consumes) (bs : Bytes) :
    ∃ m ≤ bs.length, ∃ e rest, d.FailsAfter m bs e rest := by
  -- The induction is on what is left, which every value makes shorter.
  induction hn : bs.length using Nat.strongRecOn generalizing bs with
  | ind n ih =>
    rcases hd : d bs with ⟨e | a, mid⟩
    · exact ⟨0, Nat.zero_le n, e, mid, failsAfter_zero_iff.mpr hd⟩
    · have hless : mid.length < n := hn ▸ h bs a mid hd
      obtain ⟨m, hm, e, rest, hfails⟩ := ih mid.length hless mid rfl
      refine ⟨m + 1, by omega, e, rest, ?_⟩
      exact failsAfter_succ_iff.mpr ⟨a, mid, hd, hfails⟩

end Decoder
end Mandate
