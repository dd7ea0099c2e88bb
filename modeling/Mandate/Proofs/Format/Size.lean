/-
A value is no larger than its record, whatever the counts in it say.

Every value takes at least one byte of its record, an empty text or an empty sequence too, because its
length or count is there.  So what is read is bounded by what there is to read.  A count is only ever a
promise: if it promises more elements than there are bytes, then one of the elements is not there, and
which one it is does not depend on the count.  That element is the last one that is tried.

The size of a value is bounded along the grammar, by induction on the format.  What follows for the
readers follows from what they accept.
-/
import Mandate.Proofs.Decoder.Repetition
import Mandate.Proofs.Format.Spelling
import Mathlib

namespace Mandate

/-- How many single values and sequences a value consists of, at all depths.  A batch is one of them
and holds a sequence, that of its actions. -/
def Format.size : (f : Format) → f.Value → Nat
  | byte | word | text | raw | fixed _ | name | key _ => fun _ => 1
  | envelope | author | actionKind | action => fun _ => 1
  | batch => fun (b : Batch) => 2 + b.actions.length
  | seq element => fun (vs : List element.Value) => 1 + (vs.map element.size).sum

theorem Format.size_pos (f : Format) (v : f.Value) : 0 < f.size v := by
  cases f with
  | batch => exact Nat.lt_of_lt_of_le Nat.two_pos (Nat.le_add_right 2 _)
  | seq element => exact Nat.lt_of_lt_of_le Nat.one_pos (Nat.le_add_right 1 _)
  | _ => exact Nat.one_pos

namespace Wire

/-! ## The parts of a record -/

theorem SpellsByteString.length_pos {content bs : Bytes} (h : SpellsByteString content bs) :
    0 < bs.length := by
  obtain ⟨form, hform, rfl⟩ := h
  have hpos := hform.digits.length_pos
  rw [List.length_append]
  omega

theorem sum_le_length_flatten {α : Type} {spells : α → Bytes → Prop} {size : α → Nat}
    {as : List α} {parts : List Bytes} (h : ∀ a bs, spells a bs → size a ≤ bs.length)
    (hs : List.Forall₂ spells as parts) : (as.map size).sum ≤ parts.flatten.length := by
  induction hs with
  | nil => exact Nat.le_refl 0
  | cons ha _ ih =>
    have hfirst := h _ _ ha
    rw [List.map_cons, List.sum_cons, List.flatten_cons, List.length_append]
    omega

theorem SpellsSeq.sum_lt {α : Type} {spells : α → Bytes → Prop} {size : α → Nat} {as : List α}
    {bs : Bytes} (h : ∀ a bs, spells a bs → size a ≤ bs.length) (hs : SpellsSeq spells as bs) :
    (as.map size).sum < bs.length := by
  obtain ⟨form, parts, hform, hparts, rfl⟩ := hs
  have hpos := hform.digits.length_pos
  have hsum := sum_le_length_flatten h hparts
  rw [List.length_append]
  omega

end Wire

/-! ## Records -/

theorem Envelope.Spells.length_pos {e : Envelope} {bs : Bytes} (h : e.Spells bs) :
    0 < bs.length := by
  obtain ⟨payload, -, rfl⟩ := h
  simp [Wire.encodeByte]

theorem Author.Spells.length_pos {a : Author} {bs : Bytes} (h : a.Spells bs) : 0 < bs.length := by
  obtain ⟨payload, -, hs⟩ := h
  exact hs.length_pos

theorem Action.Spells.length_pos {a : Action} {bs : Bytes} (h : a.Spells bs) : 0 < bs.length := by
  obtain ⟨author, -, rfl⟩ := h
  simp [ActionKind.encode, Wire.encodeByte]

theorem Batch.Spells.length_lt {b : Batch} {bs : Bytes} (h : b.Spells bs) :
    1 + b.actions.length < bs.length := by
  obtain ⟨actions, hs, rfl⟩ := h
  have hcount : (b.actions.map fun _ => 1).sum < actions.length :=
    hs.sum_lt fun _ _ ha => ha.length_pos
  rw [List.map_const', List.sum_replicate, Nat.nsmul_eq_mul, Nat.mul_one] at hcount
  simp only [List.length_append, Wire.length_encodeWord]
  omega

namespace Format

theorem size_le_of_spells (f : Format) {v : f.Value} {bs : Bytes} (hs : f.Spells v bs) :
    f.size v ≤ bs.length := by
  induction f generalizing bs with
  | byte =>
    rw [show bs = Wire.encodeByte v from hs]
    exact Nat.le_refl 1
  | word =>
    have hlen : bs.length = 8 := (congrArg List.length hs).trans (Wire.length_encodeWord v)
    show 1 ≤ bs.length
    omega
  | text => exact Wire.SpellsByteString.length_pos hs
  | raw => exact Wire.SpellsByteString.length_pos hs
  | fixed n => exact Wire.SpellsByteString.length_pos hs
  | name => exact Wire.SpellsByteString.length_pos hs
  | key k => exact Wire.SpellsByteString.length_pos hs
  | envelope => exact Envelope.Spells.length_pos hs
  | author => exact Author.Spells.length_pos hs
  | actionKind =>
    rw [show bs = ActionKind.encode v from hs]
    exact Nat.le_refl 1
  | action => exact Action.Spells.length_pos hs
  | batch =>
    have hlt := Batch.Spells.length_lt hs
    show 2 + (Batch.actions v).length ≤ bs.length
    omega
  | seq element ih =>
    have hlt : (List.map element.size v).sum < bs.length :=
      Wire.SpellsSeq.sum_lt (fun _ _ ha => ih ha) hs
    show 1 + (List.map element.size v).sum ≤ bs.length
    omega

/-! ## What follows for readers -/

theorem decoder_size_le (f : Format) {bs rest : Bytes} {v : f.Value}
    (h : f.decoder bs = (.ok v, rest)) :
    ∃ consumed, bs = consumed ++ rest ∧ 0 < consumed.length ∧ f.size v ≤ consumed.length := by
  obtain ⟨consumed, hs, hbs⟩ := (f.decoder_reads bs v rest).mp h
  have hsize := f.size_le_of_spells hs
  exact ⟨consumed, hbs, Nat.lt_of_lt_of_le (f.size_pos v) hsize, hsize⟩

theorem decoder_consumes (f : Format) : f.decoder.Consumes := by
  intro bs v rest h
  obtain ⟨consumed, rfl, hpos, -⟩ := f.decoder_size_le h
  rw [List.length_append]
  omega

/-- A sequence has as many elements as its count says, and no more than there are bytes for them. -/
theorem seq_decoder_length_le (f : Format) {bs rest : Bytes} {vs : List f.Value}
    (h : (seq f).decoder bs = (.ok vs, rest)) :
    ∃ consumed, Length.decode bs = (.ok vs.length, consumed ++ rest) ∧
      vs.length ≤ consumed.length := by
  obtain ⟨n, mid, hcount, hread⟩ := Decoder.bind_eq_ok_iff.mp h
  obtain ⟨form, hform, rfl⟩ := (Wire.reads_length.mapError _ _ _).mp hcount
  obtain ⟨_, ⟨rfl, parts, hparts, rfl⟩, rfl⟩ := (f.decoder_reads.replicate n _ _ _).mp hread
  refine ⟨parts.flatten, Wire.reads_length.append hform _, ?_⟩
  have hsum : (vs.map f.size).sum ≤ parts.flatten.length :=
    Wire.sum_le_length_flatten (fun _ _ => f.size_le_of_spells) hparts
  have hcard : (vs.map f.size).length ≤ (vs.map f.size).sum := by
    refine List.length_le_sum_of_one_le _ fun n hn => ?_
    obtain ⟨v, -, rfl⟩ := List.mem_map.mp hn
    exact f.size_pos v
  rw [List.length_map] at hcard
  exact Nat.le_trans hcard hsum

/-- Behind its count, a sequence is the repetition whose readings are counted. -/
theorem seq_decoder_eq_counted (f : Format) {bs mid : Bytes} {n : Nat}
    (hcount : Length.decode bs = (.ok n, mid)) :
    (seq f).decoder bs = (f.decoder.counted n mid).1 :=
  (Decoder.bind_ok (Decoder.mapError_ok hcount)).trans (Decoder.counted_fst n mid).symm

/-- A sequence stops at its first element that cannot be read, if its count goes so far. -/
theorem seq_decoder_of_failsAfter (f : Format) {bs mid rest : Bytes} {n m : Nat} {e : f.Error}
    (hcount : Length.decode bs = (.ok n, mid)) (hm : m < n)
    (h : f.decoder.FailsAfter m mid e rest) : (seq f).decoder bs = (.error e, rest) :=
  (f.seq_decoder_eq_counted hcount).trans (congrArg Prod.fst (h.counted_eq hm))

/-- What is read takes a byte for each value and each sequence in it, at all depths, so a sequence has
no more elements than there are bytes behind its count.  For any bytes that may stand behind a count
there is an element, after at most as many others as there are bytes, which is not there whole.  All
counts that promise more elements than there are bytes come to the error of that element, and no
element behind it is tried. -/
theorem size_bounded :
    (∀ (f : Format) (bs : Bytes) (v : f.Value) (rest : Bytes), f.decoder bs = (.ok v, rest) →
      ∃ consumed, bs = consumed ++ rest ∧ 0 < consumed.length ∧ f.size v ≤ consumed.length) ∧
    (∀ (f : Format) (bs : Bytes) (vs : List f.Value) (rest : Bytes),
      (seq f).decoder bs = (.ok vs, rest) →
      ∃ consumed, Length.decode bs = (.ok vs.length, consumed ++ rest) ∧
        vs.length ≤ consumed.length) ∧
    ∀ (f : Format) (behind : Bytes), ∃ m ≤ behind.length, ∃ e rest,
      f.decoder.FailsAfter m behind e rest ∧
      ∀ bs n, Length.decode bs = (.ok n, behind) → behind.length < n →
        (seq f).decoder bs = (.error e, rest) ∧
        f.decoder.counted n behind = ((.error e, rest), m + 1) := by
  refine ⟨fun f bs v rest => f.decoder_size_le, fun f bs vs rest => f.seq_decoder_length_le,
    fun f behind => ?_⟩
  -- The element that fails is found without the count, so it is the same one under all counts.
  obtain ⟨m, hm, e, rest, hfails⟩ := f.decoder_consumes.exists_failsAfter behind
  refine ⟨m, hm, e, rest, hfails, fun bs n hcount hn => ?_⟩
  have hmn : m < n := Nat.lt_of_le_of_lt hm hn
  exact ⟨f.seq_decoder_of_failsAfter hcount hmn hfails, hfails.counted_eq hmn⟩

/-- Two sequences of bytes, one of them empty, under a count of two, of two hundred, and of as many as
can be counted. -/
theorem size_bounded_promised :
    (seq (seq byte)).decoder [2, 1, 7, 0, 9] = (.ok [[(7 : UInt8)], []], [9]) ∧
      (seq (seq byte)).size [[(7 : UInt8)], []] = 4 ∧
      (∃ consumed, ([2, 1, 7, 0, 9] : Bytes) = consumed ++ [9] ∧ 4 ≤ consumed.length) ∧
      ∃ e rest, (seq (seq byte)).decoder [200, 1, 1, 7, 0] = (.error e, rest) ∧
        (seq (seq byte)).decoder [255, 255, 255, 255, 255, 255, 255, 255, 255, 1, 1, 7, 0] =
          (.error e, rest) := by
  have read : (seq (seq byte)).decoder [2, 1, 7, 0, 9] = (.ok [[(7 : UInt8)], []], [9]) := by cbv
  have size : (seq (seq byte)).size [[(7 : UInt8)], []] = 4 := rfl
  have hundreds : Length.decode [200, 1, 1, 7, 0] = (.ok 200, [1, 7, 0]) := by cbv
  have most : Length.decode [255, 255, 255, 255, 255, 255, 255, 255, 255, 1, 1, 7, 0] =
      (.ok (2 ^ 64 - 1), [1, 7, 0]) := by cbv
  obtain ⟨consumed, hbs, -, hsize⟩ := size_bounded.1 _ _ _ _ read
  obtain ⟨m, -, e, rest, -, promised⟩ := size_bounded.2.2 (seq byte) [1, 7, 0]
  exact ⟨read, size, ⟨consumed, hbs, size ▸ hsize⟩, e, rest, (promised _ _ hundreds (by decide)).1,
    (promised _ _ most (by decide)).1⟩

end Format
end Mandate
