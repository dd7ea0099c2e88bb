/-
A record that is cut off is an end of the stream, and nothing else.

Wherever the cut is, what is left was the beginning of a record, so no complaint about its content
can be right.  The reason is stability: an outcome that is settled on the beginning of a record is the
outcome on the whole of it, and then it would leave the missing bytes unread.
-/
import Mandate.Proofs.Decoder.Reads
import Mandate.Proofs.Format.Stability
import Mathlib

namespace Mandate
namespace Format

theorem decode_of_proper_prefix (f : Format) {front bs : Bytes} {v : f.Value}
    (h : f.decode bs = .ok v) (hfront : front <+: bs) (hne : front ≠ bs) :
    ∃ w : WireError, w.isEndOfStream = true ∧ f.decode front = .error (f.layer.ofWire w) := by
  obtain ⟨missing, rfl⟩ := hfront
  have hmissing : missing ≠ [] := by
    intro hnil
    exact hne (by rw [hnil, List.append_nil])
  obtain ⟨e, rest, hd, w, hw, rfl⟩ :=
    f.decoder_stable.cut_of_prefix (Decoder.whole_eq_ok_iff.mp h) hmissing
  exact ⟨w, hw, Decoder.whole_error hd⟩

/-- Every proper beginning of an accepted record is refused for having ended too early, in a length
or in a field, and not for anything that it holds.  So no accepted record is a proper beginning of
another one. -/
theorem decode_cut_off (f : Format) {bs : Bytes} {v : f.Value} (h : f.decode bs = .ok v) :
    (∀ front, front <+: bs → front ≠ bs → ∃ w : WireError,
      (w = .lengthCutOff ∨ ∃ field, w = .cutOff field) ∧
      f.decode front = .error (f.layer.ofWire w) ∧
      f.layer.findsFault (f.layer.ofWire w) = false) ∧
    ∀ front u, f.decode front = .ok u → front <+: bs → front = bs := by
  constructor
  · intro front hfront hne
    obtain ⟨w, hw, hd⟩ := f.decode_of_proper_prefix h hfront hne
    refine ⟨w, WireError.isEndOfStream_iff.mp hw, hd, ?_⟩
    rw [Layer.findsFault_ofWire]
    exact WireError.findsFault_of_isEndOfStream hw
  · intro front u hu hfront
    by_contra hne
    obtain ⟨w, -, hd⟩ := f.decode_of_proper_prefix h hfront hne
    rw [hu] at hd
    cases hd

/-- A name of two letters, with both lengths padded, cut off inside its payload. -/
theorem decode_cut_off_padded :
    author.decode [0, 0x84, 0, 0x82, 0, 97, 98, 0, 0, 0, 0, 0, 0, 0, 1] =
        .ok ⟨.name ⟨"ab"⟩, 1⟩ ∧
      (∃ w : WireError, (w = .lengthCutOff ∨ ∃ field, w = .cutOff field) ∧
        author.decode [0, 0x84, 0, 0x82, 0, 97] = .error (AuthorError.stream w)) ∧
      ¬ ∃ u, author.decode [0, 0x84, 0, 0x82, 0, 97] = .ok u := by
  have padded : author.decode [0, 0x84, 0, 0x82, 0, 97, 98, 0, 0, 0, 0, 0, 0, 0, 1] =
      .ok ⟨.name ⟨"ab"⟩, 1⟩ := by cbv
  have beginning : [0, 0x84, 0, 0x82, 0, 97] <+:
      ([0, 0x84, 0, 0x82, 0, 97, 98, 0, 0, 0, 0, 0, 0, 0, 1] : Bytes) := ⟨_, rfl⟩
  obtain ⟨refused, alone⟩ := decode_cut_off author padded
  refine ⟨padded, ?_, ?_⟩
  · obtain ⟨w, hw, hd, -⟩ := refused _ beginning (by decide)
    exact ⟨w, hw, hd⟩
  · rintro ⟨u, hu⟩
    exact absurd (alone _ u hu beginning) (by decide)

end Format
end Mandate
