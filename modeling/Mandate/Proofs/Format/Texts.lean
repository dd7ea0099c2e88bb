/-
What the readers of texts and names make of the bytes of a byte string.

Nothing is repaired: the bytes are the encoding of the text that is read, so writing that text gives
the same bytes again, or else there is no text at all.  Then the fault is the only one that explains
the bytes.
-/
import Mandate.Proofs.Format.ByteStrings
import Mandate.Proofs.Utf8.Forms
import Mathlib

namespace Mandate

open Wire

variable {content bs rest : Bytes}

namespace Format

theorem IsByteString.decoder_eq_iff {f : Format} (hf : f.IsByteString)
    (h : decodeByteString bs = (.ok content, rest)) {outcome : Except f.Error f.Value} :
    f.decoder bs = (outcome, rest) ↔ (f.decoder bs).1 = outcome :=
  ⟨congrArg Prod.fst, fun hread => Prod.ext hread ((hf.rest_eq bs).trans (congrArg Prod.snd h))⟩

theorem IsByteString.decode_eq {f : Format} (hf : f.IsByteString)
    (h : decodeByteString bs = (.ok content, [])) : f.decode bs = (f.decoder bs).1 :=
  Decoder.whole_of_nil ((hf.rest_eq bs).trans (congrArg Prod.snd h))

theorem text_eq_ok_iff (h : decodeByteString bs = (.ok content, rest)) {s : String} :
    text.decoder bs = (.ok s, rest) ↔ content = Utf8.encode s :=
  (IsByteString.text.decoder_eq_iff h).trans (decodeText_eq_ok_iff h)

theorem name_eq_ok_iff (h : decodeByteString bs = (.ok content, rest)) {s : String} :
    name.decoder bs = (.ok (⟨s⟩ : Name), rest) ↔ content = Utf8.encode s :=
  (IsByteString.name.decoder_eq_iff h).trans (Name.decoder_eq_ok_iff h)

theorem text_of_fault (h : decodeByteString bs = (.ok content, rest)) {f : Utf8.Fault}
    (hf : Utf8.decode content = .error f) :
    text.decoder bs = (.error (WireError.illFormedText f), rest) := by
  show decodeText bs = _
  rw [decodeText_of_ok h, hf]
  rfl

theorem name_of_fault (h : decodeByteString bs = (.ok content, rest)) {f : Utf8.Fault}
    (hf : Utf8.decode content = .error f) :
    name.decoder bs = (.error (IdentityError.wire (.illFormedText f)), rest) := by
  show Name.decoder bs = _
  rw [Name.decoder_of_ok h, hf]
  rfl

/-- The content of a byte string, read as a text or as a name.  It is read as a text exactly if it
is the encoding of that text, and a byte string that is the whole input is a record.  Any other
content is refused with the one fault that explains it.  In particular a form of a code point that
is no encoding is refused where it starts, and the other forms are encodings. -/
theorem text_readers_exact (h : raw.decoder bs = (.ok content, rest)) :
    (∀ s : String,
      (text.decoder bs = (.ok s, rest) ↔ content = Utf8.encode s) ∧
      (name.decoder bs = (.ok (⟨s⟩ : Name), rest) ↔ content = Utf8.encode s) ∧
      (content = Utf8.encode s →
        text.encode s = raw.encode content ∧ name.encode (⟨s⟩ : Name) = raw.encode content)) ∧
    ((∀ s, content ≠ Utf8.encode s) → ∃ fault,
      (∀ f : Utf8.Fault, f.Explains content ↔ f = fault) ∧
      text.decoder bs = (.error (WireError.illFormedText fault), rest) ∧
      name.decoder bs = (.error (IdentityError.wire (.illFormedText fault)), rest)) ∧
    (∀ s more n tail, more ≤ 5 → n < Utf8.room more →
      content = Utf8.encode s ++ Utf8.form more n ++ tail →
      (Utf8.Forbidden more n →
        text.decoder bs =
            (.error (WireError.illFormedText ⟨(Utf8.encode s).length, some 1⟩), rest) ∧
          name.decoder bs =
            (.error (IdentityError.wire (.illFormedText ⟨(Utf8.encode s).length, some 1⟩)), rest)) ∧
      (¬ Utf8.Forbidden more n →
        ∃ c : Char, c.toNat = n ∧ String.utf8EncodeChar c = Utf8.form more n)) ∧
    (rest = [] →
      text.decode bs = (text.decoder bs).1 ∧ name.decode bs = (name.decoder bs).1) := by
  have hread : decodeByteString bs = (.ok content, rest) := h
  refine ⟨fun s => ⟨text_eq_ok_iff hread, name_eq_ok_iff hread, ?_⟩, fun hnone => ?_,
    fun s more n tail hmore hroom hcontent => ⟨fun hforbidden => ?_, ?_⟩, fun hrest => ?_⟩
  · rintro rfl
    exact ⟨rfl, rfl⟩
  · obtain ⟨fault, hfault, -⟩ := Utf8.exists_explains hnone
    refine ⟨fault, fun f => ?_, text_of_fault hread hfault, name_of_fault hread hfault⟩
    rw [Utf8.explains_iff hnone, hfault]
    exact ⟨fun heq => (Except.error.inj heq).symm, fun heq => by rw [heq]⟩
  · have hfault := Utf8.decode_form hmore hroom hforbidden s tail
    rw [← hcontent] at hfault
    exact ⟨text_of_fault hread hfault, name_of_fault hread hfault⟩
  · exact Utf8.exists_encode_eq_form hroom
  · subst hrest
    exact ⟨IsByteString.text.decode_eq hread, IsByteString.name.decode_eq hread⟩

/-- A surrogate behind a letter, in a byte string with another byte behind it. -/
theorem text_readers_exact_surrogate :
    raw.decoder [4, 0x61, 0xED, 0xA0, 0x80, 9] = (.ok ([0x61, 0xED, 0xA0, 0x80] : Bytes), [9]) ∧
      2 ≤ 5 ∧ 0xD800 < Utf8.room 2 ∧
      ([0x61, 0xED, 0xA0, 0x80] : Bytes) = Utf8.encode "a" ++ Utf8.form 2 0xD800 ++ [] ∧
      Utf8.Forbidden 2 0xD800 ∧
      text.decoder [4, 0x61, 0xED, 0xA0, 0x80, 9] =
        (.error (WireError.illFormedText ⟨1, some 1⟩), [9]) ∧
      name.decoder [4, 0x61, 0xED, 0xA0, 0x80, 9] =
        (.error (IdentityError.wire (.illFormedText ⟨1, some 1⟩)), [9]) := by
  have there : raw.decoder [4, 0x61, 0xED, 0xA0, 0x80, 9] =
      (.ok ([0x61, 0xED, 0xA0, 0x80] : Bytes), [9]) := by cbv
  have hroom : 0xD800 < Utf8.room 2 := by decide
  have hcontent : ([0x61, 0xED, 0xA0, 0x80] : Bytes) =
      Utf8.encode "a" ++ Utf8.form 2 0xD800 ++ [] := by cbv
  have hforbidden : Utf8.Forbidden 2 0xD800 := .surrogate (by decide) (by decide)
  have hlen : (Utf8.encode "a").length = 1 := by cbv
  obtain ⟨-, -, forms, -⟩ := text_readers_exact there
  have hrefused := (forms "a" 2 0xD800 [] (by decide) hroom hcontent).1 hforbidden
  rw [hlen] at hrefused
  exact ⟨there, by decide, hroom, hcontent, hforbidden, hrefused⟩

end Format
end Mandate
