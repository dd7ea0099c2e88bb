/-
Reading undoes writing, in a stream.

Everything here is about values whose lengths and counts fit in 64 bits, because a length of more
has no form.  For those, and for no others, there is a record at all, and the one that is written
is among them.
-/
import Mandate.Proofs.Format.Spelling

namespace Mandate

/-- Whether the payload of an author's owner has a length that can be written.  The content of the
owner is a part of it. -/
def Author.Fits (a : Author) : Prop :=
  a.owner.payload.length < 2 ^ 64

namespace Format

/-- Whether all the lengths and counts in the record of a value fit in 64 bits. -/
def Fits : (f : Format) → f.Value → Prop
  | byte => fun _ => True
  | word => fun _ => True
  | text => fun s => (Utf8.encode s).length < 2 ^ 64
  | raw => fun (bs : Bytes) => bs.length < 2 ^ 64
  | fixed n => fun _ => n < 2 ^ 64
  | name => fun (n : Name) => n.byteLength < 2 ^ 64
  | key _ => fun _ => True
  | envelope => fun (e : Envelope) => e.payload.length < 2 ^ 64
  | author => Author.Fits
  | actionKind => fun _ => True
  | action => fun (a : Action) => a.author.Fits
  | batch => fun (b : Batch) => b.actions.length < 2 ^ 64 ∧ ∀ a ∈ b.actions, a.author.Fits
  | seq element => fun (vs : List element.Value) =>
    vs.length < 2 ^ 64 ∧ ∀ v ∈ vs, element.Fits v

end Format

/-! ## What is written is a spelling -/

namespace Wire

theorem spells_encodeByteString {content : Bytes} (h : content.length < 2 ^ 64) :
    SpellsByteString content (encodeByteString content) :=
  ⟨_, Length.form_encode h, rfl⟩

theorem spells_each {α : Type} {spells : α → Bytes → Prop} {encode : α → Bytes} {as : List α}
    (hs : ∀ a ∈ as, spells a (encode a)) : List.Forall₂ spells as (as.map encode) := by
  rw [List.forall₂_map_right_iff, List.forall₂_same]
  exact hs

theorem spells_encodeSeq {α : Type} {spells : α → Bytes → Prop} {encode : α → Bytes}
    {as : List α} (h : as.length < 2 ^ 64) (hs : ∀ a ∈ as, spells a (encode a)) :
    SpellsSeq spells as (encodeSeq encode as) := by
  refine ⟨_, as.map encode, Length.form_encode h, spells_each hs, ?_⟩
  rw [encodeSeq, List.flatMap_def]

end Wire

theorem Owner.payload_eq (o : Owner) : o.payload = Wire.encodeByteString o.content := by
  cases o <;> rfl

theorem Owner.length_content_le (o : Owner) : o.content.length ≤ o.payload.length := by
  rw [payload_eq, Wire.encodeByteString, List.length_append]
  omega

theorem Envelope.spells_encode {e : Envelope} (h : e.payload.length < 2 ^ 64) :
    e.Spells e.encode :=
  ⟨_, Wire.spells_encodeByteString h, rfl⟩

theorem Author.spells_encode {a : Author} (h : a.Fits) : a.Spells a.encode := by
  refine ⟨a.owner.payload, ?_, Envelope.spells_encode h⟩
  rw [Owner.payload_eq]
  exact Wire.spells_encodeByteString (Nat.lt_of_le_of_lt a.owner.length_content_le h)

theorem Action.spells_encode {a : Action} (h : a.author.Fits) : a.Spells a.encode :=
  ⟨_, Author.spells_encode h, rfl⟩

theorem Batch.spells_encode {b : Batch} (hlen : b.actions.length < 2 ^ 64)
    (h : ∀ a ∈ b.actions, a.author.Fits) : b.Spells b.encode :=
  ⟨_, Wire.spells_encodeSeq hlen fun a ha => Action.spells_encode (h a ha), rfl⟩

namespace Format

theorem spells_encode (f : Format) {v : f.Value} (h : f.Fits v) : f.Spells v (f.encode v) := by
  induction f with
  | byte => rfl
  | word => rfl
  | text => exact Wire.spells_encodeByteString h
  | raw => exact Wire.spells_encodeByteString h
  | fixed n =>
    obtain ⟨bytes, hlen⟩ := v
    exact Wire.spells_encodeByteString (hlen ▸ h)
  | name => exact Wire.spells_encodeByteString h
  | key k =>
    obtain ⟨bytes, hlen⟩ := v
    refine Wire.spells_encodeByteString ?_
    rw [hlen]
    cases k <;> decide
  | envelope => exact Envelope.spells_encode h
  | author => exact Author.spells_encode h
  | actionKind => rfl
  | action => exact Action.spells_encode h
  | batch => exact Batch.spells_encode h.1 h.2
  | seq element ih => exact Wire.spells_encodeSeq h.1 fun v hv => ih (h.2 v hv)

theorem decoder_encode (f : Format) {v : f.Value} (h : f.Fits v) (s : Bytes) :
    f.decoder (f.encode v ++ s) = (.ok v, s) :=
  f.decoder_reads.append (f.spells_encode h) s

/-- The round trip of every format: in a stream, alone, and with bytes behind it that do not belong
there. -/
theorem decode_encode_append (f : Format) (v : f.Value) (h : f.Fits v) (s : Bytes) :
    f.decoder (f.encode v ++ s) = (.ok v, s) ∧
      f.decode (f.encode v) = .ok v ∧
      (s ≠ [] →
        f.decode (f.encode v ++ s) = .error (f.layer.ofWire (.trailing s.length))) := by
  refine ⟨f.decoder_encode h s, ?_, fun hs => ?_⟩
  · exact f.decoder_reads.whole.mpr (f.spells_encode h)
  · exact Decoder.whole_append (f.decoder_encode h s) hs

theorem decode_encode_append_nested :
    (seq (seq author)).Fits [[⟨.name ⟨"ab"⟩, 258⟩], []] ∧
      (seq (seq author)).decoder ([2, 1, 0, 3, 2, 97, 98, 0, 0, 0, 0, 0, 0, 1, 2, 0] ++ [7]) =
        (.ok [[⟨.name ⟨"ab"⟩, 258⟩], []], [7]) ∧
      (seq (seq author)).decode [2, 1, 0, 3, 2, 97, 98, 0, 0, 0, 0, 0, 0, 1, 2, 0] =
        .ok [[⟨.name ⟨"ab"⟩, 258⟩], []] ∧
      (seq (seq author)).decode ([2, 1, 0, 3, 2, 97, 98, 0, 0, 0, 0, 0, 0, 1, 2, 0] ++ [7]) =
        .error (AuthorError.stream (.trailing 1)) := by
  have short : Author.Fits ⟨.name ⟨"ab"⟩, 258⟩ := by
    show List.length _ < 2 ^ 64
    decide +kernel
  have fits : (seq (seq author)).Fits [[⟨.name ⟨"ab"⟩, 258⟩], []] := by
    show List.length [[_], []] < 2 ^ 64 ∧
      ∀ v ∈ [[(⟨.name ⟨"ab"⟩, 258⟩ : Author)], []], v.length < 2 ^ 64 ∧ ∀ a ∈ v, a.Fits
    simp [short]
  have written : (seq (seq author)).encode [[⟨.name ⟨"ab"⟩, 258⟩], []] =
      [2, 1, 0, 3, 2, 97, 98, 0, 0, 0, 0, 0, 0, 1, 2, 0] := by cbv
  obtain ⟨stream, alone, trailing⟩ := decode_encode_append (seq (seq author)) _ fits [7]
  rw [written] at stream alone trailing
  exact ⟨fits, stream, alone, trailing (by decide)⟩

end Format

end Mandate
