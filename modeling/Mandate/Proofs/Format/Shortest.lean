/-
Of all the records of a value, the one that is written is the shortest.

`NoLonger a b` compares byte strings in the way that carries over from the parts of a record to the
whole: `a` is `b`, or it is shorter.  The one place that needs more than that is a byte string whose
content has shrunk, because its length then changes too; but the length of a shorter content never
takes more bytes.
-/
import Mandate.Proofs.Format.RoundTrip
import Mathlib

namespace Mandate

/-- `a` is `b` or shorter, so that equal lengths mean equal bytes. -/
def Bytes.NoLonger (a b : Bytes) : Prop :=
  a = b ∨ a.length < b.length

namespace Bytes.NoLonger

variable {a b c d : Bytes}

theorem refl (a : Bytes) : NoLonger a a :=
  Or.inl rfl

theorem length_le (h : NoLonger a b) : a.length ≤ b.length := by
  rcases h with rfl | h
  · exact Nat.le_refl _
  · exact Nat.le_of_lt h

theorem eq_of_length_eq (h : NoLonger a b) (hlen : a.length = b.length) : a = b := by
  rcases h with rfl | h
  · rfl
  · omega

theorem append (h : NoLonger a b) (h' : NoLonger c d) : NoLonger (a ++ c) (b ++ d) := by
  rcases h with rfl | h
  · rcases h' with rfl | h'
    · exact refl _
    · refine Or.inr ?_
      simp only [List.length_append]
      omega
  · refine Or.inr ?_
    have := h'.length_le
    simp only [List.length_append]
    omega

end Bytes.NoLonger

open Bytes

/-! ## The parts of a record -/

theorem Length.encode_noLonger {n : Nat} {form : Bytes} (h : Form n form) :
    NoLonger (encode n) form := by
  obtain ⟨hle, heq⟩ := h.digits.shortest
  rcases Nat.lt_or_eq_of_le hle with hlt | hlen
  · exact Or.inr hlt
  · exact Or.inl (heq hlen)

namespace Wire

theorem encodeByteString_noLonger {content content' bs : Bytes} (h : NoLonger content content')
    (hs : SpellsByteString content' bs) : NoLonger (encodeByteString content) bs := by
  obtain ⟨form, hform, rfl⟩ := hs
  have hlen := (Length.encode_noLonger hform).length_le
  rcases h with rfl | h
  · exact (Length.encode_noLonger hform).append (.refl content)
  · -- The two lengths are different numbers here, so their forms are only compared in size.
    have hmono := Length.length_encode_mono (Nat.le_of_lt h)
    refine Or.inr ?_
    simp only [encodeByteString, List.length_append]
    omega

theorem encodeSeq_noLonger {α : Type} {spells : α → Bytes → Prop} {encode : α → Bytes}
    {as : List α} {bs : Bytes} (h : ∀ a bs, spells a bs → NoLonger (encode a) bs)
    (hs : SpellsSeq spells as bs) : NoLonger (encodeSeq encode as) bs := by
  obtain ⟨form, parts, hform, hparts, rfl⟩ := hs
  refine (Length.encode_noLonger hform).append ?_
  clear hform
  induction hparts with
  | nil => exact .refl []
  | cons ha _ ih => exact (h _ _ ha).append ih

end Wire

/-! ## Records -/

theorem Envelope.encode_noLonger {e e' : Envelope} {bs : Bytes} (hs : e'.Spells bs)
    (htag : e.tag = e'.tag) (hpayload : NoLonger e.payload e'.payload)
    (hweight : e.weight = e'.weight) : NoLonger e.encode bs := by
  obtain ⟨payload, hp, rfl⟩ := hs
  rw [Envelope.encode, htag, hweight]
  exact (NoLonger.append (.refl _) (Wire.encodeByteString_noLonger hpayload hp)).append (.refl _)

theorem Owner.payload_noLonger {o : Owner} {bs : Bytes} (hs : o.SpellsPayload bs) :
    NoLonger o.payload bs := by
  rw [payload_eq]
  exact Wire.encodeByteString_noLonger (.refl _) hs

theorem Author.encode_noLonger {a : Author} {bs : Bytes} (hs : a.Spells bs) :
    NoLonger a.encode bs := by
  obtain ⟨payload, hp, hs⟩ := hs
  exact Envelope.encode_noLonger hs rfl (Owner.payload_noLonger hp) rfl

theorem Action.encode_noLonger {a : Action} {bs : Bytes} (hs : a.Spells bs) :
    NoLonger a.encode bs := by
  obtain ⟨author, ha, rfl⟩ := hs
  exact (NoLonger.refl _).append (Author.encode_noLonger ha)

theorem Batch.encode_noLonger {b : Batch} {bs : Bytes} (hs : b.Spells bs) :
    NoLonger b.encode bs := by
  obtain ⟨actions, ha, rfl⟩ := hs
  exact (NoLonger.refl _).append (Wire.encodeSeq_noLonger (fun _ _ => Action.encode_noLonger) ha)

namespace Format

theorem encode_noLonger (f : Format) {v : f.Value} {bs : Bytes} (hs : f.Spells v bs) :
    NoLonger (f.encode v) bs := by
  induction f generalizing bs with
  | byte => exact Or.inl hs.symm
  | word => exact Or.inl hs.symm
  | text => exact Wire.encodeByteString_noLonger (.refl _) hs
  | raw => exact Wire.encodeByteString_noLonger (.refl _) hs
  | fixed n => exact Wire.encodeByteString_noLonger (.refl _) hs
  | name => exact Wire.encodeByteString_noLonger (.refl _) hs
  | key k => exact Wire.encodeByteString_noLonger (.refl _) hs
  | envelope => exact Envelope.encode_noLonger hs rfl (.refl _) rfl
  | author => exact Author.encode_noLonger hs
  | actionKind => exact Or.inl hs.symm
  | action => exact Action.encode_noLonger hs
  | batch => exact Batch.encode_noLonger hs
  | seq element ih => exact Wire.encodeSeq_noLonger (fun _ _ => ih) hs

end Format

/-! ## What has a record fits -/

theorem Wire.SpellsByteString.length_lt {content bs : Bytes}
    (h : Wire.SpellsByteString content bs) : content.length < 2 ^ 64 := by
  obtain ⟨form, hform, -⟩ := h
  exact hform.lt (Nat.zero_le 9)

theorem Wire.SpellsSeq.fits {α : Type} {spells : α → Bytes → Prop} {fits : α → Prop}
    {as : List α} {bs : Bytes} (h : ∀ a bs, spells a bs → fits a)
    (hs : Wire.SpellsSeq spells as bs) : as.length < 2 ^ 64 ∧ ∀ a ∈ as, fits a := by
  obtain ⟨form, parts, hform, hparts, -⟩ := hs
  refine ⟨hform.lt (Nat.zero_le 9), ?_⟩
  clear hform
  induction hparts with
  | nil => simp
  | cons ha _ ih => exact List.forall_mem_cons.mpr ⟨h _ _ ha, ih⟩

theorem Author.fits_of_spells {a : Author} {bs : Bytes} (hs : a.Spells bs) : a.Fits := by
  obtain ⟨payload, hp, outer, houter, -⟩ := hs
  exact Nat.lt_of_le_of_lt (Owner.payload_noLonger hp).length_le houter.length_lt

theorem Action.fits_of_spells {a : Action} {bs : Bytes} (hs : a.Spells bs) : a.author.Fits := by
  obtain ⟨author, ha, -⟩ := hs
  exact Author.fits_of_spells ha

namespace Format

theorem fits_of_spells (f : Format) {v : f.Value} {bs : Bytes} (hs : f.Spells v bs) :
    f.Fits v := by
  induction f generalizing bs with
  | byte => trivial
  | word => trivial
  | text => exact hs.length_lt
  | raw => exact hs.length_lt
  | fixed n =>
    obtain ⟨bytes, hlen⟩ := v
    have hlt : bytes.length < 2 ^ 64 := Wire.SpellsByteString.length_lt hs
    exact hlen ▸ hlt
  | name => exact hs.length_lt
  | key k => trivial
  | envelope =>
    obtain ⟨payload, hp, -⟩ := hs
    exact hp.length_lt
  | author => exact Author.fits_of_spells hs
  | actionKind => trivial
  | action => exact Action.fits_of_spells hs
  | batch =>
    obtain ⟨actions, ha, -⟩ := hs
    exact ha.fits fun _ _ => Action.fits_of_spells
  | seq element ih => exact hs.fits fun _ _ => ih

theorem decode_encode_iff (f : Format) {v : f.Value} :
    f.decode (f.encode v) = .ok v ↔ f.Fits v := by
  constructor
  · intro h
    exact f.fits_of_spells (f.decoder_reads.whole.mp h)
  · intro h
    exact f.decoder_reads.whole.mpr (f.spells_encode h)

/-! ## Decoding and encoding again -/

/-- Decoding a record and encoding its value never makes it longer, and leaves alone those records
that are as short as they can be, which are the ones that are written.  Encoding the value is a
record of it as well, so doing it twice is no more than doing it once.  The payload of an envelope
shrinks in the same way when an author is taken out of it and put back. -/
theorem encode_shortest :
    (∀ (f : Format) (bs : Bytes) (v : f.Value), f.decode bs = .ok v →
      (f.encode v).length ≤ bs.length ∧
      ((f.encode v).length = bs.length → f.encode v = bs) ∧
      f.decode (f.encode v) = .ok v ∧
      (f.encode v = bs ↔ ∃ w, f.Fits w ∧ f.encode w = bs)) ∧
    ∀ (e : Envelope) (a : Author), Author.ofEnvelope e = .ok a →
      a.toEnvelope.tag = e.tag ∧ a.toEnvelope.weight = e.weight ∧
      a.toEnvelope.payload.length ≤ e.payload.length ∧
      (a.toEnvelope.payload.length = e.payload.length → a.toEnvelope.payload = e.payload) := by
  constructor
  · intro f bs v hv
    have hs : f.Spells v bs := f.decoder_reads.whole.mp hv
    have hfits : f.Fits v := f.fits_of_spells hs
    have hshort := f.encode_noLonger hs
    have hagain (w : f.Value) (hw : f.Fits w) : f.decode (f.encode w) = .ok w :=
      f.decoder_reads.whole.mpr (f.spells_encode hw)
    refine ⟨hshort.length_le, hshort.eq_of_length_eq, hagain v hfits, fun h => ⟨v, hfits, h⟩, ?_⟩
    intro h
    obtain ⟨w, hw, rfl⟩ := h
    rw [hagain w hw] at hv
    cases hv
    rfl
  · intro e a ha
    obtain ⟨htag, hp, hweight⟩ := Author.ofEnvelope_eq_ok_iff.mp ha
    have hshort := Owner.payload_noLonger hp
    exact ⟨htag.symm, hweight.symm, hshort.length_le, hshort.eq_of_length_eq⟩

/-- A name of two letters, with both lengths padded. -/
theorem encode_shortest_padded :
    author.decode [0, 0x84, 0, 0x82, 0, 97, 98, 0, 0, 0, 0, 0, 0, 0, 1] =
        .ok ⟨.name ⟨"ab"⟩, 1⟩ ∧
      (author.encode ⟨.name ⟨"ab"⟩, 1⟩).length ≤ 15 ∧
      author.decode (author.encode ⟨.name ⟨"ab"⟩, 1⟩) = .ok ⟨.name ⟨"ab"⟩, 1⟩ ∧
      Author.ofEnvelope ⟨0, [0x82, 0, 97, 98], 1⟩ = .ok ⟨.name ⟨"ab"⟩, 1⟩ ∧
      (Owner.payload (.name ⟨"ab"⟩)).length ≤ 4 := by
  have padded : author.decode [0, 0x84, 0, 0x82, 0, 97, 98, 0, 0, 0, 0, 0, 0, 0, 1] =
      .ok ⟨.name ⟨"ab"⟩, 1⟩ := by cbv
  have opened : Author.ofEnvelope ⟨0, [0x82, 0, 97, 98], 1⟩ = .ok ⟨.name ⟨"ab"⟩, 1⟩ := by cbv
  obtain ⟨shorter, -, again, -⟩ := encode_shortest.1 author _ _ padded
  obtain ⟨-, -, payload, -⟩ := encode_shortest.2 _ _ opened
  exact ⟨padded, shorter, again, opened, payload⟩

end Format

end Mandate
