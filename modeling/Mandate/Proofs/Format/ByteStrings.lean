/-
The readers of byte strings.

Texts, names, keys and byte strings of a fixed length are byte strings whose content has to meet a
condition, and a sequence of bytes is a byte string that is read one byte at a time.  On any input they
all stop at the same byte.  The ones with a condition look at the content when all of it has been read,
so they complain of a content only if it is there, and a content that they refuse is gone like one that
they accept.
-/
import Mandate.Proofs.Decoder.Reads
import Mandate.Proofs.Length.Outcome
import Mandate.Proofs.Utf8.Exact
import Mandate.Session

namespace Mandate

/-- The formats whose reader is that of byte strings, with or without a condition on the content. -/
inductive Format.IsByteString : Format → Prop
  | raw : IsByteString raw
  | text : IsByteString text
  | fixed (n : Nat) : IsByteString (fixed n)
  | name : IsByteString name
  | key (k : KeyKind) : IsByteString (key k)

/-- The same error with `field` for the kind of field in which the input has ended. -/
def WireError.cutOffIn (field : Field) : WireError → WireError
  | cutOff _ => cutOff field
  | e => e

theorem Utf8.decode_eq_error_iff {content : Bytes} :
    (∃ fault, decode content = .error fault) ↔ ∀ s, content ≠ encode s := by
  constructor
  · intro h s hs
    obtain ⟨fault, hfault⟩ := h
    rw [decode_eq_ok_iff.mpr hs] at hfault
    cases hfault
  · intro h
    cases hd : decode content with
    | error fault => exact ⟨fault, rfl⟩
    | ok s => exact absurd (decode_eq_ok_iff.mp hd) (h s)

namespace Wire

/-! ## In one go and byte by byte -/

theorem take_eq (n : Nat) (field : Field) (bs : Bytes) :
    take n field bs =
      if n ≤ bs.length then (.ok (bs.take n), bs.drop n) else (.error (.cutOff field), []) := by
  have hlen : (bs.take n).length = n ↔ n ≤ bs.length := by
    rw [List.length_take]
    omega
  simp only [take, hlen]

/-- Reading `n` bytes one at a time is reading them in one go, except that what is cut off is then a
field of one byte. -/
theorem replicate_decodeByte (n : Nat) : decodeByte.replicate n = take n .fixedWidth := by
  funext bs
  rw [take_eq]
  induction n generalizing bs with
  | zero => rfl
  | succ n ih =>
    cases bs with
    | nil => rfl
    | cons b bs =>
      have step : decodeByte.replicate (n + 1) (b :: bs) =
          ((decodeByte.replicate n).bind fun as => .pure (b :: as)) bs := Decoder.bind_ok rfl
      rw [step, List.take_succ_cons, List.drop_succ_cons]
      by_cases h : n ≤ bs.length
      · have hrest : decodeByte.replicate n bs = (.ok (bs.take n), bs.drop n) := by
          rw [ih, if_pos h]
        rw [Decoder.bind_ok hrest, if_pos (show n + 1 ≤ (b :: bs).length from Nat.succ_le_succ h),
          Decoder.pure]
      · have hrest : decodeByte.replicate n bs = (.error (.cutOff .fixedWidth), []) := by
          rw [ih, if_neg h]
        rw [Decoder.bind_error hrest, if_neg (by simpa using h)]

theorem decodeByteString_of_length {bs mid : Bytes} {n : Nat}
    (h : Length.decode bs = (.ok n, mid)) :
    decodeByteString bs =
      if n ≤ mid.length then (.ok (mid.take n), mid.drop n)
      else (.error (.cutOff .byteString), []) := by
  rw [decodeByteString, Decoder.bind_ok h, take_eq]

theorem decodeByteString_of_noLength {bs mid : Bytes} {e : WireError}
    (h : Length.decode bs = (.error e, mid)) : decodeByteString bs = (.error e, mid) :=
  Decoder.bind_error h

theorem decodeByteString_error {bs rest : Bytes} {e : WireError}
    (h : decodeByteString bs = (.error e, rest)) :
    e = .lengthCutOff ∨ e = .lengthOverflow ∨ e = .cutOff .byteString := by
  rcases hl : Length.decode bs with ⟨e' | n, mid⟩
  · rw [decodeByteString_of_noLength hl] at h
    cases h
    rcases Length.eq_of_decode_error hl with rfl | rfl
    · exact Or.inl rfl
    · exact Or.inr (Or.inl rfl)
  · rw [decodeByteString_of_length hl] at h
    split at h
    · cases h
    · cases h
      exact Or.inr (Or.inr rfl)

theorem decodeSeq_decodeByte (bs : Bytes) :
    decodeSeq id decodeByte bs =
      ((decodeByteString bs).1.mapError (WireError.cutOffIn .fixedWidth), (decodeByteString bs).2) := by
  rw [decodeSeq]
  rcases hl : Length.decode bs with ⟨e | n, mid⟩
  · rw [Decoder.bind_error (Decoder.mapError_error hl), decodeByteString_of_noLength hl]
    rcases Length.eq_of_decode_error hl with rfl | rfl
    · rfl
    · rfl
  · rw [Decoder.bind_ok (Decoder.mapError_ok hl), decodeByteString_of_length hl,
      replicate_decodeByte, take_eq]
    by_cases h : n ≤ mid.length
    · rw [if_pos h, if_pos h]
      rfl
    · rw [if_neg h, if_neg h]
      rfl

/-! ## Conditions on the content -/

variable {content bs rest : Bytes}

theorem decodeText_of_ok (h : decodeByteString bs = (.ok content, rest)) :
    decodeText bs = ((Utf8.decode content).mapError .illFormedText, rest) :=
  Decoder.refine_ok h

theorem decodeText_eq_ok_iff (h : decodeByteString bs = (.ok content, rest)) {s : String} :
    (decodeText bs).1 = .ok s ↔ content = Utf8.encode s := by
  rw [decodeText_of_ok h, Except.mapError_eq_ok_iff, Utf8.decode_eq_ok_iff]

theorem decodeText_eq_error_iff (h : decodeByteString bs = (.ok content, rest)) :
    (∃ fault, (decodeText bs).1 = .error (.illFormedText fault)) ↔
      ∀ s, content ≠ Utf8.encode s := by
  rw [decodeText_of_ok h, ← Utf8.decode_eq_error_iff]
  refine exists_congr fun fault => ?_
  simp [Except.mapError_eq_error_iff]

theorem decodeFixed_of_ok (n : Nat) (h : decodeByteString bs = (.ok content, rest)) :
    decodeFixed n bs =
      (if hn : content.length = n then .ok ⟨content, hn⟩
        else .error (.lengthMismatch n content.length), rest) := by
  rw [decodeFixed, Decoder.refine_ok h]
  by_cases hn : content.length = n
  · simp only [FixedBytes.ofBytes?, dif_pos hn]
  · simp only [FixedBytes.ofBytes?, dif_neg hn]

end Wire

open Wire

variable {content bs rest : Bytes}

theorem Name.decoder_of_ok (h : decodeByteString bs = (.ok content, rest)) :
    Name.decoder bs =
      (((Utf8.decode content).mapError fun fault => .wire (.illFormedText fault)).map Name.mk,
        rest) := by
  have htext := decodeText_of_ok h
  cases hd : Utf8.decode content with
  | error fault =>
    rw [hd] at htext
    exact Decoder.refine_error (Decoder.mapError_error htext)
  | ok s =>
    rw [hd] at htext
    exact Decoder.refine_ok (Decoder.mapError_ok htext)

theorem Name.decoder_eq_ok_iff (h : decodeByteString bs = (.ok content, rest)) {s : String} :
    (Name.decoder bs).1 = .ok ⟨s⟩ ↔ content = Utf8.encode s := by
  rw [decoder_of_ok h, Except.map_eq_ok_iff, ← Utf8.decode_eq_ok_iff]
  simp [Except.mapError_eq_ok_iff]

theorem Name.decoder_eq_error_iff (h : decodeByteString bs = (.ok content, rest)) :
    (∃ fault, (Name.decoder bs).1 = .error (.wire (.illFormedText fault))) ↔
      ∀ s, content ≠ Utf8.encode s := by
  rw [decoder_of_ok h, ← Utf8.decode_eq_error_iff]
  refine exists_congr fun fault => ?_
  simp [Except.map_eq_error_iff, Except.mapError_eq_error_iff]

theorem Key.decoder_of_ok (k : KeyKind) (h : decodeByteString bs = (.ok content, rest)) :
    Key.decoder k bs =
      (if hk : content.length = k.length then .ok ⟨content, hk⟩
        else .error (.invalidLength k content.length), rest) := by
  rw [Key.decoder, Decoder.refine_ok (Decoder.mapError_ok h)]
  by_cases hk : content.length = k.length
  · simp only [Key.ofBytes, FixedBytes.ofBytes?, dif_pos hk]
  · simp only [Key.ofBytes, FixedBytes.ofBytes?, dif_neg hk]

namespace Format

/-- Where the bytes are not all there, no condition is looked at. -/
theorem IsByteString.decoder_of_error {f : Format} (hf : f.IsByteString) {e : WireError}
    (h : decodeByteString bs = (.error e, rest)) :
    f.decoder bs = (.error (f.layer.ofWire e), rest) := by
  cases hf with
  | raw => exact h
  | text => exact Decoder.refine_error h
  | fixed n => exact Decoder.refine_error h
  | name => exact Decoder.refine_error (Decoder.mapError_error (Decoder.refine_error h))
  | key k => exact Decoder.refine_error (Decoder.mapError_error h)

theorem IsByteString.rest_eq {f : Format} (hf : f.IsByteString) (bs : Bytes) :
    (f.decoder bs).2 = (decodeByteString bs).2 := by
  rcases h : decodeByteString bs with ⟨e | content, rest⟩
  · rw [hf.decoder_of_error h]
  · cases hf with
    | raw => exact congrArg Prod.snd h
    | text => exact congrArg Prod.snd (decodeText_of_ok h)
    | fixed n => exact congrArg Prod.snd (decodeFixed_of_ok n h)
    | name => exact congrArg Prod.snd (Name.decoder_of_ok h)
    | key k => exact congrArg Prod.snd (Key.decoder_of_ok k h)

/-- The readers of byte strings on one input.  All of them stop where the plain one does, which takes
as many bytes as the length says, or all that there are if there are fewer.  Reading byte by byte comes
to the same, up to what is said to be cut off.  If the length or some of the bytes are missing, all of
them report that and nothing else.  Otherwise a condition on the content decides, and nothing else
does. -/
theorem byteString_readers_agree (bs : Bytes) :
    (raw.decoder bs =
      match Length.decode bs with
      | (.ok n, mid) =>
        if n ≤ mid.length then (.ok (mid.take n), mid.drop n)
        else (.error (.cutOff .byteString), [])
      | (.error e, mid) => (.error e, mid)) ∧
    Session.Item.bytes.decoder bs = raw.decoder bs ∧
    (seq byte).decoder bs =
      ((raw.decoder bs).1.mapError (WireError.cutOffIn .fixedWidth), (raw.decoder bs).2) ∧
    (∀ f : Format, f.IsByteString → (f.decoder bs).2 = (raw.decoder bs).2) ∧
    (∀ e : WireError, (raw.decoder bs).1 = .error e →
      (e = .lengthCutOff ∨ e = .lengthOverflow ∨ e = .cutOff .byteString) ∧
      ∀ f : Format, f.IsByteString → (f.decoder bs).1 = .error (f.layer.ofWire e)) ∧
    ∀ content : Bytes, (raw.decoder bs).1 = .ok content →
      (∀ s : String, (text.decoder bs).1 = .ok s ↔ content = Utf8.encode s) ∧
      ((∃ fault, (text.decoder bs).1 = .error (WireError.illFormedText fault)) ↔
        ∀ s, content ≠ Utf8.encode s) ∧
      (∀ s : String, (name.decoder bs).1 = .ok (⟨s⟩ : Name) ↔ content = Utf8.encode s) ∧
      ((∃ fault, (name.decoder bs).1 = .error (IdentityError.wire (.illFormedText fault))) ↔
        ∀ s, content ≠ Utf8.encode s) ∧
      (∀ n, ((fixed n).decoder bs).1 =
        if hn : content.length = n then .ok (⟨content, hn⟩ : FixedBytes n)
        else .error (WireError.lengthMismatch n content.length)) ∧
      ∀ k : KeyKind, ((key k).decoder bs).1 =
        if hk : content.length = k.length then .ok (⟨content, hk⟩ : Key k)
        else .error (IdentityError.invalidLength k content.length) := by
  refine ⟨?_, rfl, decodeSeq_decodeByte bs, fun f hf => hf.rest_eq bs, fun e he => ?_,
    fun content hcontent => ?_⟩
  · rcases hl : Length.decode bs with ⟨e | n, mid⟩
    · exact decodeByteString_of_noLength hl
    · exact decodeByteString_of_length hl
  · have hread : decodeByteString bs = (.error e, (decodeByteString bs).2) := Prod.ext he rfl
    refine ⟨decodeByteString_error hread, fun f hf => ?_⟩
    rw [hf.decoder_of_error hread]
  · have hread : decodeByteString bs = (.ok content, (decodeByteString bs).2) :=
      Prod.ext hcontent rfl
    exact ⟨fun s => decodeText_eq_ok_iff hread, decodeText_eq_error_iff hread,
      fun s => Name.decoder_eq_ok_iff hread, Name.decoder_eq_error_iff hread,
      fun n => congrArg Prod.fst (decodeFixed_of_ok n hread),
      fun k => congrArg Prod.fst (Key.decoder_of_ok k hread)⟩

/-- Two bytes that are there, in front of another, and three of which one is missing. -/
theorem byteString_readers_agree_address :
    raw.decoder [2, 97, 98, 9] = (.ok ([97, 98] : Bytes), [9]) ∧
      (key .address).decoder [2, 97, 98, 9] =
        (.error (IdentityError.invalidLength .address 2), [9]) ∧
      raw.decoder [3, 97, 98] = (.error (WireError.cutOff .byteString), []) ∧
      (key .address).decoder [3, 97, 98] =
        (.error (IdentityError.wire (.cutOff .byteString)), []) := by
  have there : raw.decoder [2, 97, 98, 9] = (.ok ([97, 98] : Bytes), [9]) := by cbv
  have missing : raw.decoder [3, 97, 98] = (.error (WireError.cutOff .byteString), []) := by cbv
  obtain ⟨-, -, -, rest, -, content⟩ := byteString_readers_agree [2, 97, 98, 9]
  obtain ⟨-, -, -, rest', error, -⟩ := byteString_readers_agree [3, 97, 98]
  refine ⟨there, Prod.ext ?_ ?_, missing, Prod.ext ?_ ?_⟩
  · exact (content _ (congrArg Prod.fst there)).2.2.2.2.2 .address
  · exact (rest _ (.key .address)).trans (congrArg Prod.snd there)
  · exact (error _ (congrArg Prod.fst missing)).2 _ (.key .address)
  · exact (rest' _ (.key .address)).trans (congrArg Prod.snd missing)

end Format
end Mandate
