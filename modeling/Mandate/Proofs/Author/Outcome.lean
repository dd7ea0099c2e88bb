/-
Which layer is to blame when an author cannot be read.

Reading an author is reading an envelope and then opening it.  Opening looks at no input, so it
cannot move the reader, and the reader of authors stops where the reader of envelopes does.  What it
reports is decided by the first of three things that is wrong: the stream around the envelope, the
tag, the payload.  The same defect, such as bytes that are left over, is an error of the stream or of
the payload according to where it is.
-/
import Mandate.Proofs.Format.RoundTrip
import Mathlib

namespace Mandate

/-! ## Payloads -/

/-- The payload is not the whole of an identity of this scheme, for this reason. -/
inductive Scheme.Refuses : Scheme → Bytes → IdentityError → Prop
  | account {bs : Bytes} {i : IdentityError} :
      Format.name.decode bs = .error i → Refuses .account bs i
  | key {k : KeyKind} {bs : Bytes} {i : IdentityError} :
      (Format.key k).decode bs = .error i → Refuses (.key k) bs i

theorem Owner.ofPayload_eq_error_iff {s : Scheme} {bs : Bytes} {err : AuthorError} :
    ofPayload s bs = .error err ↔ ∃ i, s.Refuses bs i ∧ err = .payload i := by
  unfold ofPayload
  rw [Except.mapError_eq_error_iff]
  cases s with
  | account =>
    simp only [Except.map_eq_error_iff]
    constructor
    · intro h
      obtain ⟨i, hi, rfl⟩ := h
      exact ⟨i, .account hi, rfl⟩
    · rintro ⟨i, hi, rfl⟩
      cases hi with
      | account hi => exact ⟨i, hi, rfl⟩
  | key k =>
    simp only [Except.map_eq_error_iff]
    constructor
    · intro h
      obtain ⟨i, hi, rfl⟩ := h
      exact ⟨i, .key hi, rfl⟩
    · rintro ⟨i, hi, rfl⟩
      cases hi with
      | key hi => exact ⟨i, hi, rfl⟩

/-- What follows an owner in its payload does not belong there. -/
theorem Owner.refuses_append {o : Owner} (h : o.content.length < 2 ^ 64) {junk : Bytes}
    (hjunk : junk ≠ []) : o.scheme.Refuses (o.payload ++ junk) (.wire (.trailing junk.length)) := by
  cases o with
  | name n => exact .account (Decoder.whole_append (Format.name.decoder_encode h junk) hjunk)
  | key k value =>
    exact .key (Decoder.whole_append ((Format.key k).decoder_encode trivial junk) hjunk)

/-! ## Envelopes -/

/-- Why an envelope cannot be opened: its tag is unknown, or its payload is no identity of the scheme
that the tag says. -/
inductive Envelope.Refused (e : Envelope) : AuthorError → Prop
  | tag : 2 < e.tag → Refused e (.unknownScheme e.tag)
  | payload {s : Scheme} {i : IdentityError} :
      e.tag = s.tag → s.Refuses e.payload i → Refused e (.payload i)

namespace Envelope.Refused

variable {e : Envelope}

theorem not_stream {w : WireError} : ¬ e.Refused (.stream w) := by
  intro h
  cases h

theorem unknownScheme_iff {t : UInt8} : e.Refused (.unknownScheme t) ↔ e.tag = t ∧ 2 < t := by
  constructor
  · intro h
    cases h with
    | tag htag => exact ⟨rfl, htag⟩
  · rintro ⟨rfl, htag⟩
    exact .tag htag

theorem payload_iff {i : IdentityError} :
    e.Refused (.payload i) ↔ ∃ s : Scheme, e.tag = s.tag ∧ s.Refuses e.payload i := by
  constructor
  · intro h
    cases h with
    | @payload s _ htag hi => exact ⟨s, htag, hi⟩
  · rintro ⟨s, htag, hi⟩
    exact .payload htag hi

end Envelope.Refused

namespace Author

theorem ofEnvelope_eq_error_iff {e : Envelope} {err : AuthorError} :
    ofEnvelope e = .error err ↔ e.Refused err := by
  constructor
  · intro h
    cases hs : e.scheme with
    | error err' =>
      rw [ofEnvelope, hs] at h
      cases h
      obtain ⟨htag, rfl⟩ := Scheme.ofTag_eq_error_iff.mp hs
      exact .tag htag
    | ok s =>
      rw [ofEnvelope, hs] at h
      obtain ⟨i, hi, rfl⟩ := Owner.ofPayload_eq_error_iff.mp (Except.map_eq_error_iff.mp h)
      exact .payload (Scheme.ofTag_eq_ok_iff.mp hs) hi
  · intro h
    cases h with
    | tag htag =>
      rw [ofEnvelope, Envelope.scheme, Scheme.ofTag_eq_error_iff.mpr ⟨htag, rfl⟩]
      rfl
    | @payload s i htag hi =>
      rw [ofEnvelope, Envelope.scheme, Scheme.ofTag_eq_ok_iff.mpr htag]
      exact Except.map_eq_error_iff.mpr (Owner.ofPayload_eq_error_iff.mpr ⟨i, hi, rfl⟩)

theorem ofEnvelope_toEnvelope {a : Author} (h : a.owner.content.length < 2 ^ 64) :
    ofEnvelope a.toEnvelope = .ok a := by
  refine ofEnvelope_eq_ok_iff.mpr ⟨rfl, ?_, rfl⟩
  rw [toEnvelope, Owner.payload_eq]
  exact Wire.spells_encodeByteString h

/-! ## The two stages -/

theorem decoder_of_ok {bs rest : Bytes} {e : Envelope}
    (h : Envelope.decoder bs = (.ok e, rest)) : decoder bs = (ofEnvelope e, rest) :=
  Decoder.refine_ok (Decoder.mapError_ok h)

theorem decoder_of_error {bs rest : Bytes} {w : WireError}
    (h : Envelope.decoder bs = (.error w, rest)) : decoder bs = (.error (.stream w), rest) :=
  Decoder.refine_error (Decoder.mapError_error h)

theorem decoder_encode_envelope {e : Envelope} (h : e.payload.length < 2 ^ 64) (s : Bytes) :
    decoder (e.encode ++ s) = (ofEnvelope e, s) :=
  decoder_of_ok (Format.envelope.decoder_encode h s)

/-- Bytes behind the owner in its payload are reported for the payload, whatever is behind the
envelope. -/
theorem decode_junk_inside {a : Author} {junk : Bytes} (s : Bytes) (hjunk : junk ≠ [])
    (h : (a.owner.payload ++ junk).length < 2 ^ 64) :
    Format.author.decode
        (Envelope.encode ⟨a.scheme.tag, a.owner.payload ++ junk, a.weight⟩ ++ s) =
      .error (AuthorError.payload (.wire (.trailing junk.length))) := by
  have hcontent : a.owner.content.length < 2 ^ 64 := by
    have := a.owner.length_content_le
    rw [List.length_append] at h
    omega
  have hrefused : Envelope.Refused ⟨a.scheme.tag, a.owner.payload ++ junk, a.weight⟩
      (.payload (.wire (.trailing junk.length))) :=
    .payload rfl (Owner.refuses_append hcontent hjunk)
  have hread := decoder_encode_envelope
    (e := ⟨a.scheme.tag, a.owner.payload ++ junk, a.weight⟩) h s
  rw [ofEnvelope_eq_error_iff.mpr hrefused] at hread
  exact Decoder.whole_error hread

theorem decode_junk_behind {a : Author} {s : Bytes} (hs : s ≠ [])
    (h : a.owner.payload.length < 2 ^ 64) :
    Format.author.decode (Envelope.encode ⟨a.scheme.tag, a.owner.payload, a.weight⟩ ++ s) =
      .error (AuthorError.stream (.trailing s.length)) := by
  have hcontent : a.owner.content.length < 2 ^ 64 :=
    Nat.lt_of_le_of_lt a.owner.length_content_le h
  have hread : decoder (a.toEnvelope.encode ++ s) = (.ok a, s) := by
    rw [decoder_encode_envelope h, ofEnvelope_toEnvelope hcontent]
  exact Decoder.whole_append hread hs

/-- The reader stops where the reader of envelopes does.  It reports an error of the stream, an
unknown tag or a refused payload exactly where that is the first thing wrong, and otherwise the owner
of the tagged scheme with the weight of the envelope.  So bytes that are left over in a payload are
an error of the payload, whatever comes after the envelope, and bytes that are left over after the
envelope are an error of the stream. -/
theorem decoder_outcome :
    (∀ bs : Bytes,
      (decoder bs).2 = (Envelope.decoder bs).2 ∧
      (∀ w, (decoder bs).1 = .error (.stream w) ↔ (Envelope.decoder bs).1 = .error w) ∧
      (∀ t, (decoder bs).1 = .error (.unknownScheme t) ↔
        ∃ e, (Envelope.decoder bs).1 = .ok e ∧ e.tag = t ∧ 2 < t) ∧
      (∀ i, (decoder bs).1 = .error (.payload i) ↔
        ∃ e, (Envelope.decoder bs).1 = .ok e ∧
          ∃ s : Scheme, e.tag = s.tag ∧ s.Refuses e.payload i) ∧
      (∀ a, (decoder bs).1 = .ok a ↔
        ∃ e, (Envelope.decoder bs).1 = .ok e ∧ e.tag = a.scheme.tag ∧
          a.owner.SpellsPayload e.payload ∧ e.weight = a.weight) ∧
      ((∃ w, (decoder bs).1 = .error (.stream w)) ∨
        (∃ t, (decoder bs).1 = .error (.unknownScheme t)) ∨
        (∃ i, (decoder bs).1 = .error (.payload i)) ∨ ∃ a, (decoder bs).1 = .ok a)) ∧
    ∀ (a : Author) (junk s : Bytes), (a.owner.payload ++ junk).length < 2 ^ 64 →
      (junk ≠ [] →
        Format.author.decode
            (Envelope.encode ⟨a.scheme.tag, a.owner.payload ++ junk, a.weight⟩ ++ s) =
          .error (AuthorError.payload (.wire (.trailing junk.length)))) ∧
      (junk = [] → s ≠ [] →
        Format.author.decode
            (Envelope.encode ⟨a.scheme.tag, a.owner.payload ++ junk, a.weight⟩ ++ s) =
          .error (AuthorError.stream (.trailing s.length))) := by
  constructor
  · intro bs
    rcases h : Envelope.decoder bs with ⟨w | e, rest⟩
    · rw [decoder_of_error h]
      simp
    · rw [decoder_of_ok h]
      simp only [ofEnvelope_eq_error_iff, ofEnvelope_eq_ok_iff, Envelope.Refused.not_stream,
        Envelope.Refused.unknownScheme_iff, Envelope.Refused.payload_iff, Except.ok.injEq,
        exists_eq_left', reduceCtorEq, implies_true, true_and]
      -- What is left to show is that these are all the outcomes that there are.
      cases ho : ofEnvelope e with
      | ok a => exact Or.inr (Or.inr (Or.inr ⟨a, ofEnvelope_eq_ok_iff.mp ho⟩))
      | error err =>
        cases ofEnvelope_eq_error_iff.mp ho with
        | tag htag => exact Or.inr (Or.inl htag)
        | @payload s i htag hi => exact Or.inr (Or.inr (Or.inl ⟨i, s, htag, hi⟩))
  · intro a junk s h
    refine ⟨fun hjunk => decode_junk_inside s hjunk h, fun hjunk hs => ?_⟩
    subst hjunk
    rw [List.append_nil] at h ⊢
    exact decode_junk_behind hs h

/-- The same two bytes too many, in the payload of a name and after its envelope. -/
theorem decoder_outcome_trailing :
    Format.author.decode [0, 5, 2, 97, 98, 9, 9, 0, 0, 0, 0, 0, 0, 0, 1, 7] =
        .error (AuthorError.payload (.wire (.trailing 2))) ∧
      Format.author.decode [0, 3, 2, 97, 98, 0, 0, 0, 0, 0, 0, 0, 1, 9, 9] =
        .error (AuthorError.stream (.trailing 2)) := by
  have short (junk : Bytes) (hjunk : junk.length ≤ 2) :
      (Owner.payload (.name ⟨"ab"⟩) ++ junk).length < 2 ^ 64 := by
    have : (Owner.payload (.name ⟨"ab"⟩)).length = 3 := by cbv
    rw [List.length_append, this]
    omega
  constructor
  · have inside := (decoder_outcome.2 ⟨.name ⟨"ab"⟩, 1⟩ [9, 9] [7] (short _ (by decide))).1
      (by decide)
    have written : Envelope.encode ⟨Scheme.tag (Author.scheme ⟨.name ⟨"ab"⟩, 1⟩),
        Owner.payload (.name ⟨"ab"⟩) ++ [9, 9], 1⟩ ++ [7] =
        [0, 5, 2, 97, 98, 9, 9, 0, 0, 0, 0, 0, 0, 0, 1, 7] := by cbv
    rwa [written] at inside
  · have behind := (decoder_outcome.2 ⟨.name ⟨"ab"⟩, 1⟩ [] [9, 9] (short _ (by decide))).2
      rfl (by decide)
    have written : Envelope.encode ⟨Scheme.tag (Author.scheme ⟨.name ⟨"ab"⟩, 1⟩),
        Owner.payload (.name ⟨"ab"⟩) ++ [], 1⟩ ++ [9, 9] =
        [0, 3, 2, 97, 98, 0, 0, 0, 0, 0, 0, 0, 1, 9, 9] := by cbv
    rwa [written] at behind

end Author

end Mandate
