/-
The first element that cannot be read decides.

A sequence is read element by element, and the reading that fails is the last one that is made.  So
the failure of a sequence is that of its first bad element as it stands, with nothing added to the
error, and with the input left where that element has left it.  What comes after it is not looked at,
and how many elements would have come after it does not matter.

For a batch this says which action is to blame and for what.  `Action.Rejected` lists what can be
wrong with one, in the order in which it is looked for: an action of no known kind is refused before
its author is read.
-/
import Mandate.Proofs.Format.Size
import Mandate.Proofs.Format.Stability

namespace Mandate

/-! ## Actions -/

/-- Bytes that do not begin with an action, what is wrong with them, and what is left of them when
that is found. -/
inductive Action.Rejected : Bytes → AuthorError → Bytes → Prop
  | missing : Rejected [] (.stream (.cutOff .fixedWidth)) []
  | kind {tag : UInt8} {rest : Bytes} :
      2 < tag → Rejected (tag :: rest) (.unknownAction tag) rest
  | stream {k : ActionKind} {bs rest : Bytes} {w : WireError} :
      Envelope.decoder bs = (.error w, rest) → Rejected (k.tag :: bs) (.stream w) rest
  | author {k : ActionKind} {bs rest : Bytes} {e : Envelope} {err : AuthorError} :
      Envelope.decoder bs = (.ok e, rest) → e.Refused err → Rejected (k.tag :: bs) err rest

namespace Action

theorem decoder_of_unknown {tag : UInt8} {rest : Bytes} (h : 2 < tag) :
    decoder (tag :: rest) = (.error (.unknownAction tag), rest) := by
  have hkind : ActionKind.decoder (tag :: rest) = (.error (.unknownAction tag), rest) :=
    congrArg (·, rest) (ActionKind.ofTag_eq_error_iff.mpr ⟨h, rfl⟩)
  exact Decoder.bind_error hkind

theorem decoder_of_tag (k : ActionKind) (bs : Bytes) :
    decoder (k.tag :: bs) = (Author.decoder.bind fun author => .pure ⟨k, author⟩) bs :=
  Decoder.bind_ok (ActionKind.reads.append rfl bs)

theorem decoder_eq_error_iff {bs rest : Bytes} {e : AuthorError} :
    decoder bs = (.error e, rest) ↔ Rejected bs e rest := by
  constructor
  · intro h
    cases bs with
    | nil =>
      cases h
      exact .missing
    | cons tag bs =>
      -- Only a known tag lets the reader get to the bytes behind it.
      cases htag : ActionKind.ofTag tag with
      | error e' =>
        obtain ⟨hunknown, -⟩ := ActionKind.ofTag_eq_error_iff.mp htag
        rw [decoder_of_unknown hunknown] at h
        cases h
        exact .kind hunknown
      | ok k =>
        obtain rfl := ActionKind.ofTag_eq_ok_iff.mp htag
        rw [decoder_of_tag, Decoder.bind_eq_error_iff] at h
        rcases h with h | ⟨_, _, -, h⟩
        · rcases he : Envelope.decoder bs with ⟨w | envelope, mid⟩
          · rw [Author.decoder_of_error he] at h
            cases h
            exact .stream he
          · rw [Author.decoder_of_ok he] at h
            obtain ⟨hopen, rfl⟩ := Prod.mk.inj h
            exact .author he (Author.ofEnvelope_eq_error_iff.mp hopen)
        · cases h
  · intro h
    cases h with
    | missing => rfl
    | kind htag => exact decoder_of_unknown htag
    | stream he =>
      rw [decoder_of_tag]
      exact Decoder.bind_error (Author.decoder_of_error he)
    | author he hrefused =>
      have hauthor := Author.decoder_of_ok he
      rw [Author.ofEnvelope_eq_error_iff.mpr hrefused] at hauthor
      rw [decoder_of_tag]
      exact Decoder.bind_error hauthor

end Action

/-! ## Batches -/

namespace Batch

variable {n : Nat} {form : Bytes}

/-- Behind the thresholds and the count, reading a batch is reading that many actions. -/
theorem decoder_of_count (t u : UInt64) (h : Length.Form n form) (behind : Bytes) :
    decoder (Wire.encodeWord t ++ Wire.encodeWord u ++ form ++ behind) =
      ((Action.decoder.replicate n).bind fun actions => .pure ⟨t, u, actions⟩) behind := by
  have hcount := Wire.reads_length.mapError (g := AuthorError.stream).append h behind
  rw [List.append_assoc, List.append_assoc, decoder,
    Decoder.bind_ok (Wire.reads_word.mapError.append rfl _),
    Decoder.bind_ok (Wire.reads_word.mapError.append rfl _)]
  simp only [Decoder.bind, Wire.decodeSeq, hcount]

theorem decoder_eq_error_iff {t u : UInt64} (h : Length.Form n form) {behind rest : Bytes}
    {e : AuthorError} :
    decoder (Wire.encodeWord t ++ Wire.encodeWord u ++ form ++ behind) = (.error e, rest) ↔
      ∃ m < n, ∃ as x, Action.decoder.replicate m behind = (.ok as, x) ∧
        Action.Rejected x e rest := by
  rw [decoder_of_count t u h, Decoder.bind_eq_error_iff, Decoder.replicate_eq_error_iff]
  simp only [Decoder.FailsAfter, Action.decoder_eq_error_iff]
  constructor
  · intro hfails
    rcases hfails with hfails | ⟨_, _, -, hpure⟩
    · exact hfails
    · cases hpure
  · exact Or.inl

end Batch

/-! ## All formats -/

namespace Format

theorem replicate_encode (f : Format) {vs : List f.Value} (h : ∀ v ∈ vs, f.Fits v) (x : Bytes) :
    f.decoder.replicate vs.length (vs.flatMap f.encode ++ x) = (.ok vs, x) := by
  have hparts : List.Forall₂ f.Spells vs (vs.map f.encode) :=
    Wire.spells_each fun v hv => f.spells_encode (h v hv)
  rw [List.flatMap_def]
  exact (f.decoder_reads.replicate vs.length).append ⟨rfl, _, hparts, rfl⟩ x

theorem seq_decoder_of_element (f : Format) {vs : List f.Value} {n : Nat} {form x rest : Bytes}
    {e : f.Error} (hfits : ∀ v ∈ vs, f.Fits v) (hn : vs.length < n) (hform : Length.Form n form)
    (he : f.decoder x = (.error e, rest)) :
    (seq f).decoder (form ++ vs.flatMap f.encode ++ x) = (.error e, rest) := by
  rw [List.append_assoc]
  have hcount := Wire.reads_length.append hform (vs.flatMap f.encode ++ x)
  exact f.seq_decoder_of_failsAfter hcount hn ⟨vs, x, f.replicate_encode hfits x, he⟩

/-- What is left after a failure has had no part in it, or nothing is left. -/
theorem decoder_error_local (f : Format) {bs rest : Bytes} {e : f.Error}
    (h : f.decoder bs = (.error e, rest)) :
    rest = [] ∨ ∃ own, bs = own ++ rest ∧ ∀ later, f.decoder (own ++ later) = (.error e, later) := by
  by_cases hcut : f.layer.IsEndOfStream e
  · exact Or.inl (f.decoder_local.ended h fun hs => hs hcut)
  · exact Or.inr (f.decoder_local.own h hcut)

/-- A sequence fails as its first bad element does, with the same error at the same byte, under
every count that goes so far and in every form of it.  A batch whose actions cannot all be read fails
as the first one of them that is rejected, and in no other way.  Neither looks at what comes after
that, and neither comes to a value. -/
theorem first_failure_decides :
    (∀ (f : Format) (vs : List f.Value) (n : Nat) (form x rest : Bytes) (e : f.Error),
      (∀ v ∈ vs, f.Fits v) → vs.length < n → Length.Form n form →
      f.decoder x = (.error e, rest) →
      (seq f).decoder (form ++ vs.flatMap f.encode ++ x) = (.error e, rest)) ∧
    (∀ (t u : UInt64) (n : Nat) (form behind rest : Bytes) (e : AuthorError),
      Length.Form n form →
      (batch.decoder (Wire.encodeWord t ++ Wire.encodeWord u ++ form ++ behind) =
          (.error e, rest) ↔
        ∃ m < n, ∃ as x, Action.decoder.replicate m behind = (.ok as, x) ∧
          Action.Rejected x e rest)) ∧
    ∀ (f : Format) (bs rest : Bytes) (e : f.Error), f.decoder bs = (.error e, rest) →
      f.decode bs = .error e ∧
      (rest = [] ∨
        ∃ own, bs = own ++ rest ∧ ∀ later, f.decoder (own ++ later) = (.error e, later)) :=
  ⟨fun f _ _ _ _ _ _ hfits hn hform he => f.seq_decoder_of_element hfits hn hform he,
    fun _ _ _ _ _ _ _ hform => Batch.decoder_eq_error_iff hform,
    fun f _ _ _ h => ⟨Decoder.whole_error h, f.decoder_error_local h⟩⟩

/-- An action and one of no known kind, with two more bytes behind it, under a padded count of
three. -/
theorem first_failure_decides_unknown_kind :
    (seq action).decoder [0x83, 0, 0, 0, 3, 2, 97, 98, 0, 0, 0, 0, 0, 0, 0, 1, 7, 1, 2] =
        (.error (AuthorError.unknownAction 7), [1, 2]) ∧
      batch.decoder (Wire.encodeWord 1 ++ Wire.encodeWord 2 ++ [0x83, 0] ++
          [0, 0, 3, 2, 97, 98, 0, 0, 0, 0, 0, 0, 0, 1, 7, 1, 2]) =
        (.error (AuthorError.unknownAction 7), [1, 2]) ∧
      batch.decode (Wire.encodeWord 1 ++ Wire.encodeWord 2 ++ [0x83, 0] ++
          [0, 0, 3, 2, 97, 98, 0, 0, 0, 0, 0, 0, 0, 1, 7, 1, 2]) =
        .error (AuthorError.unknownAction 7) := by
  have padded : Length.Form 3 [0x83, 0] :=
    ⟨.more (b := 0x83) (by decide) (.last (b := 0) (by decide)), by decide, by simp⟩
  have short : Author.Fits ⟨.name ⟨"ab"⟩, 1⟩ := by
    show List.length _ < 2 ^ 64
    decide +kernel
  have written : List.flatMap action.encode [⟨.add, ⟨.name ⟨"ab"⟩, 1⟩⟩] =
      [0, 0, 3, 2, 97, 98, 0, 0, 0, 0, 0, 0, 0, 1] := by cbv
  have unknown : action.decoder [7, 1, 2] = (.error (AuthorError.unknownAction 7), [1, 2]) := rfl
  obtain ⟨element, behind, anywhere⟩ := first_failure_decides
  have alone := element action [⟨.add, ⟨.name ⟨"ab"⟩, 1⟩⟩] 3 [0x83, 0] [7, 1, 2] [1, 2] _
    (fun v hv => List.mem_singleton.mp hv ▸ short) (by decide) padded unknown
  rw [written] at alone
  have first : Action.decoder.replicate 1 [0, 0, 3, 2, 97, 98, 0, 0, 0, 0, 0, 0, 0, 1, 7, 1, 2] =
      (.ok [⟨.add, ⟨.name ⟨"ab"⟩, 1⟩⟩], [7, 1, 2]) := by cbv
  have inside := (behind 1 2 3 [0x83, 0] _ [1, 2] _ padded).mpr
    ⟨1, by decide, _, _, first, .kind (by decide)⟩
  exact ⟨alone, inside, (anywhere _ _ _ _ inside).1⟩

end Format
end Mandate
