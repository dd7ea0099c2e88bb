/-
What has been read of a stream does not depend on what comes after.

The reader of every format is local: unless it runs into the end of its input, its outcome is that of
the bytes it has taken, an error with all its details, and it is the same for every longer input.  None
of the checks that it makes says that the input has ended.  An owner's payload is read from bytes that
are already there.  An end of input inside it is an error of the payload, which no later input mends.
-/
import Mandate.Format
import Mandate.Proofs.Author.Outcome
import Mandate.Proofs.Decoder.Stable
import Mandate.Proofs.Length.Outcome

namespace Mandate

/-! ## Errors -/

/-- Whether an error says that the input has ended, in the terms of a layer. -/
def Layer.IsEndOfStream (l : Layer) (e : l.Error) : Prop :=
  ∃ w : WireError, w.isEndOfStream = true ∧ e = l.ofWire w

/-- Whether an error is about bytes that have been read, rather than about bytes or room that were
not there. -/
def WireError.findsFault : WireError → Bool
  | lengthCutOff | cutOff _ | noRoom => false
  | lengthOverflow | lengthMismatch _ _ | illFormedText _ | trailing _ => true

def IdentityError.findsFault : IdentityError → Bool
  | wire e => e.findsFault
  | invalidHex _ _ | invalidLength _ _ => true

/-- A payload has been read before anybody looks into it, so an error of it finds fault even where
the payload ends too early. -/
def AuthorError.findsFault : AuthorError → Bool
  | stream e => e.findsFault
  | unknownScheme _ | unknownSchemeName _ | unknownAction _ | payload _ | json _ => true

theorem WireError.isEndOfStream_iff {w : WireError} :
    w.isEndOfStream = true ↔ w = .lengthCutOff ∨ ∃ field, w = .cutOff field := by
  cases w <;> simp [isEndOfStream]

theorem WireError.findsFault_of_isEndOfStream {w : WireError} (h : w.isEndOfStream = true) :
    w.findsFault = false := by
  cases w <;> first | rfl | cases h

namespace Layer

def findsFault : (l : Layer) → l.Error → Bool
  | wire => WireError.findsFault
  | identity => IdentityError.findsFault
  | author => AuthorError.findsFault

theorem findsFault_ofWire (l : Layer) (w : WireError) :
    l.findsFault (l.ofWire w) = w.findsFault := by
  cases l <;> rfl

theorem not_isEndOfStream_of_findsFault {l : Layer} {e : l.Error} (h : l.findsFault e = true) :
    ¬ l.IsEndOfStream e := by
  intro hcut
  obtain ⟨w, hw, rfl⟩ := hcut
  rw [findsFault_ofWire, WireError.findsFault_of_isEndOfStream hw] at h
  cases h

/-- An error inside a payload is never about the end of the stream, not even where it is about the
end of the payload. -/
theorem not_isEndOfStream_payload (e : IdentityError) :
    ¬ IsEndOfStream .author (AuthorError.payload e) :=
  not_isEndOfStream_of_findsFault rfl

theorem ofWire_injective (l : Layer) {w w' : WireError} (h : l.ofWire w = l.ofWire w') : w = w' := by
  cases l with
  | wire => exact h
  | identity => exact IdentityError.wire.inj h
  | author => exact AuthorError.stream.inj h

theorem isEndOfStream_ofWire_iff {l : Layer} {w : WireError} :
    l.IsEndOfStream (l.ofWire w) ↔ IsEndOfStream .wire w := by
  constructor
  · intro h
    obtain ⟨w', hw', h⟩ := h
    exact ⟨w', hw', l.ofWire_injective h⟩
  · intro h
    obtain ⟨w', hw', h⟩ := h
    exact ⟨w', hw', congrArg l.ofWire h⟩

end Layer

/-! ## Readers of a layer -/

namespace Decoder

abbrev WireLocal {α : Type} (d : Decoder WireError α) : Prop :=
  Local (Layer.IsEndOfStream .wire) d

theorem WireLocal.ofWire {α : Type} {d : Decoder WireError α} (h : WireLocal d) (l : Layer) :
    Local l.IsEndOfStream (d.mapError l.ofWire) :=
  h.mapError fun _ => Layer.isEndOfStream_ofWire_iff

/-- A check is one of content if what it reports finds fault with it. -/
theorem Local.check {l : Layer} {α β : Type} {d : Decoder l.Error α} {f : α → Except l.Error β}
    (h : Local l.IsEndOfStream d) (hf : ∀ a e, f a = .error e → l.findsFault e = true) :
    Local l.IsEndOfStream (d.refine f) := by
  refine h.refine fun a => ?_
  cases ha : f a with
  | ok b => trivial
  | error e => exact Layer.not_isEndOfStream_of_findsFault (hf a e ha)

end Decoder

open Decoder

/-! ## Lengths and fields -/

namespace Length

theorem endOfStream_lengthCutOff : Layer.IsEndOfStream .wire WireError.lengthCutOff :=
  ⟨.lengthCutOff, rfl, rfl⟩

theorem decode_local : WireLocal decode := by
  refine .of_forall fun bs => ?_
  cases hk : bs.findIdx? (· < 128) with
  | none =>
    have unended : decode bs = (.error .lengthCutOff, []) :=
      continueFrom_unended (not_last_of_findIdx? hk) 0 0
    rw [unended]
    exact ⟨fun hs => absurd endOfStream_lengthCutOff hs, fun _ => rfl⟩
  | some k =>
    have hread := decode_digits (digits_take hk)
    have hbs : bs = bs.take (k + 1) ++ bs.drop (k + 1) := (bs.take_append_drop (k + 1)).symm
    have here := hread (bs.drop (k + 1))
    rw [← hbs] at here
    rw [here]
    refine ⟨fun _ => ⟨_, hbs, hread⟩, fun hs => absurd ?_ hs⟩
    split
    · trivial
    · exact Layer.not_isEndOfStream_of_findsFault (l := .wire) rfl

end Length

namespace Wire

theorem endOfStream_cutOff (field : Field) : Layer.IsEndOfStream .wire (WireError.cutOff field) :=
  ⟨.cutOff field, rfl, rfl⟩

theorem decodeByte_local : WireLocal decodeByte := by
  refine .of_forall fun bs => ?_
  cases bs with
  | nil => exact ⟨fun hs => absurd (endOfStream_cutOff _) hs, fun _ => rfl⟩
  | cons b bs => exact ⟨fun _ => ⟨[b], rfl, fun _ => rfl⟩, fun hs => absurd trivial hs⟩

theorem take_local (n : Nat) (field : Field) : WireLocal (take n field) := by
  refine .of_forall fun bs => ?_
  by_cases hlen : (bs.take n).length = n
  · have here (later : Bytes) : take n field (bs.take n ++ later) = (.ok (bs.take n), later) := by
      simp only [take, List.take_left' hlen, List.drop_left' hlen, if_pos hlen]
    simp only [take, if_pos hlen]
    exact ⟨fun _ => ⟨_, (List.take_append_drop n bs).symm, here⟩, fun hs => absurd trivial hs⟩
  · simp only [take, if_neg hlen]
    exact ⟨fun hs => absurd (endOfStream_cutOff field) hs, fun _ => trivial⟩

theorem decodeWord_local : WireLocal decodeWord := by
  refine (take_local 8 .fixedWidth).refine fun content => ?_
  trivial

theorem decodeByteString_local : WireLocal decodeByteString :=
  Length.decode_local.bind fun n => take_local n .byteString

theorem decodeText_local : WireLocal decodeText := by
  refine Local.check (l := .wire) decodeByteString_local fun content e h => ?_
  obtain ⟨fault, -, rfl⟩ := Except.mapError_eq_error_iff.mp h
  rfl

theorem decodeFixed_local (n : Nat) : WireLocal (decodeFixed n) := by
  refine Local.check (l := .wire) decodeByteString_local fun content e h => ?_
  split at h
  · cases h
  · cases h
    rfl

theorem decodeSeq_local {α : Type} {l : Layer} {element : Decoder l.Error α}
    (h : Local l.IsEndOfStream element) :
    Local l.IsEndOfStream (decodeSeq l.ofWire element) :=
  (Length.decode_local.ofWire l).bind fun n => h.replicate n

end Wire

/-! ## Identities and records -/

theorem Name.decoder_local : Local (Layer.IsEndOfStream .identity) Name.decoder := by
  refine (Wire.decodeText_local.ofWire .identity).refine fun text => ?_
  trivial

theorem Key.decoder_local (k : KeyKind) : Local (Layer.IsEndOfStream .identity) (Key.decoder k) := by
  refine (Wire.decodeByteString_local.ofWire .identity).check fun content e h => ?_
  unfold ofBytes at h
  split at h
  · cases h
  · cases h
    rfl

theorem Envelope.decoder_local : WireLocal Envelope.decoder :=
  Wire.decodeByte_local.bind fun _ => Wire.decodeByteString_local.bind fun _ =>
    Wire.decodeWord_local.bind fun _ => .pure _

theorem Author.decoder_local : Local (Layer.IsEndOfStream .author) Author.decoder := by
  refine (Envelope.decoder_local.ofWire .author).check fun envelope e h => ?_
  cases ofEnvelope_eq_error_iff.mp h with
  | tag _ => rfl
  | payload _ _ => rfl

theorem ActionKind.decoder_local : Local (Layer.IsEndOfStream .author) ActionKind.decoder := by
  refine (Wire.decodeByte_local.ofWire .author).check fun tag e h => ?_
  obtain ⟨-, rfl⟩ := ofTag_eq_error_iff.mp h
  rfl

theorem Action.decoder_local : Local (Layer.IsEndOfStream .author) Action.decoder :=
  ActionKind.decoder_local.bind fun _ => Author.decoder_local.bind fun _ => .pure _

theorem Batch.decoder_local : Local (Layer.IsEndOfStream .author) Batch.decoder :=
  (Wire.decodeWord_local.ofWire .author).bind fun _ =>
    (Wire.decodeWord_local.ofWire .author).bind fun _ =>
      (Wire.decodeSeq_local (l := .author) Action.decoder_local).bind fun _ => .pure _

namespace Format

theorem decoder_local (f : Format) : Local f.layer.IsEndOfStream f.decoder := by
  induction f with
  | byte => exact Wire.decodeByte_local
  | word => exact Wire.decodeWord_local
  | text => exact Wire.decodeText_local
  | raw => exact Wire.decodeByteString_local
  | fixed n => exact Wire.decodeFixed_local n
  | name => exact Name.decoder_local
  | key k => exact Key.decoder_local k
  | envelope => exact Envelope.decoder_local
  | author => exact Author.decoder_local
  | actionKind => exact ActionKind.decoder_local
  | action => exact Action.decoder_local
  | batch => exact Batch.decoder_local
  | seq element ih => exact Wire.decodeSeq_local ih

theorem decoder_stable (f : Format) : Stable f.layer.IsEndOfStream f.decoder :=
  f.decoder_local.stable

/-- Reading leaves an end of the stream.  Unless the stream has ended too early, reading a longer
one has the same outcome and leaves the same end with the rest behind it.  Errors of a payload are
among the outcomes that stay. -/
theorem decoder_append_eq (f : Format) (bs : Bytes) :
    (f.decoder bs).2 <:+ bs ∧
      ((∀ e, (f.decoder bs).1 = .error e → ¬ f.layer.IsEndOfStream e) →
        ∀ s, f.decoder (bs ++ s) = ((f.decoder bs).1, (f.decoder bs).2 ++ s)) ∧
      ∀ e, ¬ Layer.IsEndOfStream .author (AuthorError.payload e) := by
  refine ⟨f.decoder_stable.suffix rfl, fun h s => ?_, Layer.not_isEndOfStream_payload⟩
  refine f.decoder_stable.append rfl ?_ s
  cases hd : (f.decoder bs).1 with
  | ok v => trivial
  | error e => exact h e hd

theorem decoder_append_eq_payload_cut_off :
    author.decoder [0, 1, 5, 0, 0, 0, 0, 0, 0, 0, 1, 9] =
        (.error (AuthorError.payload (.wire (.cutOff .byteString))), [9]) ∧
      author.decoder ([0, 1, 5, 0, 0, 0, 0, 0, 0, 0, 1, 9] ++ [8, 7]) =
        (.error (AuthorError.payload (.wire (.cutOff .byteString))), [9, 8, 7]) := by
  have cut : author.decoder [0, 1, 5, 0, 0, 0, 0, 0, 0, 0, 1, 9] =
      (.error (AuthorError.payload (.wire (.cutOff .byteString))), [9]) := rfl
  obtain ⟨-, stable, payload⟩ := decoder_append_eq author [0, 1, 5, 0, 0, 0, 0, 0, 0, 0, 1, 9]
  refine ⟨cut, ?_⟩
  rw [stable, cut]
  · rfl
  · intro e he
    rw [cut] at he
    cases he
    exact payload _

end Format

end Mandate
