/-
The wire grammar, and that the readers accept exactly it.

`f.Spells v bs` says that `bs` is laid out as the record of `v` is, except that every length and
every count may stand in any of its forms.  An author has two lengths of its own, one inside the
other: that of the owner's content, and that of the payload which the first is part of.  So a padded
inner length makes the payload longer, and the outer length counts the payload as it stands.

The grammar does not mention the readers.  `decoder_reads` is the link, by induction on the format,
and what is proved about records elsewhere is proved of their spellings.
-/
import Mandate.Format
import Mandate.Proofs.Bytes.Number
import Mandate.Proofs.Decoder.Reads
import Mandate.Proofs.Length.Forms
import Mandate.Proofs.Utf8.Exact

namespace Mandate

/-! ## The grammar -/

namespace Wire

/-- The content after any form of its length. -/
def SpellsByteString (content bs : Bytes) : Prop :=
  ∃ form, Length.Form content.length form ∧ bs = form ++ content

/-- The spellings of the elements one after another, after any form of their number. -/
def SpellsSeq {α : Type} (spells : α → Bytes → Prop) (as : List α) (bs : Bytes) : Prop :=
  ∃ form parts, Length.Form as.length form ∧ List.Forall₂ spells as parts ∧
    bs = form ++ parts.flatten

end Wire

def Envelope.Spells (e : Envelope) (bs : Bytes) : Prop :=
  ∃ payload, Wire.SpellsByteString e.payload payload ∧
    bs = Wire.encodeByte e.tag ++ payload ++ Wire.encodeWord e.weight

def Owner.SpellsPayload (o : Owner) (bs : Bytes) : Prop :=
  Wire.SpellsByteString o.content bs

def Author.Spells (a : Author) (bs : Bytes) : Prop :=
  ∃ payload, a.owner.SpellsPayload payload ∧ Envelope.Spells ⟨a.scheme.tag, payload, a.weight⟩ bs

def Action.Spells (a : Action) (bs : Bytes) : Prop :=
  ∃ author, a.author.Spells author ∧ bs = a.kind.encode ++ author

def Batch.Spells (b : Batch) (bs : Bytes) : Prop :=
  ∃ actions, Wire.SpellsSeq Action.Spells b.actions actions ∧
    bs = Wire.encodeWord b.threshold ++ Wire.encodeWord b.updateThreshold ++ actions

/-- The byte strings that are records of a value. -/
def Format.Spells : (f : Format) → f.Value → Bytes → Prop
  | byte => fun v bs => bs = Wire.encodeByte v
  | word => fun v bs => bs = Wire.encodeWord v
  | text => fun v bs => Wire.SpellsByteString (Utf8.encode v) bs
  | raw => fun v bs => Wire.SpellsByteString v bs
  | fixed _ => fun v bs => Wire.SpellsByteString (FixedBytes.bytes v) bs
  | name => fun v bs => Wire.SpellsByteString (Utf8.encode (Name.text v)) bs
  | key _ => fun v bs => Wire.SpellsByteString (FixedBytes.bytes v) bs
  | envelope => Envelope.Spells
  | author => Author.Spells
  | actionKind => fun v bs => bs = ActionKind.encode v
  | action => Action.Spells
  | batch => Batch.Spells
  | seq element => Wire.SpellsSeq element.Spells

/-! ## Fields -/

namespace FixedBytes

theorem ofBytes?_eq_some_iff {n : Nat} {bs : Bytes} {v : FixedBytes n} :
    ofBytes? n bs = some v ↔ bs = v.bytes := by
  constructor
  · intro h
    simp only [ofBytes?] at h
    split at h
    · cases h
      rfl
    · cases h
  · intro h
    subst h
    exact ofBytes?_bytes v

end FixedBytes

namespace Wire

theorem reads_byte : decodeByte.Reads fun v front => front = encodeByte v := by
  intro bs v rest
  cases bs with
  | nil => simp [decodeByte, encodeByte]
  | cons b bs => simp [decodeByte, encodeByte, eq_comm]

theorem reads_take (n : Nat) (field : Field) :
    (take n field).Reads fun content front => content.length = n ∧ front = content := by
  intro bs content rest
  simp only [take]
  constructor
  · intro h
    split at h
    · rename_i hlen
      cases h
      exact ⟨bs.take n, ⟨hlen, rfl⟩, (List.take_append_drop n bs).symm⟩
    · cases h
  · intro h
    obtain ⟨_, ⟨rfl, rfl⟩, rfl⟩ := h
    simp

theorem length_encodeWord (w : UInt64) : (encodeWord w).length = 8 :=
  Bytes.length_ofNat 8 w.toNat

theorem reads_word : decodeWord.Reads fun v front => front = encodeWord v := by
  refine (reads_take 8 .fixedWidth).refine.congr fun w front => ?_
  constructor
  · intro h
    obtain ⟨_, hw, hlen, rfl⟩ := h
    cases hw
    have hlt : Bytes.toNat front < 2 ^ 64 := by
      have := Bytes.toNat_lt front
      rw [hlen] at this
      exact this
    rw [encodeWord, UInt64.toNat_ofNat', Nat.mod_eq_of_lt hlt, ← hlen, Bytes.ofNat_toNat]
  · intro h
    subst h
    refine ⟨encodeWord w, ?_, length_encodeWord w, rfl⟩
    have hlt : w.toNat < 256 ^ 8 := w.toNat_lt
    rw [encodeWord, Bytes.toNat_ofNat, Nat.mod_eq_of_lt hlt, UInt64.ofNat_toNat]

theorem reads_length : Length.decode.Reads Length.Form :=
  fun _ _ _ => Length.decode_eq_ok_iff

theorem reads_byteString : decodeByteString.Reads SpellsByteString := by
  refine (reads_length.bind fun n => reads_take n .byteString).congr fun content front => ?_
  constructor
  · intro h
    obtain ⟨_, form, _, hform, ⟨rfl, rfl⟩, rfl⟩ := h
    exact ⟨form, hform, rfl⟩
  · intro h
    obtain ⟨form, hform, rfl⟩ := h
    exact ⟨content.length, form, content, hform, ⟨rfl, rfl⟩, rfl⟩

theorem reads_text : decodeText.Reads fun v front => SpellsByteString (Utf8.encode v) front := by
  refine reads_byteString.refine.congr fun v front => ?_
  simp only [Except.mapError_eq_ok_iff, Utf8.decode_eq_ok_iff, exists_eq_left]

theorem reads_fixed (n : Nat) :
    (decodeFixed n).Reads fun v front => SpellsByteString v.bytes front := by
  refine reads_byteString.refine.congr fun v front => ?_
  constructor
  · intro h
    obtain ⟨content, hv, hs⟩ := h
    split at hv
    · rename_i bs hbs
      cases hv
      rw [← FixedBytes.ofBytes?_eq_some_iff.mp hbs]
      exact hs
    · cases hv
  · intro hs
    exact ⟨v.bytes, by rw [FixedBytes.ofBytes?_bytes], hs⟩

theorem reads_seq {ε α : Type} {ofWire : WireError → ε} {element : Decoder ε α}
    {spells : α → Bytes → Prop} (h : element.Reads spells) :
    (decodeSeq ofWire element).Reads (SpellsSeq spells) := by
  refine (reads_length.mapError.bind fun n => h.replicate n).congr fun as front => ?_
  constructor
  · intro h
    obtain ⟨_, form, _, hform, ⟨rfl, parts, hparts, rfl⟩, rfl⟩ := h
    exact ⟨form, parts, hform, hparts, rfl⟩
  · intro h
    obtain ⟨form, parts, hform, hparts, rfl⟩ := h
    exact ⟨as.length, form, _, hform, ⟨rfl, parts, hparts, rfl⟩, rfl⟩

end Wire

/-! ## Identities and owners -/

theorem Name.reads :
    Name.decoder.Reads fun v front => Wire.SpellsByteString (Utf8.encode v.text) front := by
  refine Wire.reads_text.mapError.refine.congr fun v front => ?_
  constructor
  · intro h
    obtain ⟨text, hv, hs⟩ := h
    cases hv
    exact hs
  · intro hs
    exact ⟨v.text, rfl, hs⟩

namespace Key

variable {k : KeyKind}

theorem ofBytes_eq_ok_iff {bs : Bytes} {v : Key k} : ofBytes k bs = .ok v ↔ bs = v.bytes := by
  rw [← FixedBytes.ofBytes?_eq_some_iff, ofBytes]
  cases FixedBytes.ofBytes? k.length bs <;> simp

theorem reads : (decoder k).Reads fun v front => Wire.SpellsByteString v.bytes front := by
  refine Wire.reads_byteString.mapError.refine.congr fun v front => ?_
  simp only [ofBytes_eq_ok_iff, exists_eq_left]

end Key

theorem Scheme.ofTag_eq_ok_iff {tag : UInt8} {s : Scheme} : ofTag tag = .ok s ↔ tag = s.tag := by
  constructor
  · intro h
    unfold ofTag at h
    split at h <;> cases h <;> rfl
  · intro h
    subst h
    exact ofTag_tag s

theorem Scheme.ofTag_eq_error_iff {tag : UInt8} {e : AuthorError} :
    ofTag tag = .error e ↔ 2 < tag ∧ e = .unknownScheme tag := by
  unfold ofTag
  split
  · simp
  · simp
  · simp
  · have hunknown : 2 < tag := by grind
    constructor
    · intro h
      cases h
      exact ⟨hunknown, rfl⟩
    · intro h
      rw [h.2]

/-- A payload is accepted under the owner's own scheme and under no other. -/
theorem Owner.ofPayload_eq_ok_iff {s : Scheme} {bs : Bytes} {o : Owner} :
    ofPayload s bs = .ok o ↔ s = o.scheme ∧ o.SpellsPayload bs := by
  unfold ofPayload
  rw [Except.mapError_eq_ok_iff]
  cases s with
  | account =>
    simp only [Except.map_eq_ok_iff, Name.reads.whole]
    constructor
    · intro h
      obtain ⟨n, hs, rfl⟩ := h
      exact ⟨rfl, hs⟩
    · intro h
      obtain ⟨hs, hp⟩ := h
      cases o with
      | name n => exact ⟨n, hp, rfl⟩
      | key k value => cases hs
  | key k =>
    simp only [Except.map_eq_ok_iff, Key.reads.whole]
    constructor
    · intro h
      obtain ⟨value, hs, rfl⟩ := h
      exact ⟨rfl, hs⟩
    · intro h
      obtain ⟨hs, hp⟩ := h
      cases o with
      | name n => cases hs
      | key k value =>
        cases hs
        exact ⟨value, hp, rfl⟩

/-! ## Authors, actions and batches -/

theorem Envelope.reads : Envelope.decoder.Reads Envelope.Spells := by
  refine (Wire.reads_byte.bind fun tag => Wire.reads_byteString.bind fun payload =>
    Wire.reads_word.bind fun weight =>
      .pure (⟨tag, payload, weight⟩ : Envelope)).congr fun e front => ?_
  constructor
  · intro h
    obtain ⟨tag, _, _, rfl, h, rfl⟩ := h
    obtain ⟨payload, p, _, hp, ⟨weight, _, _, rfl, ⟨rfl, rfl⟩, rfl⟩, rfl⟩ := h
    exact ⟨p, hp, by simp⟩
  · intro h
    obtain ⟨p, hp, rfl⟩ := h
    exact ⟨e.tag, _, _, rfl, ⟨e.payload, p, _, hp, ⟨e.weight, _, [], rfl, ⟨rfl, rfl⟩, rfl⟩, rfl⟩,
      by simp⟩

theorem Author.ofEnvelope_eq_ok_iff {e : Envelope} {a : Author} :
    ofEnvelope e = .ok a ↔
      e.tag = a.scheme.tag ∧ a.owner.SpellsPayload e.payload ∧ e.weight = a.weight := by
  rw [ofEnvelope, Except.bind_eq_ok_iff]
  simp only [Envelope.scheme, Scheme.ofTag_eq_ok_iff, Except.map_eq_ok_iff,
    Owner.ofPayload_eq_ok_iff]
  constructor
  · intro h
    obtain ⟨_, htag, owner, ⟨rfl, hp⟩, rfl⟩ := h
    exact ⟨htag, hp, rfl⟩
  · intro h
    obtain ⟨htag, hp, hw⟩ := h
    refine ⟨a.scheme, htag, a.owner, ⟨rfl, hp⟩, ?_⟩
    rw [hw]

theorem Author.reads : Author.decoder.Reads Author.Spells := by
  refine Envelope.reads.mapError.refine.congr fun a front => ?_
  simp only [ofEnvelope_eq_ok_iff]
  constructor
  · intro h
    obtain ⟨⟨tag, payload, weight⟩, ⟨rfl, hp, rfl⟩, hs⟩ := h
    exact ⟨payload, hp, hs⟩
  · intro h
    obtain ⟨payload, hp, hs⟩ := h
    exact ⟨_, ⟨rfl, hp, rfl⟩, hs⟩

theorem ActionKind.ofTag_eq_ok_iff {tag : UInt8} {k : ActionKind} :
    ofTag tag = .ok k ↔ tag = k.tag := by
  constructor
  · intro h
    unfold ofTag at h
    split at h <;> cases h <;> rfl
  · intro h
    subst h
    exact ofTag_tag k

theorem ActionKind.ofTag_eq_error_iff {tag : UInt8} {e : AuthorError} :
    ofTag tag = .error e ↔ 2 < tag ∧ e = .unknownAction tag := by
  unfold ofTag
  split
  · simp
  · simp
  · simp
  · have hunknown : 2 < tag := by grind
    constructor
    · intro h
      cases h
      exact ⟨hunknown, rfl⟩
    · intro h
      rw [h.2]

theorem ActionKind.reads :
    ActionKind.decoder.Reads fun v front => front = ActionKind.encode v := by
  refine Wire.reads_byte.mapError.refine.congr fun k front => ?_
  simp only [ofTag_eq_ok_iff, exists_eq_left, ActionKind.encode]

theorem Action.reads : Action.decoder.Reads Action.Spells := by
  refine (ActionKind.reads.bind fun kind => Author.reads.bind fun author =>
    .pure (⟨kind, author⟩ : Action)).congr fun a front => ?_
  constructor
  · intro h
    obtain ⟨kind, _, _, rfl, h, rfl⟩ := h
    obtain ⟨author, p, _, hp, ⟨rfl, rfl⟩, rfl⟩ := h
    exact ⟨p, hp, by simp⟩
  · intro h
    obtain ⟨p, hp, rfl⟩ := h
    exact ⟨a.kind, _, _, rfl, ⟨a.author, p, [], hp, ⟨rfl, rfl⟩, rfl⟩, by simp⟩

theorem Batch.reads : Batch.decoder.Reads Batch.Spells := by
  refine (Wire.reads_word.mapError.bind fun threshold =>
    Wire.reads_word.mapError.bind fun updateThreshold =>
      (Wire.reads_seq Action.reads).bind fun actions =>
        .pure (⟨threshold, updateThreshold, actions⟩ : Batch)).congr fun b front => ?_
  constructor
  · intro h
    obtain ⟨threshold, _, _, rfl, h, rfl⟩ := h
    obtain ⟨updateThreshold, _, _, rfl, ⟨actions, p, _, hp, ⟨rfl, rfl⟩, rfl⟩, rfl⟩ := h
    exact ⟨p, hp, by simp⟩
  · intro h
    obtain ⟨p, hp, rfl⟩ := h
    exact ⟨b.threshold, _, _, rfl, ⟨b.updateThreshold, _, _, rfl,
      ⟨b.actions, p, [], hp, ⟨rfl, rfl⟩, rfl⟩, rfl⟩, by simp⟩

/-! ## All formats -/

namespace Format

theorem decoder_reads (f : Format) : f.decoder.Reads f.Spells := by
  induction f with
  | byte => exact Wire.reads_byte
  | word => exact Wire.reads_word
  | text => exact Wire.reads_text
  | raw => exact Wire.reads_byteString
  | fixed n => exact Wire.reads_fixed n
  | name => exact Name.reads
  | key k => exact Key.reads
  | envelope => exact Envelope.reads
  | author => exact Author.reads
  | actionKind => exact ActionKind.reads
  | action => exact Action.reads
  | batch => exact Batch.reads
  | seq element ih => exact Wire.reads_seq ih

/-- A byte string is accepted as a record of a value if and only if it spells that value. -/
theorem decode_eq_ok_iff_spells (f : Format) (bs : Bytes) (v : f.Value) :
    f.decode bs = .ok v ↔ f.Spells v bs :=
  f.decoder_reads.whole

end Format

end Mandate
