/-
Owners whose tag has been changed.

A payload does not say which scheme it belongs to, so the tag in front of it decides alone how it is
read.  Under another tag than its own an owner is nearly always refused: a key has the wrong length
for a key of the other kind, a name has to have exactly the length of a key, and a key has to be
UTF-8 to be a name.  Where it is not refused, what is read has the same bytes, and it is written
with the same payload.
-/
import Mandate.Proofs.Author.Outcome
import Mandate.Proofs.Format.ByteStrings

namespace Mandate

theorem KeyKind.length_injective {k l : KeyKind} (h : k.length = l.length) : k = l := by
  cases k <;> cases l <;> simp_all [length]

namespace Owner

/-- A name and a key with the same bytes. -/
inductive Coincides : Owner → Owner → Prop
  | nameKey {n : Name} {k : KeyKind} {key : Key k} :
      Utf8.encode n.text = key.bytes → Coincides (.name n) (.key k key)
  | keyName {n : Name} {k : KeyKind} {key : Key k} :
      Utf8.encode n.text = key.bytes → Coincides (.key k key) (.name n)

/-- What the payload of an owner comes to under a scheme. -/
inductive ReadAs : Owner → Scheme → Except AuthorError Owner → Prop
  | own (o : Owner) : ReadAs o o.scheme (.ok o)
  | coincidence {o o' : Owner} : o.Coincides o' → ReadAs o o'.scheme (.ok o')
  /-- A name that is too short or too long for a key. -/
  | wrongLength {n : Name} {k : KeyKind} : n.byteLength ≠ k.length →
      ReadAs (.name n) (.key k) (.error (.payload (.invalidLength k n.byteLength)))
  /-- A key that is not UTF-8. -/
  | noText {k : KeyKind} {key : Key k} {fault : Utf8.Fault} :
      (∀ text, Utf8.encode text ≠ key.bytes) → Utf8.decode key.bytes = .error fault →
      ReadAs (.key k key) .account (.error (.payload (.wire (.illFormedText fault))))
  | otherKind {k l : KeyKind} {key : Key k} : k ≠ l →
      ReadAs (.key k key) (.key l) (.error (.payload (.invalidLength l k.length)))

theorem Coincides.content_eq {o o' : Owner} (h : o.Coincides o') : o'.content = o.content := by
  cases h with
  | nameKey h => exact h.symm
  | keyName h => exact h

theorem payload_eq_of_content_eq {o o' : Owner} (h : o'.content = o.content) :
    o'.payload = o.payload := by
  rw [payload_eq, payload_eq, h]

theorem decodeByteString_payload {o : Owner} (h : o.content.length < 2 ^ 64) :
    Wire.decodeByteString o.payload = (.ok o.content, []) := by
  have hread := Wire.reads_byteString.append (Wire.spells_encodeByteString h) []
  rwa [List.append_nil, ← payload_eq] at hread

/-! ## The two ways to read a payload -/

theorem ofPayload_account {o : Owner} (h : o.content.length < 2 ^ 64) :
    ofPayload .account o.payload =
      match Utf8.decode o.content with
      | .ok text => .ok (.name ⟨text⟩)
      | .error fault => .error (.payload (.wire (.illFormedText fault))) := by
  rw [ofPayload, Decoder.whole, Name.decoder_of_ok (decodeByteString_payload h)]
  cases Utf8.decode o.content <;> rfl

theorem ofPayload_key {o : Owner} (h : o.content.length < 2 ^ 64) (k : KeyKind) :
    ofPayload (.key k) o.payload =
      if hk : o.content.length = k.length then .ok (.key k ⟨o.content, hk⟩)
      else .error (.payload (.invalidLength k o.content.length)) := by
  rw [ofPayload, Decoder.whole, Key.decoder_of_ok k (decodeByteString_payload h)]
  by_cases hk : o.content.length = k.length
  · rw [dif_pos hk, dif_pos hk]
    rfl
  · rw [dif_neg hk, dif_neg hk]
    rfl

theorem readAs_ofPayload (o : Owner) (s : Scheme) (h : o.content.length < 2 ^ 64) :
    o.ReadAs s (ofPayload s o.payload) := by
  cases s with
  | account =>
    rw [ofPayload_account h]
    cases o with
    | name n =>
      rw [show Utf8.decode (name n).content = .ok n.text from Utf8.decode_eq_ok_iff.mpr rfl]
      exact .own (name n)
    | key k key =>
      cases hd : Utf8.decode (Owner.key k key).content with
      | ok text =>
        have hsame : Coincides (Owner.key k key) (name ⟨text⟩) :=
          .keyName (Utf8.decode_eq_ok_iff.mp hd).symm
        exact .coincidence hsame
      | error fault =>
        have hno := Utf8.decode_eq_error_iff.mp ⟨fault, hd⟩
        exact .noText (fun text htext => hno text htext.symm) hd
  | key k =>
    rw [ofPayload_key h]
    by_cases hk : o.content.length = k.length
    · rw [dif_pos hk]
      cases o with
      | name n => exact .coincidence (.nameKey rfl)
      | key l key =>
        obtain rfl := KeyKind.length_injective (key.length_eq.symm.trans hk)
        exact .own (Owner.key l key)
    · rw [dif_neg hk]
      cases o with
      | name n => exact .wrongLength hk
      | key l key =>
        have hne : l ≠ k := by
          rintro rfl
          exact hk key.length_eq
        rw [show (Owner.key l key).content.length = l.length from key.length_eq]
        exact .otherKind hne

/-- What a payload comes to under a scheme is decided by the owner that it was written for. -/
theorem ofPayload_eq_iff_readAs {o : Owner} {s : Scheme} (h : o.content.length < 2 ^ 64)
    {outcome : Except AuthorError Owner} :
    ofPayload s o.payload = outcome ↔ o.ReadAs s outcome := by
  constructor
  · intro hread
    subst hread
    exact readAs_ofPayload o s h
  · intro hread
    cases hread with
    | own =>
      refine ofPayload_eq_ok_iff.mpr ⟨rfl, ?_⟩
      rw [payload_eq]
      exact Wire.spells_encodeByteString h
    | @coincidence _ o' hsame =>
      refine ofPayload_eq_ok_iff.mpr ⟨rfl, ?_⟩
      rw [payload_eq, ← hsame.content_eq]
      refine Wire.spells_encodeByteString ?_
      rwa [hsame.content_eq]
    | @wrongLength n k hlen =>
      have hother : (Owner.name n).content.length ≠ k.length := hlen
      rw [ofPayload_key h, dif_neg hother]
      rfl
    | noText _ hfault => rw [ofPayload_account h, content, hfault]
    | @otherKind k l key hne =>
      have hlen : (Owner.key k key).content.length = k.length := key.length_eq
      have hother : (Owner.key k key).content.length ≠ l.length := fun hl =>
        hne (KeyKind.length_injective (hlen.symm.trans hl))
      rw [ofPayload_key h, dif_neg hother, hlen]

theorem ReadAs.content_eq {o o' : Owner} {s : Scheme} (h : o.ReadAs s (.ok o')) :
    (o' = o ∨ o.Coincides o') ∧ o'.content = o.content := by
  cases h with
  | own => exact ⟨Or.inl rfl, rfl⟩
  | coincidence hsame => exact ⟨Or.inr hsame, hsame.content_eq⟩

end Owner

/-! ## Records -/

namespace Author

theorem encode_set (a : Author) (tag : UInt8) :
    a.encode.set 0 tag = Envelope.encode ⟨tag, a.owner.payload, a.weight⟩ := by
  rfl

theorem decode_set {a : Author} (h : a.Fits) (s : Scheme) :
    Format.author.decode (a.encode.set 0 s.tag) =
      (Owner.ofPayload s a.owner.payload).map fun owner => ⟨owner, a.weight⟩ := by
  have hread := decoder_encode_envelope (e := ⟨s.tag, a.owner.payload, a.weight⟩) h []
  have hopen : ofEnvelope ⟨s.tag, a.owner.payload, a.weight⟩ =
      (Owner.ofPayload s a.owner.payload).map fun owner => ⟨owner, a.weight⟩ := by
    rw [ofEnvelope, Envelope.scheme, Scheme.ofTag_tag]
    rfl
  rw [List.append_nil, ← encode_set, hopen] at hread
  cases ho : Owner.ofPayload s a.owner.payload with
  | ok o =>
    rw [ho] at hread
    exact Decoder.whole_eq_ok_iff.mpr hread
  | error e =>
    rw [ho] at hread
    exact Decoder.whole_error hread

/-- An owner is read back under its own scheme.  Under another one it is refused, with the length
that its bytes have or as a text that they are not, unless a name and a key happen to have the same
bytes.  So if the tag of a record is changed and the record is still read, then it is read as the
same owner or as one with the same bytes and the same payload, and the changed record is the one
that is written for it. -/
theorem decode_retagged :
    (∀ (o : Owner) (s : Scheme), o.content.length < 2 ^ 64 → ∀ outcome,
      Owner.ofPayload s o.payload = outcome ↔ o.ReadAs s outcome) ∧
    ∀ (a : Author) (s : Scheme), a.Fits →
      Format.author.decode (a.encode.set 0 s.tag) =
        (Owner.ofPayload s a.owner.payload).map (fun owner => (⟨owner, a.weight⟩ : Author)) ∧
      ∀ a' : Author, Format.author.decode (a.encode.set 0 s.tag) = .ok a' →
        (a'.owner = a.owner ∨ a.owner.Coincides a'.owner) ∧ a'.scheme = s ∧
        a'.weight = a.weight ∧ a'.owner.payload = a.owner.payload ∧
        a'.encode = a.encode.set 0 s.tag := by
  refine ⟨fun o s h _ => Owner.ofPayload_eq_iff_readAs h, fun a s h => ⟨decode_set h s, ?_⟩⟩
  intro a' ha'
  rw [decode_set h] at ha'
  obtain ⟨o', ho', rfl⟩ := Except.map_eq_ok_iff.mp ha'
  have hcontent : a.owner.content.length < 2 ^ 64 :=
    Nat.lt_of_le_of_lt a.owner.length_content_le h
  obtain ⟨howner, hsame⟩ := ((Owner.ofPayload_eq_iff_readAs hcontent).mp ho').content_eq
  have hpayload : o'.payload = a.owner.payload := Owner.payload_eq_of_content_eq hsame
  have hscheme : s = o'.scheme := (Owner.ofPayload_eq_ok_iff.mp ho').1
  refine ⟨howner, hscheme.symm, rfl, hpayload, ?_⟩
  rw [encode_set, encode, toEnvelope, scheme, ← hscheme, hpayload]

/-- The record of a name of twenty letters under the tag of an address, and its payload under that
of a public key. -/
theorem decode_retagged_address :
    Format.author.decode ((encode ⟨.name ⟨"abcdefghijklmnopqrst"⟩, 1⟩).set 0 2) =
        .ok (⟨.key .address ⟨[97, 98, 99, 100, 101, 102, 103, 104, 105, 106, 107, 108, 109, 110, 111,
          112, 113, 114, 115, 116], rfl⟩, 1⟩ : Author) ∧
      Owner.ofPayload (.key .publicKey) (Owner.payload (.name ⟨"abcdefghijklmnopqrst"⟩)) =
        .error (.payload (.invalidLength .publicKey 20)) := by
  have hcontent : (Owner.content (.name ⟨"abcdefghijklmnopqrst"⟩)).length = 20 := by cbv
  have hfits : Fits ⟨.name ⟨"abcdefghijklmnopqrst"⟩, 1⟩ := by
    show List.length _ < 2 ^ 64
    decide +kernel
  have hsame : Owner.Coincides (.name ⟨"abcdefghijklmnopqrst"⟩) (.key .address ⟨[97, 98, 99, 100, 101,
      102, 103, 104, 105, 106, 107, 108, 109, 110, 111, 112, 113, 114, 115, 116], rfl⟩) :=
    .nameKey (by cbv)
  have hshort : Name.byteLength ⟨"abcdefghijklmnopqrst"⟩ ≠ KeyKind.publicKey.length := by
    show _ ≠ 65
    rw [show Name.byteLength ⟨"abcdefghijklmnopqrst"⟩ = 20 from hcontent]
    decide
  have hpayload := decode_retagged.1 (.name ⟨"abcdefghijklmnopqrst"⟩)
  have hlt : (Owner.content (.name ⟨"abcdefghijklmnopqrst"⟩)).length < 2 ^ 64 := by omega
  constructor
  · rw [show (2 : UInt8) = (Scheme.key .address).tag from rfl,
      (decode_retagged.2 _ (.key .address) hfits).1,
      (hpayload (.key .address) hlt _).mpr (.coincidence hsame)]
    rfl
  · have hrefused := Owner.ReadAs.wrongLength hshort
    rw [show Name.byteLength ⟨"abcdefghijklmnopqrst"⟩ = 20 from hcontent] at hrefused
    exact (hpayload (.key .publicKey) hlt _).mpr hrefused

end Author

end Mandate
