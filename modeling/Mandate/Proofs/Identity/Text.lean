/-
What reading the text of a key comes to, on every text.

The mark is taken off first, once and in either spelling, and all that is left has to be digits.  The
three complaints have an order.  An odd number of digits hides a character that is no digit, and
either of them hides a wrong length.  What none of them applies to is a key, and the key is printed
with the same digits in lowercase; so there is one text for each key among the texts that are read
as it, and reading and printing settle on that text.
-/
import Mandate.Proofs.Document.RoundTrip
import Mandate.Proofs.Hex.Outcome
import Mathlib

namespace Mandate

open Json

/-! ## Marks -/

/-- What is left of a text without one of these marks in front of it, or all of a text that starts
with none of them. -/
inductive Unmarked (marks : List (List Char)) (text : List Char) : List Char → Prop
  | marked (mark : List Char) {digits : List Char} : mark ∈ marks → text = mark ++ digits →
      Unmarked marks text digits
  | bare : (∀ mark ∈ marks, ¬ mark <+: text) → Unmarked marks text text

/-- There is only one way to take off a mark if all marks have the same length. -/
theorem Unmarked.unique {marks : List (List Char)} {n : Nat}
    (hlen : ∀ mark ∈ marks, mark.length = n) {text digits digits' : List Char}
    (h : Unmarked marks text digits) (h' : Unmarked marks text digits') : digits' = digits := by
  cases h with
  | marked mark hmark htext =>
    cases h' with
    | marked mark' hmark' htext' =>
      have hsame : mark'.length = mark.length := (hlen mark' hmark').trans (hlen mark hmark).symm
      exact (List.append_inj (htext'.symm.trans htext) hsame).2
    | bare hnone => exact absurd ⟨digits, htext.symm⟩ (hnone mark hmark)
  | bare hnone =>
    cases h' with
    | marked mark' hmark' htext' => exact absurd ⟨digits', htext'.symm⟩ (hnone mark' hmark')
    | bare _ => rfl

theorem Unmarked.iff_eq {marks : List (List Char)} {n : Nat}
    (hlen : ∀ mark ∈ marks, mark.length = n) {text digits digits' : List Char}
    (h : Unmarked marks text digits) : Unmarked marks text digits' ↔ digits' = digits := by
  refine ⟨h.unique hlen, ?_⟩
  rintro rfl
  exact h

namespace Key

variable {k : KeyKind}

theorem unmarked_stripMark (text : List Char) :
    Unmarked [['0', 'x'], ['0', 'X']] text (stripMark text) := by
  unfold stripMark
  split
  · exact .marked ['0', 'x'] (.head _) rfl
  · exact .marked ['0', 'X'] (.tail _ (.head _)) rfl
  · rename_i hx hX
    refine .bare fun mark hmark hprefix => ?_
    obtain ⟨digits, rfl⟩ := hprefix
    simp only [List.mem_cons, List.not_mem_nil, or_false] at hmark
    rcases hmark with rfl | rfl
    · exact hx digits rfl
    · exact hX digits rfl

theorem unmarked_iff {text digits : List Char} :
    Unmarked [['0', 'x'], ['0', 'X']] text digits ↔ digits = stripMark text :=
  (unmarked_stripMark text).iff_eq (n := 2) (by decide)

/-! ## Reading -/

theorem decodeDigits_eq_ok_iff {digits : List Char} {bs : Bytes} :
    decodeDigits k digits = .ok bs ↔ Hex.Spells bs digits := by
  rw [decodeDigits, Except.mapError_eq_ok_iff, Hex.decode_eq_ok_iff]

theorem decodeDigits_eq_error_iff {digits : List Char} {e : IdentityError} :
    decodeDigits k digits = .error e ↔ ∃ f, Hex.Faulty digits f ∧ .invalidHex k f = e := by
  simp only [decodeDigits, Except.mapError_eq_error_iff, Hex.decode_eq_error_iff]

theorem ofBytes_of_length {bs : Bytes} (h : bs.length = k.length) :
    ∃ key : Key k, key.bytes = bs ∧ ofBytes k bs = .ok key :=
  ⟨⟨bs, h⟩, rfl, ofBytes_eq_ok_iff.mpr rfl⟩

theorem ofBytes_of_ne {bs : Bytes} (h : bs.length ≠ k.length) :
    ofBytes k bs = .error (.invalidLength k bs.length) := by
  simp only [ofBytes, FixedBytes.ofBytes?, dif_neg h]

theorem parse_of_faulty {text : String} {f : Hex.Fault}
    (h : Hex.Faulty (stripMark text.toList) f) : parse k text = .error (.invalidHex k f) := by
  rw [parse, decodeDigits_eq_error_iff.mpr ⟨f, h, rfl⟩]
  rfl

theorem parse_of_spells {text : String} {bs : Bytes}
    (h : Hex.Spells bs (stripMark text.toList)) : parse k text = ofBytes k bs := by
  rw [parse, decodeDigits_eq_ok_iff.mpr h]
  rfl

theorem parse_eq_ok_iff {text : String} {key : Key k} :
    parse k text = .ok key ↔ Hex.Spells key.bytes (stripMark text.toList) := by
  simp only [parse, Except.bind_eq_ok_iff, decodeDigits_eq_ok_iff, ofBytes_eq_ok_iff,
    exists_eq_right]

theorem parse_toText (key : Key k) : parse k key.toText = .ok key :=
  parse_of_spelledBy key.spelledBy_toText

theorem toText_injective {key key' : Key k} (h : key.toText = key'.toText) : key = key' := by
  have hread := parse_toText key
  rw [h, parse_toText] at hread
  exact (Except.ok.inj hread).symm

theorem toText_of_spells {key : Key k} {digits : List Char} (h : Hex.Spells key.bytes digits) :
    key.toText = "0x" ++ String.ofList (digits.map Char.toLower) := by
  rw [toText, Hex.encode, Hex.encodeChars_of_spells h]
  rfl

/-! ## The verdict -/

/-- What the digits of a text come to: what is wrong with them as digits, or else with their number,
or else the key that is printed with them in lowercase. -/
inductive Verdict (k : KeyKind) (digits : List Char) : Except IdentityError (Key k) → Prop
  | invalidHex {f : Hex.Fault} : Hex.Faulty digits f → Verdict k digits (.error (.invalidHex k f))
  | invalidLength : (Utf8.encodeChars digits).length % 2 = 0 →
      (∀ b ∈ Utf8.encodeChars digits, Hex.IsDigitByte b) →
      (Utf8.encodeChars digits).length ≠ 2 * k.length →
      Verdict k digits (.error (.invalidLength k ((Utf8.encodeChars digits).length / 2)))
  | key {key : Key k} : (∀ b ∈ Utf8.encodeChars digits, Hex.IsDigitByte b) →
      (Utf8.encodeChars digits).length = 2 * k.length →
      key.toText = "0x" ++ String.ofList (digits.map Char.toLower) → Verdict k digits (.ok key)

theorem verdict_of_parse (text : String) : Verdict k (stripMark text.toList) (parse k text) := by
  rcases Hex.faulty_or_spells (stripMark text.toList) with ⟨f, hf⟩ | ⟨bs, hspells⟩
  · rw [parse_of_faulty hf]
    exact .invalidHex hf
  · have hlen := Hex.length_of_spells hspells
    rw [parse_of_spells hspells]
    by_cases hbs : bs.length = k.length
    · obtain ⟨key, rfl, hkey⟩ := ofBytes_of_length hbs
      rw [hkey]
      exact .key hspells.isDigitByte (by omega) (toText_of_spells hspells)
    · have hfound : bs.length = (Utf8.encodeChars (stripMark text.toList)).length / 2 := by omega
      rw [ofBytes_of_ne hbs, hfound]
      exact .invalidLength (by omega) hspells.isDigitByte (by omega)

theorem parse_of_verdict {text : String} {r : Except IdentityError (Key k)}
    (h : Verdict k (stripMark text.toList) r) : parse k text = r := by
  cases h with
  | invalidHex hf => exact parse_of_faulty hf
  | invalidLength heven hdigits hne =>
    obtain ⟨bs, hspells⟩ := Hex.exists_spells heven hdigits
    have hlen := Hex.length_of_spells hspells
    have hfound : (Utf8.encodeChars (stripMark text.toList)).length / 2 = bs.length := by omega
    rw [parse_of_spells hspells, ofBytes_of_ne (by omega), hfound]
  | @key key hdigits hcount htext =>
    obtain ⟨bs, hspells⟩ := Hex.exists_spells (by omega) hdigits
    have hlen := Hex.length_of_spells hspells
    have hbs : bs.length = k.length := by omega
    obtain ⟨read, rfl, hread⟩ := ofBytes_of_length hbs
    rw [parse_of_spells hspells, hread,
      toText_injective ((toText_of_spells hspells).trans htext.symm)]

theorem verdict_iff {text : String} {r : Except IdentityError (Key k)} :
    Verdict k (stripMark text.toList) r ↔ r = parse k text := by
  refine ⟨fun h => (parse_of_verdict h).symm, ?_⟩
  rintro rfl
  exact verdict_of_parse text

/-! ## Documents -/

theorem outline_of_text {text : String} {o : Outline} (h : Shape.Text text o) :
    (reader k).outline o = (parse k text).mapError fun e => .content (.refused e.message) := by
  show (Reader.text.outline o).bind _ = _
  rw [Reader.text_of_shape h]
  show ((parse k text).mapError _).mapError _ = _
  cases parse k text <;> rfl

theorem value_of_text (text : String) :
    (reader k).value (.string text) = (parse k text).mapError fun e => .refused e.message := by
  show ((parse k text).mapError _).mapError _ = _
  cases parse k text <;> rfl

end Key

theorem Json.Value.parse_of_text {text document : String}
    (h : (Shape.Text text).Prints document.toList) : Value.parse document = .ok (.string text) := by
  obtain ⟨o, hshape, hwritten⟩ := h
  cases hshape with
  | string hspells =>
    simp only [Value.parse, Document.ofText_written hwritten, Outline.value,
      StringLiteral.text_of_spells hspells]
    rfl

namespace Key

variable {k : KeyKind}

theorem read_of_text {text document : String} (h : (Shape.Text text).Prints document.toList) :
    (reader k).read document =
      (parse k text).mapError fun e => .content (.refused e.message) := by
  obtain ⟨o, hshape, hwritten⟩ := h
  rw [Reader.read_written hwritten, outline_of_text hshape]

theorem readThroughValue_of_text {text document : String}
    (h : (Shape.Text text).Prints document.toList) :
    (reader k).readThroughValue document =
      (parse k text).mapError fun e => .content (.refused e.message) := by
  rw [Reader.readThroughValue, Json.Value.parse_of_text h]
  show ((reader k).value (.string text)).mapError _ = _
  rw [value_of_text]
  cases parse k text <;> rfl

/-- Every text comes to exactly one verdict, and that is what all the readers of keys report, each
in its own form.  A printed key is read back, a text that is read and printed once does not change
when that is done again, and no text spells two keys. -/
theorem parse_verdict (k : KeyKind) :
    (∀ text, ∃ digits r,
      (∀ ds, Unmarked [['0', 'x'], ['0', 'X']] text.toList ds ↔ ds = digits) ∧
      (∀ r', Verdict k digits r' ↔ r' = r) ∧
      parse k text = r ∧
      Owner.parse (.key k) text = (r.map (Owner.key k)).mapError .payload ∧
      ∀ document, (Shape.Text text).Prints document.toList →
        (reader k).read document = r.mapError (fun e => .content (.refused e.message)) ∧
        (reader k).readThroughValue document =
          r.mapError fun e => .content (.refused e.message)) ∧
    (∀ key : Key k, parse k key.toText = .ok key) ∧
    (∀ text, ((parse k text).map toText).bind (fun printed => (parse k printed).map toText) =
      (parse k text).map toText) ∧
    ∀ text, {key : Key k | key.SpelledBy text}.Subsingleton := by
  refine ⟨fun text => ?_, parse_toText, fun text => ?_, fun text key h key' h' => ?_⟩
  · exact ⟨stripMark text.toList, parse k text, fun _ => unmarked_iff, fun _ => verdict_iff, rfl,
      rfl, fun _ hdocument => ⟨read_of_text hdocument, readThroughValue_of_text hdocument⟩⟩
  · cases parse k text with
    | error e => rfl
    | ok key =>
      show (parse k key.toText).map toText = .ok key.toText
      rw [parse_toText]
      rfl
  · have hread := parse_of_spelledBy h
    rw [parse_of_spelledBy h'] at hread
    exact (Except.ok.inj hread).symm

/-- A letter that is no digit, behind an escape in the document. -/
theorem parse_verdict_nonDigit :
    parse .address "0xé" = .error (.invalidHex .address (.invalidDigit 0xC3 0)) ∧
      (Shape.Text "0xé").Prints "\"0x\\u00e9\"".toList ∧
      (reader .address).read "\"0x\\u00e9\"" =
        .error (.content (.refused "invalid address hex: Invalid character 'Ã' at position 0")) := by
  have hparse : parse .address "0xé" = .error (.invalidHex .address (.invalidDigit 0xC3 0)) := by
    cbv
  have hplain {c : Char} (h : c = '0' ∨ c = 'x') : Piece.Written (.char c) [c] := by
    rcases h with rfl | rfl <;> exact .plain (by decide) (by decide) (by decide)
  have hescape : Piece.Written (.unit (((0 * 16 + 0) * 16 + 14) * 16 + 9))
      ['\\', 'u', '0', '0', 'e', '9'] :=
    .digits ⟨by decide, by decide⟩ ⟨by decide, by decide⟩ ⟨by decide, by decide⟩
      ⟨by decide, by decide⟩
  have hprints : (Shape.Text "0xé").Prints "\"0x\\u00e9\"".toList :=
    ⟨.string ⟨[.char '0', .char 'x', .unit 0xE9], none⟩,
      .string ⟨rfl, .char '0' (.char 'x' (.unit 'é' (by decide) .nil))⟩,
      rfl, .word ⟨rfl, [['0'], ['x'], _],
        .cons (hplain (Or.inl rfl)) (.cons (hplain (Or.inr rfl)) (.cons hescape .nil)), by simp⟩⟩
  obtain ⟨_, r, -, -, hr, -, hdocument⟩ := (parse_verdict .address).1 "0xé"
  refine ⟨hparse, hprints, ?_⟩
  have hmessage : (IdentityError.invalidHex .address (.invalidDigit 0xC3 0)).message =
      "invalid address hex: Invalid character 'Ã' at position 0" := by decide +kernel
  rw [(hdocument _ hprints).1, ← hr, hparse, ← hmessage]
  rfl

end Key
end Mandate
