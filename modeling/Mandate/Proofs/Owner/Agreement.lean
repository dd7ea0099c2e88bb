/-
Where the ways to make an owner of a text agree.

They differ in three things: which marks they take off, what they do about the number of digits, and
whether they refuse at all.  A text that is an owner in the strictest sense is the same owner for all
of them, unless its mark is in the spelling that only parsing knows.  A text that the strict factory
accepts is parsed as the same owner, or refused for nothing but its length.  So no text is one owner
here and another one there, except where the lenient factory has warned.
-/
import Mandate.Proofs.Owner.Recovery

namespace Mandate
namespace Owner

variable {k : KeyKind} {text : String} {o : Owner}

/-! ## Marks -/

theorem unmarked_stripLowerMark (text : List Char) :
    Unmarked [['0', 'x']] text (stripLowerMark text) := by
  by_cases hmark : ['0', 'x'] <+: text
  · obtain ⟨digits, rfl⟩ := hmark
    exact .marked ['0', 'x'] (.head _) rfl
  · rw [stripLowerMark_of_not hmark]
    exact .bare (List.forall_mem_singleton.mpr hmark)

theorem unmarked_iff {text digits : List Char} :
    Unmarked [['0', 'x']] text digits ↔ digits = stripLowerMark text :=
  (unmarked_stripLowerMark text).iff_eq (n := 2) (by decide)

/-- The two ways to take off a mark differ on one spelling only. -/
theorem stripMark_of_not {text : List Char} (h : ¬ ['0', 'X'] <+: text) :
    Key.stripMark text = stripLowerMark text := by
  unfold Key.stripMark
  split
  · rfl
  · exact absurd (List.prefix_append ['0', 'X'] _) h
  · rename_i hlower _
    refine (stripLowerMark_of_not fun hmark => ?_).symm
    obtain ⟨digits, rfl⟩ := hmark
    exact hlower digits rfl

/-! ## From parsing to the factories -/

theorem parse_key_eq_ok_iff :
    parse (.key k) text = .ok o ↔ ∃ key, Key.parse k text = .ok key ∧ o = .key k key := by
  show ((Key.parse k text).map (Owner.key k)).mapError AuthorError.payload = .ok o ↔ _
  rw [Except.mapError_eq_ok_iff, Except.map_eq_ok_iff]
  simp only [eq_comm]

theorem generate_of_parse (h : parse (.key k) text = .ok o)
    (hmark : ¬ ['0', 'X'] <+: text.toList) : generate (.key k) text = .ok o := by
  obtain ⟨key, hkey, rfl⟩ := parse_key_eq_ok_iff.mp h
  have hspells := Key.parse_eq_ok_iff.mp hkey
  rw [stripMark_of_not hmark] at hspells
  have hpadded : FixedBytes.padLeft k.length key.bytes = key := key.padLeft_bytes
  rw [generate_of_spells hspells, hpadded]

theorem generate_of_upperMark (h : parse (.key k) text = .ok o)
    (hmark : ['0', 'X'] <+: text.toList) :
    generate (.key k) text = .error (.payload (.invalidHex k (.invalidDigit 0x58 1))) := by
  obtain ⟨key, hkey, rfl⟩ := parse_key_eq_ok_iff.mp h
  obtain ⟨digits, hdigits⟩ := hmark
  have hspells : Hex.Spells key.bytes digits := by
    have hstripped := Key.parse_eq_ok_iff.mp hkey
    rwa [← hdigits] at hstripped
  have hbytes : Utf8.encodeChars ('0' :: 'X' :: digits) =
      [0x30] ++ 0x58 :: Utf8.encodeChars digits := by
    rw [Utf8.encodeChars_cons, Utf8.encodeChars_cons]
    rfl
  have heven : (Utf8.encodeChars ('0' :: 'X' :: digits)).length % 2 = 0 := by
    have hlen := Hex.length_of_spells hspells
    simp only [hbytes, List.singleton_append, List.length_cons, hlen]
    omega
  have hzero : ∀ b ∈ [0x30], Hex.IsDigitByte b := List.forall_mem_singleton.mpr (by decide)
  have hX : ¬ Hex.IsDigitByte 0x58 := by decide
  have hfaulty : Hex.Faulty ('0' :: 'X' :: digits) (.invalidDigit 0x58 1) :=
    .invalidDigit heven hbytes hzero hX
  refine generate_of_faulty ?_
  rw [← hdigits]
  exact hfaulty

theorem recover_of_upperMark {text : List Char} (h : ['0', 'X'] <+: text) : recover text = [] := by
  obtain ⟨digits, rfl⟩ := h
  show Hex.decodeLeading (Utf8.encodeChars ('0' :: 'X' :: digits)) = []
  rw [Utf8.encodeChars_cons, Utf8.encodeChars_cons]
  rfl

/-! ## From the strict factory to parsing -/

theorem parse_of_generate (h : generate (.key k) text = .ok o) :
    parse (.key k) text =
      if (stripLowerMark text.toList).length = 2 * k.length then .ok o
      else .error (.payload (.invalidLength k ((stripLowerMark text.toList).length / 2))) := by
  obtain ⟨bs, hspells, rfl⟩ := generate_eq_ok_iff.mp h
  have hlen := hspells.length_eq
  have hmark : ¬ ['0', 'X'] <+: text.toList := by
    rintro ⟨digits, hdigits⟩
    rw [← hdigits] at hspells
    have hX : 'X' ∉ stripLowerMark ('0' :: 'X' :: digits) := hspells.not_mem rfl
    exact hX (.tail _ (.head _))
  have hread : Key.parse k text = Key.ofBytes k bs :=
    Key.parse_of_spells (by rwa [stripMark_of_not hmark])
  show ((Key.parse k text).map (Owner.key k)).mapError AuthorError.payload = _
  rw [hread]
  by_cases hbs : bs.length = k.length
  · obtain ⟨key, rfl, hkey⟩ := Key.ofBytes_of_length hbs
    have hpadded : FixedBytes.padLeft k.length key.bytes = key := key.padLeft_bytes
    rw [if_pos (by omega), hkey, hpadded]
    rfl
  · have hfound : (stripLowerMark text.toList).length / 2 = bs.length := by omega
    rw [if_neg (by omega), Key.ofBytes_of_ne hbs, hfound]
    rfl

/-! ## Printed owners -/

theorem generate_toText (o : Owner) : generate o.scheme o.toText = .ok o := by
  cases o with
  | name n => rfl
  | key k key =>
    refine generate_of_parse (parse_of_spelledBy (spelledBy_toText (.key k key))) ?_
    show ¬ ['0', 'X'] <+: ("0x" ++ Hex.encode key.bytes).toList
    rw [String.toList_append]
    rintro ⟨digits, hdigits⟩
    cases hdigits

/-- What is parsed is what both factories make of it, except behind a mark in the spelling that they
do not know: the strict one refuses it at its second byte, and the lenient one finds nothing.  What the
strict factory makes of a text is parsed as the same or refused for its length.  All three read back
what is printed. -/
theorem parse_generate_agree :
    (∀ s text o, parse s text = .ok o → (s = .account ∨ ¬ ['0', 'X'] <+: text.toList) →
      generate s text = .ok o ∧ generateLenient s text = (o, none)) ∧
    (∀ k text o, parse (.key k) text = .ok o → ['0', 'X'] <+: text.toList →
      generate (.key k) text = .error (.payload (.invalidHex k (.invalidDigit 0x58 1))) ∧
      (generateLenient (.key k) text).1 = .key k (FixedBytes.zero k.length)) ∧
    (∀ text o, generate .account text = .ok o → parse .account text = .ok o) ∧
    (∀ k text o, generate (.key k) text = .ok o → ∃ digits,
      (∀ ds, Unmarked [['0', 'x']] text.toList ds ↔ ds = digits) ∧
      parse (.key k) text =
        if digits.length = 2 * k.length then .ok o
        else .error (.payload (.invalidLength k (digits.length / 2)))) ∧
    ∀ o : Owner, parse o.scheme o.toText = .ok o ∧ generate o.scheme o.toText = .ok o ∧
      generateLenient o.scheme o.toText = (o, none) := by
  refine ⟨fun s text o h hmark => ?_, fun k text o h hmark => ?_, fun text o h => h,
    fun k text o h => ⟨_, fun _ => unmarked_iff, parse_of_generate h⟩, fun o => ?_⟩
  · cases s with
    | account =>
      cases h
      exact ⟨rfl, rfl⟩
    | key k =>
      rcases hmark with hscheme | hmark
      · cases hscheme
      · have hread := generate_of_parse h hmark
        exact ⟨hread, generateLenient_of_ok hread⟩
  · refine ⟨generate_of_upperMark h hmark, ?_⟩
    rw [generateLenient_owner, recover_of_upperMark hmark, FixedBytes.padLeft_nil]
  · refine ⟨parse_of_spelledBy o.spelledBy_toText, generate_toText o, ?_⟩
    cases o with
    | name n => rfl
    | key k key => exact generateLenient_of_ok (generate_toText (.key k key))

/-- One address behind each mark, and a text that is only short. -/
theorem parse_generate_agree_marks :
    parse (.key .address) "0x00000000000000000000000000000000000000aB" =
        .ok (.key .address (FixedBytes.padLeft 20 [0xAB])) ∧
      generate (.key .address) "0x00000000000000000000000000000000000000aB" =
        .ok (.key .address (FixedBytes.padLeft 20 [0xAB])) ∧
      parse (.key .address) "0X00000000000000000000000000000000000000aB" =
        .ok (.key .address (FixedBytes.padLeft 20 [0xAB])) ∧
      generate (.key .address) "0X00000000000000000000000000000000000000aB" =
        .error (.payload (.invalidHex .address (.invalidDigit 0x58 1))) ∧
      generate (.key .address) "0xaB" = .ok (.key .address (FixedBytes.padLeft 20 [0xAB])) ∧
      parse (.key .address) "0xaB" = .error (.payload (.invalidLength .address 1)) := by
  have hlower : parse (.key .address) "0x00000000000000000000000000000000000000aB" =
      .ok (.key .address (FixedBytes.padLeft 20 [0xAB])) := by cbv
  have hupper : parse (.key .address) "0X00000000000000000000000000000000000000aB" =
      .ok (.key .address (FixedBytes.padLeft 20 [0xAB])) := by cbv
  have hshort : generate (.key .address) "0xaB" =
      .ok (.key .address (FixedBytes.padLeft 20 [0xAB])) := by cbv
  obtain ⟨hagree, hrefused, -, hparse, -⟩ := parse_generate_agree
  have hgenerated := hagree _ _ _ hlower (Or.inr (by decide))
  have hlost := hrefused _ _ _ hupper (by decide)
  obtain ⟨digits, hdigits, hread⟩ := hparse _ _ _ hshort
  obtain rfl : ['a', 'B'] = digits :=
    (hdigits _).mp (.marked ['0', 'x'] (.head _) (by decide))
  exact ⟨hlower, hgenerated.1, hupper, hlost.1, hshort, hread⟩

end Owner
end Mandate
