/-
The strict factory, in numbers.

After the mark, if there is one, the input has to be digits that spell bytes.  Of these the key keeps
the last ones, or gets zeros in front of them, and so it is the number of the digits modulo what a key
can hold.
-/
import Mandate.Owner.Factory
import Mandate.Proofs.Hex.Number
import Mandate.Proofs.Identity.Text
import Mathlib

namespace Mandate
namespace Owner

variable {k : KeyKind} {input : String}

theorem stripLowerMark_of_not {text : List Char} (h : ¬ ['0', 'x'] <+: text) :
    stripLowerMark text = text := by
  unfold stripLowerMark
  split
  · exact absurd (List.prefix_append ['0', 'x'] _) h
  · rfl

theorem generate_eq_ok_iff {o : Owner} : generate (.key k) input = .ok o ↔
    ∃ bs, Hex.Spells bs (stripLowerMark input.toList) ∧
      .key k (FixedBytes.padLeft k.length bs) = o := by
  simp only [generate, Except.mapError_eq_ok_iff, Except.map_eq_ok_iff,
    Key.decodeDigits_eq_ok_iff]

theorem generate_of_spells {bs : Bytes} (h : Hex.Spells bs (stripLowerMark input.toList)) :
    generate (.key k) input = .ok (.key k (FixedBytes.padLeft k.length bs)) :=
  generate_eq_ok_iff.mpr ⟨bs, h, rfl⟩

theorem generate_of_faulty {f : Hex.Fault} (h : Hex.Faulty (stripLowerMark input.toList) f) :
    generate (.key k) input = .error (.payload (.invalidHex k f)) := by
  rw [generate, Key.decodeDigits_eq_error_iff.mpr ⟨f, h, rfl⟩]
  rfl

theorem generate_mark {h : String} (hmark : ¬ ['0', 'x'] <+: h.toList) :
    generate (.key k) ("0x" ++ h) = generate (.key k) h := by
  have hstrip : stripLowerMark ("0x" ++ h).toList = stripLowerMark h.toList := by
    rw [stripLowerMark_of_not hmark, String.toList_append]
    rfl
  simp only [generate, hstrip]

theorem generate_succeeds_iff (hmark : ¬ ['0', 'x'] <+: input.toList) :
    (∃ o, generate (.key k) input = .ok o) ↔
      (Utf8.encode input).length % 2 = 0 ∧ ∀ b ∈ Utf8.encode input, Hex.IsDigitByte b := by
  constructor
  · rintro ⟨o, ho⟩
    obtain ⟨bs, hspells, -⟩ := generate_eq_ok_iff.mp ho
    rw [stripLowerMark_of_not hmark] at hspells
    have hlen := Hex.length_of_spells hspells
    exact ⟨by rw [Utf8.encode, hlen]; omega, hspells.isDigitByte⟩
  · rintro ⟨heven, hdigits⟩
    obtain ⟨bs, hspells⟩ := Hex.exists_spells heven hdigits
    rw [← stripLowerMark_of_not hmark] at hspells
    exact ⟨_, generate_of_spells hspells⟩

/-- Pairs of zeros in front of an input that has no mark. -/
theorem generate_zeros (hmark : ¬ ['0', 'x'] <+: input.toList) (n : Nat) {o : Owner} :
    generate (.key k) (String.ofList (List.replicate (2 * n) '0') ++ input) = .ok o ↔
      generate (.key k) input = .ok o := by
  have hlist : (String.ofList (List.replicate (2 * n) '0') ++ input).toList =
      List.replicate (2 * n) '0' ++ input.toList := by
    rw [String.toList_append, String.toList_ofList]
  have hnone : ¬ ['0', 'x'] <+: List.replicate (2 * n) '0' ++ input.toList := by
    cases n with
    | zero => exact hmark
    | succ n =>
      rw [Nat.mul_succ, List.replicate_succ, List.replicate_succ, List.cons_append,
        List.cons_append, List.cons_prefix_cons, List.cons_prefix_cons]
      rintro ⟨-, hx, -⟩
      cases hx
  rw [generate_eq_ok_iff, generate_eq_ok_iff, hlist, stripLowerMark_of_not hmark,
    stripLowerMark_of_not hnone]
  simp only [Hex.spells_zeros_iff]
  constructor
  · rintro ⟨_, ⟨bs, hspells, rfl⟩, rfl⟩
    exact ⟨bs, hspells, by rw [FixedBytes.padLeft_zeros_append]⟩
  · rintro ⟨bs, hspells, rfl⟩
    exact ⟨_, ⟨bs, hspells, rfl⟩, by rw [FixedBytes.padLeft_zeros_append]⟩

/-- The mark makes no difference.  What is accepted are even numbers of digits, and the key is their
number, as far as it can hold it: zeros in front do not count, and of more bytes than a key has the
last ones are kept. -/
theorem generate_number_mod (k : KeyKind) (h : String) (hmark : ¬ ['0', 'x'] <+: h.toList) :
    generate (.key k) ("0x" ++ h) = generate (.key k) h ∧
    ((∃ o, generate (.key k) h = .ok o) ↔
      (Utf8.encode h).length % 2 = 0 ∧ ∀ b ∈ Utf8.encode h, Hex.IsDigitByte b) ∧
    (∀ o, generate (.key k) h = .ok o → ∃ key : Key k, o = .key k key ∧
      key.bytes.toNat = Hex.value h.toList % 256 ^ k.length) ∧
    (∀ n o, generate (.key k) (String.ofList (List.replicate (2 * n) '0') ++ h) = .ok o ↔
      generate (.key k) h = .ok o) ∧
    ∀ bs, Hex.Spells bs h.toList → k.length ≤ bs.length →
      ∃ key : Key k, generate (.key k) h = .ok (.key k key) ∧ key.bytes <:+ bs := by
  refine ⟨generate_mark hmark, generate_succeeds_iff hmark, fun o ho => ?_,
    fun n o => generate_zeros hmark n, fun bs hspells hlong => ?_⟩
  · obtain ⟨bs, hspells, rfl⟩ := generate_eq_ok_iff.mp ho
    rw [stripLowerMark_of_not hmark] at hspells
    refine ⟨_, rfl, ?_⟩
    rw [FixedBytes.toNat_padLeft, Hex.toNat_of_spells hspells]
  · rw [← stripLowerMark_of_not hmark] at hspells
    exact ⟨_, generate_of_spells hspells, FixedBytes.padLeft_suffix hlong⟩

/-- Twenty-one bytes for an address, of which the first one is lost. -/
theorem generate_number_mod_long :
    ¬ ['0', 'x'] <+: "Ff00000000000000000000000000000000000000aB".toList ∧
      generate (.key .address) ("0x" ++ "Ff00000000000000000000000000000000000000aB") =
        generate (.key .address) "Ff00000000000000000000000000000000000000aB" ∧
      ∃ key : Key .address,
        generate (.key .address) "Ff00000000000000000000000000000000000000aB" =
          .ok (.key .address key) ∧
        key.bytes <:+ [0xFF, 0, 0, 0, 0, 0, 0, 0, 0, 0, 0, 0, 0, 0, 0, 0, 0, 0, 0, 0, 0xAB] ∧
        key.bytes.toNat = 0xAB := by
  have hmark : ¬ ['0', 'x'] <+: "Ff00000000000000000000000000000000000000aB".toList := by decide
  have hspells : Hex.Spells
      [0xFF, 0, 0, 0, 0, 0, 0, 0, 0, 0, 0, 0, 0, 0, 0, 0, 0, 0, 0, 0, 0xAB]
      "Ff00000000000000000000000000000000000000aB".toList :=
    Hex.decode_eq_ok_iff.mp (by cbv)
  have hvalue : Hex.value "Ff00000000000000000000000000000000000000aB".toList % 256 ^ 20 =
      0xAB := by decide
  obtain ⟨hsame, -, hnumber, -, hlong⟩ := generate_number_mod .address _ hmark
  obtain ⟨key, hkey, hsuffix⟩ := hlong _ hspells (by decide)
  obtain ⟨key', heq, hmod⟩ := hnumber _ hkey
  cases heq
  exact ⟨hmark, hsame, key, hkey, hsuffix, hmod.trans hvalue⟩

end Owner
end Mandate
