/-
What the lenient factory makes of an input.

It is put together from two ways of reading digits: all of them, as the strict factory does, or the
leading ones of a part of the input.  They are one.  Where the strict factory accepts, all that follows
the mark is digits, so no other mark can follow, and the leading digits are all of them.
-/
import Mandate.Proofs.Owner.Factory

namespace Mandate

namespace Owner

/-! ## The part that counts -/

/-- The part of an input that the lenient factory looks at: behind a mark in front, what stands before
the next mark or the end, and all of an input that starts with no mark. -/
inductive LooksAt (input : List Char) : List Char → Prop
  | marked {part rest : List Char} : input = ['0', 'x'] ++ part ++ rest → ¬ ['0', 'x'] <:+: part →
      (rest = [] ∨ ['0', 'x'] <+: rest) → LooksAt input part
  | bare : ¬ ['0', 'x'] <+: input → LooksAt input input

/-- A mark cannot begin in the part and end behind it, because what is behind it begins with a mark. -/
theorem beforeMark_append {part rest : List Char} (hpart : ¬ ['0', 'x'] <:+: part)
    (hrest : rest = [] ∨ ['0', 'x'] <+: rest) : beforeMark (part ++ rest) = part := by
  induction part with
  | nil =>
    rcases hrest with rfl | ⟨tail, rfl⟩ <;> rfl
  | cons c part ih =>
    have hnext : ∀ tail, c = '0' → part ++ rest ≠ 'x' :: tail := by
      rintro tail rfl htail
      cases part with
      | nil =>
        rcases hrest with rfl | ⟨_, rfl⟩ <;> cases htail
      | cons d part =>
        obtain ⟨rfl, -⟩ := List.cons.inj htail
        exact hpart (List.prefix_append ['0', 'x'] part).isInfix
    rw [List.cons_append, beforeMark.eq_3 _ _ fun tail hc htail => hnext tail hc htail,
      ih fun h => hpart (List.infix_cons h)]

theorem beforeMark_spec (text : List Char) :
    ∃ rest, text = beforeMark text ++ rest ∧ ¬ ['0', 'x'] <:+: beforeMark text ∧
      (rest = [] ∨ ['0', 'x'] <+: rest) := by
  induction text using beforeMark.induct with
  | case1 => exact ⟨[], rfl, by simp [beforeMark], Or.inl rfl⟩
  | case2 tail => exact ⟨_, rfl, by simp [beforeMark], Or.inr (List.prefix_append _ tail)⟩
  | case3 c text hmark ih =>
    obtain ⟨rest, htext, hpart, hrest⟩ := ih
    rw [beforeMark.eq_3 _ _ hmark]
    refine ⟨rest, by rw [List.cons_append, ← htext], ?_, hrest⟩
    rw [List.infix_cons_iff]
    rintro (⟨tail, hmarked⟩ | h)
    · obtain ⟨rfl, hx⟩ := List.cons.inj hmarked
      exact hmark (tail ++ rest) rfl (by rw [htext, ← hx]; rfl)
    · exact hpart h

theorem exists_looksAt (input : List Char) : ∃ part, LooksAt input part := by
  by_cases h : ['0', 'x'] <+: input
  · obtain ⟨text, rfl⟩ := h
    obtain ⟨rest, htext, hpart, hrest⟩ := beforeMark_spec text
    exact ⟨beforeMark text, .marked (by rw [List.append_assoc, ← htext]) hpart hrest⟩
  · exact ⟨input, .bare h⟩

namespace LooksAt

variable {input part part' : List Char}

theorem eq_beforeMark {text : List Char} (h : LooksAt (['0', 'x'] ++ text) part) :
    part = beforeMark text := by
  generalize hinput : ['0', 'x'] ++ text = input at h
  cases h with
  | marked hmarked hpart hrest =>
    subst hmarked
    rw [List.append_assoc, List.append_cancel_left_eq] at hinput
    rw [hinput, beforeMark_append hpart hrest]
  | bare hnone =>
    subst hinput
    exact absurd (List.prefix_append _ text) hnone

theorem eq_of_not_mark (hnone : ¬ ['0', 'x'] <+: input) (h : LooksAt input part) :
    part = input := by
  cases h with
  | @marked _ rest hmarked _ _ =>
    rw [List.append_assoc] at hmarked
    exact absurd ⟨part ++ rest, hmarked.symm⟩ hnone
  | bare _ => rfl

theorem unique (h : LooksAt input part) (h' : LooksAt input part') : part' = part := by
  by_cases hmark : ['0', 'x'] <+: input
  · obtain ⟨text, rfl⟩ := hmark
    rw [h.eq_beforeMark, h'.eq_beforeMark]
  · rw [eq_of_not_mark hmark h, eq_of_not_mark hmark h']

theorem recover_eq (h : LooksAt input part) :
    recover input = Hex.decodeLeading (Utf8.encodeChars part) := by
  by_cases hmark : ['0', 'x'] <+: input
  · obtain ⟨text, rfl⟩ := hmark
    rw [h.eq_beforeMark]
    rfl
  · rw [eq_of_not_mark hmark h]
    unfold recover
    split
    · exact absurd (List.prefix_append ['0', 'x'] _) hmark
    · rfl

end LooksAt

/-! ## Recovering -/

variable {k : KeyKind} {input : String}

/-- Behind the mark an accepted input has no other one. -/
theorem looksAt_of_spells {bs : Bytes} {text : List Char}
    (h : Hex.Spells bs (stripLowerMark text)) : LooksAt text (stripLowerMark text) := by
  by_cases hmark : ['0', 'x'] <+: text
  · obtain ⟨digits, rfl⟩ := hmark
    have hx : 'x' ∉ digits := h.not_mem rfl
    refine .marked (List.append_nil _).symm (fun hinfix => hx ?_) (Or.inl rfl)
    exact hinfix.subset (by simp)
  · rw [stripLowerMark_of_not hmark]
    exact .bare hmark

theorem recover_of_spells {bs : Bytes} {text : List Char}
    (h : Hex.Spells bs (stripLowerMark text)) : recover text = bs := by
  have hread := Hex.decodeLeading_of_spells h []
  rw [List.append_nil] at hread
  rw [(looksAt_of_spells h).recover_eq, hread]
  exact List.append_nil bs

theorem generateLenient_of_ok {o : Owner} (h : generate (.key k) input = .ok o) :
    generateLenient (.key k) input = (o, none) := by
  simp only [generateLenient, h]

theorem generateLenient_of_error {e : AuthorError} (h : generate (.key k) input = .error e) :
    generateLenient (.key k) input =
      (.key k (FixedBytes.padLeft k.length (recover input.toList)),
        some ⟨.key k, e, (recover input.toList).length⟩) := by
  simp only [generateLenient, h]

/-- The owner is that of the recovered bytes, accepted or not. -/
theorem generateLenient_owner (k : KeyKind) (input : String) :
    (generateLenient (.key k) input).1 =
      .key k (FixedBytes.padLeft k.length (recover input.toList)) := by
  cases h : generate (.key k) input with
  | ok o =>
    obtain ⟨bs, hspells, rfl⟩ := generate_eq_ok_iff.mp h
    rw [generateLenient_of_ok h, recover_of_spells hspells]
  | error e => rw [generateLenient_of_error h]

/-- It warns of what the strict factory says. -/
theorem generateLenient_warning {r : Recovery} :
    (generateLenient (.key k) input).2 = some r ↔
      ∃ e, generate (.key k) input = .error e ∧ r = ⟨.key k, e, (recover input.toList).length⟩ := by
  cases h : generate (.key k) input with
  | ok o =>
    rw [generateLenient_of_ok h]
    simp
  | error e =>
    rw [generateLenient_of_error h]
    simp [eq_comm]

/-- A name is the input, without a warning.  A key is made of all the bytes that the first digits of
the part that counts can spell, and there is a warning exactly where the strict factory refuses the
input. -/
theorem generateLenient_recovers :
    (∀ input, generateLenient .account input = (.name ⟨input⟩, none)) ∧
    ∀ (k : KeyKind) (input : String), ∃ part bs digits,
      (∀ p, LooksAt input.toList p ↔ p = part) ∧
      IsGreatest {n | 2 * n ≤ (Utf8.encodeChars part).length ∧
        ∀ b ∈ (Utf8.encodeChars part).take (2 * n), Hex.IsDigitByte b} bs.length ∧
      Hex.Spells bs digits ∧
      (Utf8.encodeChars part).take (2 * bs.length) = Utf8.encodeChars digits ∧
      (generateLenient (.key k) input).1 = .key k (FixedBytes.padLeft k.length bs) ∧
      ∀ r, (generateLenient (.key k) input).2 = some r ↔
        ∃ e, generate (.key k) input = .error e ∧ r = ⟨.key k, e, bs.length⟩ := by
  refine ⟨fun input => rfl, fun k input => ?_⟩
  obtain ⟨part, hpart⟩ := exists_looksAt input.toList
  obtain ⟨digits, rest, hspells, hbytes⟩ :=
    Hex.exists_spells_decodeLeading (Utf8.encodeChars part)
  have hgreatest := Hex.isGreatest_length_decodeLeading (Utf8.encodeChars part)
  have hlen := Hex.length_of_spells hspells
  rw [← hpart.recover_eq] at hspells hgreatest hlen
  refine ⟨part, _, digits, fun p => ⟨hpart.unique, ?_⟩, hgreatest, hspells, ?_,
    generateLenient_owner k input, fun r => generateLenient_warning⟩
  · rintro rfl
    exact hpart
  · rw [← hlen, hbytes, List.take_left]

/-- The second mark begins at a digit that would have made a pair with the one before it. -/
example : (generateLenient (.key .address) "0xab00xcd").1 =
    .key .address (FixedBytes.padLeft 20 [0xAB]) := by
  decide

end Owner
end Mandate
