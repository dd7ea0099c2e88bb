/-
What reading UTF-8 comes to, on every input.

The reader looks at one byte after another and stops as soon as no character can be completed any
more.  So the bytes that it has accepted of a character always begin one, and it never has to look
back: later bytes do not change what it has found.  These two facts carry everything here.  They
give the three outcomes of reading one character, in terms of the characters there are and not of
the ranges of their bytes, and from those what is wrong with bytes that are no text.
-/
import Mandate.Proofs.Decoder.Reads
import Mandate.Proofs.Utf8.Exact
import Mathlib

namespace Mandate
namespace Utf8

/-! ## Beginnings of characters -/

/-- The bytes begin a character, or are one. -/
def Begins (bs : Bytes) : Prop :=
  ∃ c : Char, bs <+: String.utf8EncodeChar c

/-- The bytes begin a character, and some of it is missing. -/
def CutOff (bs : Bytes) : Prop :=
  ∃ c : Char, bs <+: String.utf8EncodeChar c ∧ bs ≠ String.utf8EncodeChar c

theorem begins_nil : Begins [] :=
  ⟨'a', List.nil_prefix⟩

theorem Begins.of_prefix {bs cs : Bytes} (h : Begins cs) (hbs : bs <+: cs) : Begins bs := by
  obtain ⟨c, hc⟩ := h
  exact ⟨c, hbs.trans hc⟩

theorem CutOff.begins {bs : Bytes} (h : CutOff bs) : Begins bs := by
  obtain ⟨c, hc, -⟩ := h
  exact ⟨c, hc⟩

/-! ## Later bytes -/

/-- What a step comes to when these bytes follow. -/
def Step.followedBy (tail : Bytes) : Step → Step
  | char c rest => char c (rest ++ tail)
  | step => step

theorem continueChar_append {seen code low high more : Nat} {bs : Bytes}
    (h : continueChar seen code low high more bs ≠ .incomplete) (tail : Bytes) :
    continueChar seen code low high more (bs ++ tail) =
      (continueChar seen code low high more bs).followedBy tail := by
  induction more generalizing seen code low high bs with
  | zero => rfl
  | succ more ih =>
    cases bs with
    | nil => exact absurd rfl h
    | cons b bs =>
      rw [List.cons_append]
      rw [continueChar] at h ⊢
      by_cases hb : low ≤ b.toNat ∧ b.toNat ≤ high
      · rw [if_pos hb] at h ⊢
        rw [ih h, continueChar, if_pos hb]
      · rw [if_neg hb, continueChar, if_neg hb]
        rfl

theorem next_append {b : UInt8} {bs : Bytes} (h : next b bs ≠ .incomplete) (tail : Bytes) :
    next b (bs ++ tail) = (next b bs).followedBy tail := by
  cases hl : lead? b with
  | none =>
    simp only [next, hl]
    rfl
  | some l =>
    simp only [next, hl] at h ⊢
    exact continueChar_append h tail

/-! ## Missing bytes -/

theorem lead?_range {b : UInt8} {l : Lead} (h : lead? b = some l) :
    l.more ≤ 3 ∧ l.low ≤ l.high ∧ l.high < 256 := by
  simp only [lead?] at h
  repeat' split at h
  all_goals grind

theorem exists_continueChar_eq_char (seen code low high more : Nat) (hrange : low ≤ high)
    (hbyte : high < 256) :
    ∃ tail c, tail.length = more ∧ continueChar seen code low high more tail = .char c [] := by
  induction more generalizing seen code low high with
  | zero => exact ⟨[], Char.ofNat code, rfl, rfl⟩
  | succ more ih =>
    have hlow : (UInt8.ofNat low).toNat = low := by
      rw [UInt8.toNat_ofNat']
      omega
    obtain ⟨tail, c, hlen, hread⟩ :=
      ih (seen + 1) (code * 64 + low % 64) 0x80 0xBF (by decide) (by decide)
    refine ⟨UInt8.ofNat low :: tail, c, by rw [List.length_cons, hlen], ?_⟩
    rw [continueChar, hlow, if_pos ⟨Nat.le_refl low, hrange⟩]
    exact hread

theorem exists_completion_of_continueChar {seen code low high more : Nat} {bs : Bytes}
    (hrange : low ≤ high) (hbyte : high < 256)
    (h : continueChar seen code low high more bs = .incomplete) :
    ∃ tail c, tail ≠ [] ∧ continueChar seen code low high more (bs ++ tail) = .char c [] := by
  induction more generalizing seen code low high bs with
  | zero => cases h
  | succ more ih =>
    cases bs with
    | nil =>
      obtain ⟨tail, c, hlen, hread⟩ :=
        exists_continueChar_eq_char seen code low high (more + 1) hrange hbyte
      refine ⟨tail, c, ?_, hread⟩
      rintro rfl
      cases hlen
    | cons b bs =>
      rw [continueChar] at h
      by_cases hb : low ≤ b.toNat ∧ b.toNat ≤ high
      · rw [if_pos hb] at h
        obtain ⟨tail, c, hne, hread⟩ := ih (by decide) (by decide) h
        refine ⟨tail, c, hne, ?_⟩
        rw [List.cons_append, continueChar, if_pos hb]
        exact hread
      · rw [if_neg hb] at h
        cases h

theorem exists_completion {b : UInt8} {bs : Bytes} (h : next b bs = .incomplete) :
    ∃ tail c, tail ≠ [] ∧ next b (bs ++ tail) = .char c [] := by
  cases hl : lead? b with
  | none => simp [next, hl] at h
  | some l =>
    simp only [next, hl] at h ⊢
    obtain ⟨-, hrange, hbyte⟩ := lead?_range hl
    exact exists_completion_of_continueChar hrange hbyte h

/-- A character is refused at the first byte that rules it out: the bytes before that one can still
be completed. -/
theorem continueChar_eq_illFormed {seen code low high more k : Nat} {bs : Bytes}
    (h : continueChar seen code low high more bs = .illFormed k) :
    ∃ n, k = seen + n ∧ n < more ∧ n < bs.length ∧
      continueChar seen code low high more (bs.take n) = .incomplete ∧
      continueChar seen code low high more (bs.take (n + 1)) = .illFormed k := by
  induction more generalizing seen code low high bs with
  | zero => cases h
  | succ more ih =>
    cases bs with
    | nil => cases h
    | cons b bs =>
      rw [continueChar] at h
      by_cases hb : low ≤ b.toNat ∧ b.toNat ≤ high
      · rw [if_pos hb] at h
        obtain ⟨n, hk, hmore, hlen, hbefore, hat⟩ := ih h
        refine ⟨n + 1, by omega, by omega, Nat.succ_lt_succ hlen, ?_, ?_⟩
        · rw [List.take_succ_cons, continueChar, if_pos hb, hbefore]
        · rw [List.take_succ_cons, continueChar, if_pos hb, hat]
      · rw [if_neg hb] at h
        refine ⟨0, ?_, Nat.succ_pos more, Nat.succ_pos _, rfl, ?_⟩
        · cases h
          rfl
        · rw [List.take_succ_cons, continueChar, if_neg hb, h]

/-! ## One character -/

theorem next_eq_char_iff {b : UInt8} {bs rest : Bytes} {c : Char} :
    next b bs = .char c rest ↔ b :: bs = String.utf8EncodeChar c ++ rest := by
  refine ⟨encode_of_next, fun h => ?_⟩
  obtain ⟨b', tail, hencode, hnext⟩ := next_encode c rest
  rw [hencode, List.cons_append] at h
  cases h
  exact hnext

theorem not_begins_of_illFormed {b : UInt8} {bs : Bytes} {k : Nat}
    (h : next b bs = .illFormed k) : ¬ Begins (b :: bs) := by
  rintro ⟨c, tail, hc⟩
  have hread : next b (bs ++ tail) = .char c [] :=
    next_eq_char_iff.mpr (by rw [List.append_nil, ← hc, List.cons_append])
  rw [next_append (by rw [h]; exact Step.noConfusion), h] at hread
  cases hread

theorem next_eq_incomplete_iff {b : UInt8} {bs : Bytes} :
    next b bs = .incomplete ↔ CutOff (b :: bs) := by
  constructor
  · intro h
    obtain ⟨tail, c, hne, hread⟩ := exists_completion h
    have hc : b :: bs ++ tail = String.utf8EncodeChar c := by
      rw [List.cons_append, next_eq_char_iff.mp hread, List.append_nil]
    refine ⟨c, ⟨tail, hc⟩, fun heq => hne ?_⟩
    rw [← heq] at hc
    exact List.append_right_eq_self.mp hc
  · rintro ⟨c, ⟨tail, hc⟩, hne⟩
    have hread : next b (bs ++ tail) = .char c [] :=
      next_eq_char_iff.mpr (by rw [List.append_nil, ← hc, List.cons_append])
    cases h : next b bs with
    | incomplete => rfl
    | illFormed k => exact absurd ⟨c, tail, hc⟩ (not_begins_of_illFormed h)
    | char c' rest =>
      rw [next_append (by rw [h]; exact Step.noConfusion), h] at hread
      obtain ⟨rfl, hrest⟩ : c' = c ∧ rest ++ tail = [] := by simpa [Step.followedBy] using hread
      obtain ⟨rfl, rfl⟩ := List.append_eq_nil_iff.mp hrest
      exact absurd (by rw [← hc, List.append_nil]) hne

/-- How many of the bytes, from the first one on, begin a character together. -/
def BeginsFor (bs : Bytes) (n : Nat) : Prop :=
  IsGreatest {n | n ≤ bs.length ∧ Begins (bs.take n)} n

theorem beginsFor_of_not {bs : Bytes} {n : Nat} (hlen : n < bs.length) (h : Begins (bs.take n))
    (hnot : ¬ Begins (bs.take (n + 1))) : BeginsFor bs n := by
  refine ⟨⟨Nat.le_of_lt hlen, h⟩, ?_⟩
  rintro m ⟨-, hm⟩
  by_contra hlt
  exact hnot (hm.of_prefix (List.take_prefix_take_left (by omega)))

/-- The ill-formed part is what still begins a character, or the first byte if that does not. -/
theorem next_eq_illFormed {b : UInt8} {bs : Bytes} {k : Nat} (h : next b bs = .illFormed k) :
    k ≤ 3 ∧ ∃ n, BeginsFor (b :: bs) n ∧ k = max 1 n := by
  cases hl : lead? b with
  | none =>
    have hfirst (tail : Bytes) : next b tail = .illFormed 1 := by simp only [next, hl]
    rw [hfirst bs] at h
    cases h
    exact ⟨by decide, 0, beginsFor_of_not (Nat.succ_pos _) begins_nil
      (not_begins_of_illFormed (hfirst (bs.take 0))), rfl⟩
  | some l =>
    have hread (tail : Bytes) : next b tail = continueChar 1 l.bits l.low l.high l.more tail := by
      simp only [next, hl]
    obtain ⟨hmore, -, -⟩ := lead?_range hl
    rw [hread] at h
    obtain ⟨n, hk, hlt, hlen, hbefore, hat⟩ := continueChar_eq_illFormed h
    rw [← hread] at hbefore hat
    exact ⟨by omega, n + 1, beginsFor_of_not (Nat.succ_lt_succ hlen)
      (next_eq_incomplete_iff.mp hbefore).begins (not_begins_of_illFormed hat), by omega⟩

/-! ## Texts -/

theorem decodeFrom_of_char {index : Nat} {b : UInt8} {bs rest : Bytes} {c : Char}
    (h : next b bs = .char c rest) :
    decodeFrom index (b :: bs) = (decodeFrom (index + c.utf8Size) rest).map (c :: ·) := by
  rw [decodeFrom]
  split <;> simp_all

theorem decodeFrom_of_illFormed {index : Nat} {b : UInt8} {bs : Bytes} {k : Nat}
    (h : next b bs = .illFormed k) : decodeFrom index (b :: bs) = .error ⟨index, some k⟩ := by
  rw [decodeFrom]
  split <;> simp_all

theorem decodeFrom_of_incomplete {index : Nat} {b : UInt8} {bs : Bytes}
    (h : next b bs = .incomplete) : decodeFrom index (b :: bs) = .error ⟨index, none⟩ := by
  rw [decodeFrom]
  split <;> simp_all

/-- Reading goes on behind a text. -/
theorem decodeFrom_append (index : Nat) (cs : List Char) (bs : Bytes) :
    decodeFrom index (encodeChars cs ++ bs) =
      (decodeFrom (index + (encodeChars cs).length) bs).map (cs ++ ·) := by
  induction cs generalizing index with
  | nil =>
    show decodeFrom index bs = (decodeFrom index bs).map id
    cases decodeFrom index bs <;> rfl
  | cons c cs ih =>
    obtain ⟨b, tail, hencode, hnext⟩ := next_encode c (encodeChars cs ++ bs)
    have hbytes : encodeChars (c :: cs) ++ bs = b :: (tail ++ (encodeChars cs ++ bs)) := by
      rw [encodeChars_cons, hencode, List.append_assoc, List.cons_append]
    have hlen : (encodeChars (c :: cs)).length = c.utf8Size + (encodeChars cs).length := by
      rw [encodeChars_cons, List.length_append, String.length_utf8EncodeChar]
    rw [hbytes, decodeFrom_of_char hnext, ih, hlen, Nat.add_assoc]
    cases decodeFrom (index + (c.utf8Size + (encodeChars cs).length)) bs <;> rfl

/-! ## What is wrong -/

/-- Every byte string is a text and then something in front of which there is no character. -/
theorem exists_text_append (bs : Bytes) :
    ∃ cs rest, bs = encodeChars cs ++ rest ∧ ∀ c tail, rest ≠ String.utf8EncodeChar c ++ tail := by
  induction hn : bs.length using Nat.strongRecOn generalizing bs with
  | ind n ih =>
    by_cases h : ∃ c tail, bs = String.utf8EncodeChar c ++ tail
    · obtain ⟨c, tail, rfl⟩ := h
      have hshort : tail.length < n := by
        have := c.utf8Size_pos
        rw [← hn, List.length_append, String.length_utf8EncodeChar]
        omega
      obtain ⟨cs, rest, rfl, hrest⟩ := ih _ hshort tail rfl
      exact ⟨c :: cs, rest, by rw [encodeChars_cons, List.append_assoc], hrest⟩
    · push Not at h
      exact ⟨[], bs, rfl, h⟩

/-- How many of the bytes, from the first one on, are a text together. -/
def TextFor (bs : Bytes) (n : Nat) : Prop :=
  IsGreatest {n | n ≤ bs.length ∧ ∃ cs, bs.take n = encodeChars cs} n

/-- What is left of a text behind a text is a text. -/
theorem exists_text_of_append {cs cs' : List Char} {bs : Bytes}
    (h : encodeChars cs ++ bs = encodeChars cs') : ∃ cs'', bs = encodeChars cs'' := by
  have hread := decodeFrom_append 0 cs bs
  rw [h, decodeFrom_encodeChars] at hread
  obtain ⟨cs'', hcs'', -⟩ := Except.map_eq_ok_iff.mp hread.symm
  exact ⟨cs'', encodeChars_of_decodeFrom hcs''⟩

/-- A text behind which there is no further character is the longest one. -/
theorem textFor_append (cs : List Char) {rest : Bytes}
    (hrest : ∀ c tail, rest ≠ String.utf8EncodeChar c ++ tail) :
    TextFor (encodeChars cs ++ rest) (encodeChars cs).length := by
  refine ⟨⟨?_, cs, List.take_left⟩, ?_⟩
  · rw [List.length_append]
    omega
  · rintro n ⟨hn, cs', htext⟩
    rw [List.length_append] at hn
    by_contra hlt
    rw [List.take_append, List.take_of_length_le (by omega)] at htext
    obtain ⟨cs'', hmore⟩ := exists_text_of_append htext
    cases cs'' with
    | nil =>
      have hlen := congrArg List.length hmore
      rw [List.length_take] at hlen
      have hnil : (encodeChars []).length = 0 := rfl
      omega
    | cons c cs'' =>
      rw [encodeChars_cons] at hmore
      refine hrest c (encodeChars cs'' ++ rest.drop (n - (encodeChars cs).length)) ?_
      rw [← List.append_assoc, ← hmore, List.take_append_drop]

/-- What a fault says of the bytes: its index is the length of the longest text in front of them.
What follows is a character that the end cuts off, or else its ill-formed part is as many bytes as
still begin a character, and at least one. -/
structure Fault.Explains (f : Fault) (bs : Bytes) : Prop where
  longest : TextFor bs f.validUpTo
  cutOff : f.illFormed = none ↔ CutOff (bs.drop f.validUpTo)
  illFormed : ∀ k, f.illFormed = some k →
    1 ≤ k ∧ k ≤ 3 ∧ ∃ n, BeginsFor (bs.drop f.validUpTo) n ∧ k = max 1 n

theorem Fault.Explains.unique {f f' : Fault} {bs : Bytes} (h : f.Explains bs)
    (h' : f'.Explains bs) : f = f' := by
  obtain ⟨index, k⟩ := f
  obtain ⟨index', k'⟩ := f'
  obtain rfl : index = index' := h.longest.unique h'.longest
  cases k with
  | none =>
    have hnone : k' = none := h'.cutOff.mpr (h.cutOff.mp rfl)
    rw [hnone]
  | some k =>
    cases k' with
    | none => cases h.cutOff.mpr (h'.cutOff.mp rfl)
    | some k' =>
      obtain ⟨-, -, n, hn, rfl⟩ := h.illFormed k rfl
      obtain ⟨-, -, n', hn', rfl⟩ := h'.illFormed k' rfl
      rw [hn.unique hn']

theorem explains_cutOff (cs : List Char) {b : UInt8} {bs : Bytes} (h : next b bs = .incomplete) :
    (Fault.mk (encodeChars cs).length none).Explains (encodeChars cs ++ b :: bs) where
  longest := textFor_append cs fun c tail htail => by
    rw [next_eq_char_iff.mpr htail] at h
    cases h
  cutOff := by
    rw [List.drop_left]
    exact iff_of_true rfl (next_eq_incomplete_iff.mp h)
  illFormed := fun _ hk => nomatch hk

theorem explains_illFormed (cs : List Char) {b : UInt8} {bs : Bytes} {k : Nat}
    (h : next b bs = .illFormed k) :
    (Fault.mk (encodeChars cs).length (some k)).Explains (encodeChars cs ++ b :: bs) where
  longest := textFor_append cs fun c tail htail => by
    rw [next_eq_char_iff.mpr htail] at h
    cases h
  cutOff := by
    rw [List.drop_left]
    exact iff_of_false (fun hnone => nomatch hnone)
      fun hcut => not_begins_of_illFormed h hcut.begins
  illFormed := fun k' hk' => by
    cases hk'
    obtain ⟨hle, n, hn, hmax⟩ := next_eq_illFormed h
    rw [List.drop_left]
    exact ⟨by omega, hle, n, hn, hmax⟩

theorem decode_append (cs : List Char) (bs : Bytes) :
    decode (encodeChars cs ++ bs) =
      (decodeFrom (encodeChars cs).length bs).map fun cs' => String.ofList (cs ++ cs') := by
  rw [decode, decodeFrom_append, Nat.zero_add]
  cases decodeFrom (encodeChars cs).length bs <;> rfl

theorem exists_explains {bs : Bytes} (h : ∀ s, bs ≠ encode s) :
    ∃ f, decode bs = .error f ∧ f.Explains bs := by
  obtain ⟨cs, rest, rfl, hrest⟩ := exists_text_append bs
  cases rest with
  | nil =>
    refine absurd ?_ (h (String.ofList cs))
    rw [List.append_nil, encode, String.toList_ofList]
  | cons b tail =>
    cases hnext : next b tail with
    | char c rest => exact absurd (encode_of_next hnext) (hrest c rest)
    | illFormed k =>
      exact ⟨_, by rw [decode_append, decodeFrom_of_illFormed hnext]; rfl,
        explains_illFormed cs hnext⟩
    | incomplete =>
      exact ⟨_, by rw [decode_append, decodeFrom_of_incomplete hnext]; rfl,
        explains_cutOff cs hnext⟩

/-- The one fault that explains why bytes are no text is the one that is reported. -/
theorem explains_iff {bs : Bytes} (h : ∀ s, bs ≠ encode s) {f : Fault} :
    f.Explains bs ↔ decode bs = .error f := by
  obtain ⟨f', hf', hexplains⟩ := exists_explains h
  rw [hf']
  constructor
  · intro hf
    rw [hexplains.unique hf]
  · intro hf
    cases hf
    exact hexplains

end Utf8
end Mandate
