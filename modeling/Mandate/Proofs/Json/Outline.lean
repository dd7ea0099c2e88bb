/-
Complete outlines, and that reading a text that writes one gives it back.

An outline is complete if nothing in it breaks off.  Its tokens are then those of one JSON value,
and a layout of them is a text of that value.  Two facts make the link to reading: the descent finds
a complete outline in front of whatever follows its tokens (`Outline.read_tokens`), and in the
tokens of an outline no number stands where it would run into the next token (`Outline.separated`).
-/
import Mandate.Json.Reader
import Mandate.Proofs.Json.Layout

namespace Mandate
namespace Json

/-- The items of an array that is closed after the last one. -/
def Items.ofList : List Outline → Items
  | [] => .close .closed
  | o :: os => .cons o (ofList os)

/-- The members of an object that is closed after the last one. -/
def Members.ofList : List (StringLiteral × Outline) → Members
  | [] => .close none
  | (name, o) :: ms => .cons name o (ofList ms)

/- Whether nothing breaks off, in an outline or in the rest of one. -/
mutual
def Outline.Complete : Outline → Prop
  | .null => True
  | .bool _ => True
  | .number _ => True
  | .string s => s.fault = none
  | .broken _ _ => False
  | .array items => items.Complete
  | .object members => members.Complete

def Items.Complete : Items → Prop
  | .close c => c = .closed
  | .cons o rest => o.Complete ∧ rest.Complete

def Members.Complete : Members → Prop
  | .close fault => fault = none
  | .stop _ _ => False
  | .cons name o rest => name.fault = none ∧ o.Complete ∧ rest.Complete
end

/- The tokens of an outline, as far as it goes.  The first item or member of a list has no comma in
front of it and every other one has. -/
mutual
def Outline.tokens : Outline → List Token
  | .null => [.null]
  | .bool b => [.bool b]
  | .number l => [.number l]
  | .string s => [.string s]
  | .broken needed skipped => [.broken needed skipped]
  | .array items => .openArray :: items.tokens
  | .object members => .openObject :: members.tokens

def Items.tokens : Items → List Token
  | .close _ => [.closeArray]
  | .cons o rest => o.tokens ++ rest.moreTokens

def Items.moreTokens : Items → List Token
  | .close _ => [.closeArray]
  | .cons o rest => .comma :: (o.tokens ++ rest.moreTokens)

def Members.tokens : Members → List Token
  | .close _ => [.closeObject]
  | .stop name _ => [.string name]
  | .cons name o rest => .string name :: .colon :: (o.tokens ++ rest.moreTokens)

def Members.moreTokens : Members → List Token
  | .close _ => [.closeObject]
  | .stop name _ => [.comma, .string name]
  | .cons name o rest => .comma :: .string name :: .colon :: (o.tokens ++ rest.moreTokens)
end

/-- A text of an outline: its tokens, with any blanks and each in any of its forms. -/
def Outline.Written (o : Outline) (cs : List Char) : Prop :=
  o.Complete ∧ Token.Layout o.tokens cs

/-! ## The descent -/

theorem Outline.tokens_eq_cons {o : Outline} (h : o.Complete) :
    ∃ t ts, o.tokens = t :: ts ∧ t ≠ .closeArray := by
  cases o with
  | broken needed skipped => exact absurd h id
  | _ => exact ⟨_, _, rfl, by simp⟩

theorem Items.read_cons {t : Token} (h : t ≠ .closeArray) (fuel : Nat) (ts : List Token) :
    Items.read (fuel + 1) (t :: ts) =
      (.cons (Outline.read fuel (t :: ts)).1
        (Items.readMore fuel (Outline.read fuel (t :: ts)).2).1,
        (Items.readMore fuel (Outline.read fuel (t :: ts)).2).2) := by
  cases t <;> first | exact absurd rfl h | rfl

theorem Items.readMore_comma {t : Token} (h : t ≠ .closeArray) (fuel : Nat) (ts : List Token) :
    Items.readMore (fuel + 1) (.comma :: t :: ts) =
      (.cons (Outline.read fuel (t :: ts)).1
        (Items.readMore fuel (Outline.read fuel (t :: ts)).2).1,
        (Items.readMore fuel (Outline.read fuel (t :: ts)).2).2) := by
  cases t <;> first | exact absurd rfl h | rfl

theorem Items.length_moreTokens_pos (items : Items) : 0 < items.moreTokens.length := by
  cases items <;> simp [Items.moreTokens]

/- A complete outline is read off its tokens and what follows them is left.  As many steps of
descent as there are tokens are enough. -/
mutual
theorem Outline.read_tokens : (o : Outline) → o.Complete → (fuel : Nat) →
    o.tokens.length ≤ fuel → (rest : List Token) →
    Outline.read fuel (o.tokens ++ rest) = (o, rest)
  | .null, _, fuel + 1, _, rest => rfl
  | .bool _, _, fuel + 1, _, rest => rfl
  | .number _, _, fuel + 1, _, rest => rfl
  | .string _, _, fuel + 1, _, rest => rfl
  | .array items, h, fuel + 1, hfuel, rest => by
    have hitems := Items.read_tokens items h fuel (Nat.le_of_succ_le_succ hfuel) rest
    simp only [Outline.tokens, List.cons_append, Outline.read, hitems]
  | .object members, h, fuel + 1, hfuel, rest => by
    have hmembers := Members.read_tokens members h fuel (Nat.le_of_succ_le_succ hfuel) rest
    simp only [Outline.tokens, List.cons_append, Outline.read, hmembers]

theorem Items.read_tokens : (items : Items) → items.Complete → (fuel : Nat) →
    items.tokens.length ≤ fuel → (rest : List Token) →
    Items.read fuel (items.tokens ++ rest) = (items, rest)
  | .close _, rfl, fuel + 1, _, rest => rfl
  | .cons o more, ⟨ho, hmore⟩, fuel, hfuel, rest => by
    obtain ⟨t, ts, hts, hne⟩ := Outline.tokens_eq_cons ho
    have hlen : 0 < o.tokens.length := by simp [hts]
    have hmorelen := Items.length_moreTokens_pos more
    simp only [Items.tokens, List.length_append] at hfuel
    obtain ⟨fuel, rfl⟩ : ∃ k, fuel = k + 1 := ⟨fuel - 1, by omega⟩
    have hread := Outline.read_tokens o ho fuel (by omega) (more.moreTokens ++ rest)
    have hrest := Items.readMore_tokens more hmore fuel (by omega) rest
    rw [Items.tokens, List.append_assoc]
    rw [hts, List.cons_append] at hread ⊢
    rw [Items.read_cons hne, hread]
    simp only [hrest]

theorem Items.readMore_tokens : (items : Items) → items.Complete → (fuel : Nat) →
    items.moreTokens.length ≤ fuel → (rest : List Token) →
    Items.readMore fuel (items.moreTokens ++ rest) = (items, rest)
  | .close _, rfl, fuel + 1, _, rest => rfl
  | .cons o more, ⟨ho, hmore⟩, fuel + 1, hfuel, rest => by
    obtain ⟨t, ts, hts, hne⟩ := Outline.tokens_eq_cons ho
    simp only [Items.moreTokens, List.length_cons, List.length_append] at hfuel
    have hread := Outline.read_tokens o ho fuel (by omega) (more.moreTokens ++ rest)
    have hrest := Items.readMore_tokens more hmore fuel (by omega) rest
    rw [Items.moreTokens, List.cons_append, List.append_assoc]
    rw [hts, List.cons_append] at hread ⊢
    rw [Items.readMore_comma hne, hread]
    simp only [hrest]

theorem Members.read_tokens : (members : Members) → members.Complete → (fuel : Nat) →
    members.tokens.length ≤ fuel → (rest : List Token) →
    Members.read fuel (members.tokens ++ rest) = (members, rest)
  | .close _, rfl, fuel + 1, _, rest => rfl
  | .cons name o more, ⟨_, ho, hmore⟩, fuel + 2, hfuel, rest => by
    simp only [Members.tokens, List.length_cons, List.length_append] at hfuel
    have hread := Outline.read_tokens o ho fuel (by omega) (more.moreTokens ++ rest)
    have hrest := Members.readMore_tokens more hmore fuel (by omega) rest
    simp only [Members.tokens, List.cons_append, List.append_assoc, Members.read, Members.readOne,
      hread, hrest]

theorem Members.readMore_tokens : (members : Members) → members.Complete → (fuel : Nat) →
    members.moreTokens.length ≤ fuel → (rest : List Token) →
    Members.readMore fuel (members.moreTokens ++ rest) = (members, rest)
  | .close _, rfl, fuel + 1, _, rest => rfl
  | .cons name o more, ⟨_, ho, hmore⟩, fuel + 2, hfuel, rest => by
    simp only [Members.moreTokens, List.length_cons, List.length_append] at hfuel
    have hread := Outline.read_tokens o ho fuel (by omega) (more.moreTokens ++ rest)
    have hrest := Members.readMore_tokens more hmore fuel (by omega) rest
    simp only [Members.moreTokens, List.cons_append, List.append_assoc, Members.readMore,
      Members.readOne, hread, hrest]
end

/-! ## Numbers among the tokens -/

/-- What may follow a value in the tokens of an outline. -/
def Token.Closes (ts : List Token) : Prop :=
  Token.Separated ts ∧ ∀ t ∈ ts.head?, t.isDelimiter = true

theorem Token.Separated.cons {t : Token} {ts : List Token} (h : Token.Separated ts)
    (ht : t.isNumber = false) : Token.Separated (t :: ts) := by
  cases ts with
  | nil => exact .singleton t
  | cons u ts =>
    refine List.isChain_cons_cons.mpr ⟨fun hnumber => ?_, h⟩
    rw [ht] at hnumber
    cases hnumber

theorem Token.Closes.number {ts : List Token} (h : Token.Closes ts) (l : NumberLiteral) :
    Token.Separated (.number l :: ts) := by
  cases ts with
  | nil => exact .singleton _
  | cons u ts => exact List.isChain_cons_cons.mpr ⟨fun _ => h.2 u rfl, h.1⟩

theorem Token.Closes.cons {t : Token} {ts : List Token} (h : Token.Separated ts)
    (ht : t.isDelimiter = true) : Token.Closes (t :: ts) := by
  refine ⟨h.cons ?_, ?_⟩
  · cases t with
    | number l => cases ht
    | _ => rfl
  · intro u hu
    obtain rfl := Option.some.inj hu
    exact ht

mutual
theorem Outline.separated : (o : Outline) → (ts : List Token) → Token.Closes ts →
    Token.Separated (o.tokens ++ ts)
  | .null, _, h => h.1.cons rfl
  | .bool _, _, h => h.1.cons rfl
  | .number l, _, h => h.number l
  | .string _, _, h => h.1.cons rfl
  | .broken _ _, _, h => h.1.cons rfl
  | .array items, ts, h => (Items.separated items ts h.1).cons rfl
  | .object members, ts, h => (Members.separated members ts h.1).cons rfl

theorem Items.separated : (items : Items) → (ts : List Token) → Token.Separated ts →
    Token.Separated (items.tokens ++ ts)
  | .close _, _, h => h.cons rfl
  | .cons o more, ts, h => by
    rw [Items.tokens, List.append_assoc]
    exact Outline.separated o _ (Items.closes_more more ts h)

theorem Items.closes_more : (items : Items) → (ts : List Token) → Token.Separated ts →
    Token.Closes (items.moreTokens ++ ts)
  | .close _, _, h => .cons h rfl
  | .cons o more, ts, h => by
    have ho := Outline.separated o _ (Items.closes_more more ts h)
    rw [Items.moreTokens, List.cons_append, List.append_assoc]
    exact .cons ho rfl

theorem Members.separated : (members : Members) → (ts : List Token) → Token.Separated ts →
    Token.Separated (members.tokens ++ ts)
  | .close _, _, h => h.cons rfl
  | .stop _ _, _, h => h.cons rfl
  | .cons name o more, ts, h => by
    have ho := Outline.separated o _ (Members.closes_more more ts h)
    rw [Members.tokens, List.cons_append, List.cons_append, List.append_assoc]
    exact (ho.cons rfl).cons rfl

theorem Members.closes_more : (members : Members) → (ts : List Token) → Token.Separated ts →
    Token.Closes (members.moreTokens ++ ts)
  | .close _, _, h => .cons h rfl
  | .stop _ _, _, h => .cons (h.cons rfl) rfl
  | .cons name o more, ts, h => by
    have ho := Outline.separated o _ (Members.closes_more more ts h)
    rw [Members.moreTokens, List.cons_append, List.cons_append, List.cons_append,
      List.append_assoc]
    exact .cons ((ho.cons rfl).cons rfl) rfl
end

theorem Outline.separated_tokens (o : Outline) : Token.Separated o.tokens := by
  have hnil : Token.Closes [] := ⟨.nil, fun t ht => by cases ht⟩
  simpa using Outline.separated o [] hnil

/-! ## Reading a text -/

theorem Document.ofText_written {o : Outline} {text : String} (h : o.Written text.toList) :
    ofText text = ⟨o, false⟩ := by
  obtain ⟨hcomplete, hlayout⟩ := h
  have htokens : Token.ofChars text.toList = o.tokens :=
    Token.ofChars_layout hlayout o.separated_tokens
  have hread : Outline.read (3 * o.tokens.length + 1) o.tokens = (o, []) := by
    have := Outline.read_tokens o hcomplete (3 * o.tokens.length + 1) (by omega) []
    rwa [List.append_nil] at this
  simp only [ofText, htokens, hread]
  rfl

namespace Reader

variable {α : Type} {r : Reader α} {text : String}

theorem read_of_not_trailing (h : (Document.ofText text).trailing = false) :
    r.read text = r.outline (Document.ofText text).root := by
  simp only [read, h, Bool.false_eq_true, if_false]
  cases r.outline (Document.ofText text).root <;> rfl

theorem read_of_error {e : Error} (h : r.outline (Document.ofText text).root = .error e) :
    r.read text = .error e := by
  simp only [read, h]
  rfl

theorem read_eq_ok_iff {a : α} : r.read text = .ok a ↔
    r.outline (Document.ofText text).root = .ok a ∧ (Document.ofText text).trailing = false := by
  cases htrailing : (Document.ofText text).trailing with
  | false =>
    rw [read_of_not_trailing htrailing]
    exact (and_iff_left rfl).symm
  | true =>
    simp only [read, htrailing, if_true]
    cases r.outline (Document.ofText text).root <;> simp [Except.bind]

/-- A text of an outline is read as the outline is. -/
theorem read_written {o : Outline} (h : o.Written text.toList) : r.read text = r.outline o := by
  have hdocument := Document.ofText_written h
  rw [read_of_not_trailing (by rw [hdocument]), hdocument]

end Reader

/-! ## Passing over -/

mutual
theorem Outline.skip_complete : (o : Outline) → o.Complete → o.skip = .ok ()
  | .null, _ => rfl
  | .bool _, _ => rfl
  | .number _, _ => rfl
  | .string s, h => by
    have hs : s.fault = none := h
    rw [Outline.skip, StringLiteral.skip, hs]
  | .array items, h => Items.skip_complete items h
  | .object members, h => Members.skip_complete members h

theorem Items.skip_complete : (items : Items) → items.Complete → items.skip = .ok ()
  | .close _, rfl => rfl
  | .cons o rest, ⟨ho, hrest⟩ => by
    rw [Items.skip, Outline.skip_complete o ho]
    exact Items.skip_complete rest hrest

theorem Members.skip_complete : (members : Members) → members.Complete → members.skip = .ok ()
  | .close _, rfl => rfl
  | .cons name o rest, ⟨hname, ho, hrest⟩ => by
    rw [Members.skip, StringLiteral.skip, hname, Outline.skip_complete o ho]
    exact Members.skip_complete rest hrest
end

end Json
end Mandate
