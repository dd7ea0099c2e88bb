/-
What the printer writes is a text of an outline.

A printed text has no blanks, and in its strings it escapes only what it has to.  It is put together
from texts of the parts, and so is a layout of tokens: `Token.Layout.append` says that layouts can
be joined wherever there is a boundary between tokens.
-/
import Mandate.Json.Printer
import Mandate.Proofs.Json.Shape

namespace Mandate
namespace Json

namespace Token

theorem IsBlanks.append {cs ds : List Char} (h : IsBlanks cs) (h' : IsBlanks ds) :
    IsBlanks (cs ++ ds) := by
  intro c hc
  rcases List.mem_append.mp hc with hc | hc
  · exact h c hc
  · exact h' c hc

theorem Layout.blanks {ts : List Token} {blanks cs : List Char} (hblanks : IsBlanks blanks)
    (h : Layout ts cs) : Layout ts (blanks ++ cs) := by
  cases h with
  | nil h => exact .nil (hblanks.append h)
  | @cons t ts inner word cs hinner hword h =>
    rw [← List.append_assoc, ← List.append_assoc]
    exact .cons (hblanks.append hinner) hword h

theorem Layout.append {ts us : List Token} {cs ds : List Char} (h : Layout ts cs)
    (h' : Layout us ds) : Layout (ts ++ us) (cs ++ ds) := by
  induction h with
  | nil hblanks => exact .blanks hblanks h'
  | cons hblanks hword _ ih =>
    rw [List.append_assoc]
    exact .cons hblanks hword ih

theorem isBlanks_nil : IsBlanks [] :=
  fun _ hc => absurd hc List.not_mem_nil

theorem Layout.word {t : Token} {word : List Char} (h : t.Written word) : Layout [t] word := by
  have hlayout := Layout.cons isBlanks_nil h (.nil isBlanks_nil)
  simpa using hlayout

end Token

open Token

namespace Printer

/-! ## Scalars -/

theorem escape_written (c : Char) :
    ∃ p, Piece.Written p (escape c) ∧
      ∀ {ps cs}, Piece.Spell ps cs → Piece.Spell (p :: ps) (c :: cs) := by
  rw [escape]
  iterate 7
    split
    · rename_i hc
      subst hc
      exact ⟨_, .letter (by decide), .char _⟩
  split
  · rename_i hcontrol
    have hlt : c.toNat < 32 := hcontrol
    have hunit : ((0 * 16 + 0) * 16 + c.toNat / 16) * 16 + c.toNat % 16 = c.toNat := by omega
    have hwritten : Piece.Written (.unit (((0 * 16 + 0) * 16 + c.toNat / 16) * 16 + c.toNat % 16))
        ['\\', 'u', '0', '0', Nat.digitChar (c.toNat / 16), Nat.digitChar (c.toNat % 16)] :=
      .digits ⟨by decide, Or.inl rfl⟩ ⟨by decide, Or.inl rfl⟩ ⟨by omega, Or.inl rfl⟩
        ⟨by omega, Or.inl rfl⟩
    rw [hunit] at hwritten
    exact ⟨_, hwritten, .unit c (by omega)⟩
  · rename_i hquote hslash _ _ _ _ _ hcontrol
    exact ⟨_, .plain hquote hslash (Char.not_lt.mp hcontrol), .char c⟩

theorem string_written (s : String) : ∃ l : StringLiteral, l.Spells s ∧ l.Written (string s) := by
  have hchars (cs : List Char) : ∃ ps parts, List.Forall₂ Piece.Written ps parts ∧
      Piece.Spell ps cs ∧ parts.flatten = cs.flatMap escape := by
    induction cs with
    | nil => exact ⟨[], [], .nil, .nil, rfl⟩
    | cons c cs ih =>
      obtain ⟨ps, parts, hwritten, hspell, hflatten⟩ := ih
      obtain ⟨p, hp, hcons⟩ := escape_written c
      refine ⟨p :: ps, escape c :: parts, .cons hp hwritten, hcons hspell, ?_⟩
      rw [List.flatten_cons, List.flatMap_cons, hflatten]
  obtain ⟨ps, parts, hwritten, hspell, hflatten⟩ := hchars s.toList
  refine ⟨⟨ps, none⟩, ⟨rfl, hspell⟩, rfl, parts, hwritten, ?_⟩
  rw [string, hflatten]
  rfl

theorem head_toDigits_ne_zero {n : Nat} (h : 0 < n) :
    (Nat.toDigits 10 n).head? ≠ some '0' := by
  induction n using Nat.strongRecOn with
  | _ n ih =>
    rcases Nat.lt_or_ge n 10 with hlt | hge
    · have each : ∀ i : Fin 10, 0 < i.val → Nat.digitChar i.val ≠ '0' := by decide
      rw [Nat.toDigits_of_lt_base hlt]
      intro hhead
      exact each ⟨n, hlt⟩ h (Option.some.inj hhead)
    · have hpos : 0 < n / 10 := by omega
      have hhigh := ih (n / 10) (by omega) hpos
      rw [Nat.toDigits_of_base_le (by decide) hge]
      cases hds : Nat.toDigits 10 (n / 10) with
      | nil => exact absurd hds Nat.toDigits_ne_nil
      | cons d ds =>
        rw [hds] at hhigh
        exact hhigh

theorem natural_written (n : Nat) : (NumberLiteral.ofNat n).Written (natural n) := by
  have hdigits : NumberLiteral.IsDigits (Nat.toDigits 10 n) :=
    ⟨Nat.toDigits_ne_nil, fun c hc => Nat.isDigit_of_mem_toDigits (by decide) (by decide) hc⟩
  have hzero : (Nat.toDigits 10 n).head? = some '0' → Nat.toDigits 10 n = ['0'] := by
    intro hhead
    rcases Nat.eq_zero_or_pos n with rfl | hpos
    · rfl
    · exact absurd hhead (head_toDigits_ne_zero hpos)
  refine ⟨⟨hdigits, hzero⟩, [], [], .none, .none, ?_⟩
  simp [NumberLiteral.ofNat, natural]

/-! ## Arrays and objects -/

theorem commaSeparated_cons (t : List Char) (ts : List (List Char)) :
    commaSeparated (t :: ts) = t ++ ts.flatMap fun t => ',' :: t := by
  induction ts generalizing t with
  | nil => simp [commaSeparated]
  | cons u ts ih =>
    rw [commaSeparated, ih]
    · simp
    · simp

theorem items_layout {os : List Outline} {texts : List (List Char)}
    (h : List.Forall₂ (fun o t => Layout o.tokens t) os texts) :
    Layout (Items.ofList os).tokens (commaSeparated texts ++ [']']) := by
  have hmore {os : List Outline} {texts : List (List Char)}
      (h : List.Forall₂ (fun o t => Layout o.tokens t) os texts) :
      Layout (Items.ofList os).moreTokens ((texts.flatMap fun t => ',' :: t) ++ [']']) := by
    induction h with
    | nil => exact .word rfl
    | cons ho _ ih =>
      rw [List.flatMap_cons, List.append_assoc]
      exact .append (.append (.word (t := comma) rfl) ho) ih
  cases h with
  | nil => exact .word rfl
  | cons ho h =>
    rw [commaSeparated_cons, List.append_assoc]
    exact .append ho (hmore h)

/-- A member as it is printed. -/
def Member (m : StringLiteral × Outline) (printed : String × List Char) : Prop :=
  m.1.Written (string printed.1) ∧ m.2.Written printed.2

theorem member_written {l : StringLiteral} {name : String} {o : Outline} {t : List Char}
    (hl : l.Written (string name)) (ho : o.Written t) : Member (l, o) (name, t) :=
  ⟨hl, ho⟩

theorem member_layout {m : StringLiteral × Outline} {printed : String × List Char}
    (h : Member m printed) :
    Layout (.string m.1 :: .colon :: m.2.tokens) (string printed.1 ++ [':'] ++ printed.2) := by
  have hname : Layout [.string m.1] (string printed.1) := .word h.1
  have hcolon : Layout [.colon] [':'] := .word rfl
  exact .append (.append hname hcolon) h.2.2

theorem members_layout {ms : List (StringLiteral × Outline)} {members : List (String × List Char)}
    (h : List.Forall₂ Member ms members) :
    Layout (Members.ofList ms).tokens
      (commaSeparated (members.map fun m => string m.1 ++ [':'] ++ m.2) ++ ['\x7d']) := by
  have hmore {ms : List (StringLiteral × Outline)} {members : List (String × List Char)}
      (h : List.Forall₂ Member ms members) :
      Layout (Members.ofList ms).moreTokens
        (((members.map fun m => string m.1 ++ [':'] ++ m.2).flatMap fun t => ',' :: t) ++
          ['\x7d']) := by
    induction h with
    | nil => exact .word rfl
    | cons hm _ ih =>
      rw [List.map_cons, List.flatMap_cons, List.append_assoc]
      exact .append (.append (.word (t := comma) rfl) (member_layout hm)) ih
  cases h with
  | nil => exact .word rfl
  | cons hm h =>
    rw [List.map_cons, commaSeparated_cons, List.append_assoc]
    exact .append (member_layout hm) (hmore h)

theorem array_written {os : List Outline} {texts : List (List Char)}
    (h : List.Forall₂ Outline.Written os texts) :
    (Outline.array (.ofList os)).Written (array texts) := by
  constructor
  · show (Items.ofList os).Complete
    induction h with
    | nil => rfl
    | cons ho _ ih => exact ⟨ho.1, ih⟩
  · have hopen : Layout [.openArray] ['['] := .word rfl
    have hitems := items_layout (h.imp fun o t ho => ho.2)
    rw [array, List.append_assoc]
    exact .append hopen hitems

theorem object_written {ms : List (StringLiteral × Outline)} {members : List (String × List Char)}
    (h : List.Forall₂ Member ms members) :
    (Outline.object (.ofList ms)).Written (object members) := by
  constructor
  · show (Members.ofList ms).Complete
    induction h with
    | nil => rfl
    | cons hm _ ih => exact ⟨hm.1.1, hm.2.1, ih⟩
  · have hopen : Layout [.openObject] ['\x7b'] := .word rfl
    rw [object, List.append_assoc]
    exact .append hopen (members_layout h)

end Printer

/-! ## Printed shapes -/

namespace Shape

/-- Whether a text writes a value of this shape. -/
def Prints (shape : Shape) (text : List Char) : Prop :=
  ∃ o, shape o ∧ o.Written text

theorem text_prints (s : String) : (Text s).Prints (Printer.string s) := by
  obtain ⟨l, hspells, hwritten⟩ := Printer.string_written s
  exact ⟨_, .string hspells, hspells.1, .word hwritten⟩

theorem natural_prints (n : Nat) : (Natural n).Prints (Printer.natural n) :=
  ⟨_, .number, trivial, .word (Printer.natural_written n)⟩

theorem array_prints {shapes : List Shape} {texts : List (List Char)}
    (h : List.Forall₂ Prints shapes texts) : (Array shapes).Prints (Printer.array texts) := by
  have hitems : ∃ os, List.Forall₂ (fun o shape => shape o) os shapes ∧
      List.Forall₂ Outline.Written os texts := by
    induction h with
    | nil => exact ⟨[], .nil, .nil⟩
    | cons ho _ ih =>
      obtain ⟨o, hshape, hwritten⟩ := ho
      obtain ⟨os, hshapes, htexts⟩ := ih
      exact ⟨o :: os, .cons hshape hshapes, .cons hwritten htexts⟩
  obtain ⟨os, hshapes, htexts⟩ := hitems
  exact ⟨_, .array hshapes, Printer.array_written htexts⟩

/-- A field and its member as it is printed. -/
def FieldPrints (field : String × Shape) (printed : String × List Char) : Prop :=
  field.1 = printed.1 ∧ field.2.Prints printed.2

/-- A field that is left out under a condition. -/
theorem optional_prints (p : Prop) [Decidable p] {field : String × Shape}
    {printed : String × List Char} (h : FieldPrints field printed) :
    List.Forall₂ FieldPrints (if decide p then [] else [field]) (if p then [] else [printed]) := by
  by_cases hp : p
  · simp [hp]
  · simpa [hp] using h

theorem object_prints (known : List String) {fields : List (String × Shape)}
    {members : List (String × List Char)} (h : List.Forall₂ FieldPrints fields members) :
    (Object known fields).Prints (Printer.object members) := by
  have hmembers : ∃ ms, List.Forall₂ Member ms fields ∧
      List.Forall₂ Printer.Member ms members := by
    induction h with
    | nil => exact ⟨[], .nil, .nil⟩
    | @cons field printed _ _ hfield _ ih =>
      obtain ⟨hname, o, hshape, hwritten⟩ := hfield
      obtain ⟨l, hspells, hprinted⟩ := Printer.string_written printed.1
      obtain ⟨ms, hfields, htexts⟩ := ih
      refine ⟨(l, o) :: ms, .cons ⟨?_, hshape⟩ hfields,
        .cons (Printer.member_written hprinted hwritten) htexts⟩
      rw [hname]
      exact hspells
  obtain ⟨ms, hfields, htexts⟩ := hmembers
  exact ⟨_, .of_perm (List.Perm.refl ms) hfields, Printer.object_written htexts⟩

theorem record_prints {fields : List (String × Shape)} {members : List (String × List Char)}
    (h : List.Forall₂ FieldPrints fields members) :
    (Record fields).Prints (Printer.object members) := by
  obtain ⟨o, hobject, hwritten⟩ := object_prints (fields.map Prod.fst) h
  exact ⟨o, .object hobject, hwritten⟩

theorem record_prints_positional (fields : List (String × Shape)) {texts : List (List Char)}
    (h : List.Forall₂ Prints (fields.map Prod.snd) texts) :
    (Record fields).Prints (Printer.array texts) := by
  obtain ⟨o, harray, hwritten⟩ := array_prints h
  exact ⟨o, .array harray, hwritten⟩

end Shape

end Json
end Mandate
