/-
Shapes: what a value looks like as JSON, in all its spellings.

A shape says of an outline whether it is some value written down.  It speaks of content only: that
the outline is complete, and how it is written in a text, is a matter of `Outline.Written`.  A text
is spelled character by character, a natural number in decimal, and a record as an object with its
members in any order among others that it does not know, or as an array of their values.

For each shape there is a lemma that reading it gives the value.
-/
import Mandate.Proofs.Json.Members
import Mandate.Proofs.Json.Natural

namespace Mandate
namespace Json

/-! ## Texts -/

/-- The pieces stand for the characters.  An escape with digits stands for a UTF-16 code unit, so a
character beyond the basic plane takes two of them. -/
inductive Piece.Spell : List Piece → List Char → Prop
  | nil : Spell [] []
  | char {ps : List Piece} {cs : List Char} (c : Char) : Spell ps cs →
      Spell (.char c :: ps) (c :: cs)
  | unit {ps : List Piece} {cs : List Char} (c : Char) : c.toNat < 0x10000 → Spell ps cs →
      Spell (.unit c.toNat :: ps) (c :: cs)
  | pair {ps : List Piece} {cs : List Char} (c : Char) : 0x10000 ≤ c.toNat → Spell ps cs →
      Spell (.unit (0xD800 + (c.toNat - 0x10000) / 0x400) ::
        .unit (0xDC00 + (c.toNat - 0x10000) % 0x400) :: ps) (c :: cs)

def StringLiteral.Spells (s : StringLiteral) (text : String) : Prop :=
  s.fault = none ∧ Piece.Spell s.pieces text.toList

theorem spell_unit {n : Nat} (hlead : isLeading n = false) (htrail : isTrailing n = false)
    (ps : List Piece) : spell none (.unit n :: ps) = (spell none ps).map (Char.ofNat n :: ·) := by
  rw [spell.eq_def]
  simp [hlead, htrail]

theorem spell_pair {m n : Nat} (hlead : isLeading m = true) (htrail : isTrailing n = true)
    (ps : List Piece) :
    spell none (.unit m :: .unit n :: ps) = (spell none ps).map (pairChar m n :: ·) := by
  rw [spell.eq_def]
  simp [hlead, htrail]

theorem spell_of_spell {ps : List Piece} {cs : List Char} (h : Piece.Spell ps cs) :
    spell none ps = .ok cs := by
  induction h with
  | nil => rfl
  | char c _ ih => rw [spell, ih]; rfl
  | unit c hc _ ih =>
    have hvalid : c.toNat < 0xD800 ∨ 0xDFFF < c.toNat ∧ c.toNat < 0x110000 := c.valid
    have hlead : isLeading c.toNat = false := by
      simp only [isLeading, Bool.and_eq_false_iff, decide_eq_false_iff_not]
      omega
    have htrail : isTrailing c.toNat = false := by
      simp only [isTrailing, Bool.and_eq_false_iff, decide_eq_false_iff_not]
      omega
    rw [spell_unit hlead htrail, ih, Char.ofNat_toNat]
    rfl
  | pair c hc _ ih =>
    have hlt : c.toNat < 0x110000 := by
      have hvalid : c.toNat < 0xD800 ∨ 0xDFFF < c.toNat ∧ c.toNat < 0x110000 := c.valid
      omega
    have hlead : isLeading (0xD800 + (c.toNat - 0x10000) / 0x400) = true := by
      simp only [isLeading, Bool.and_eq_true, decide_eq_true_eq]
      omega
    have htrail : isTrailing (0xDC00 + (c.toNat - 0x10000) % 0x400) = true := by
      simp only [isTrailing, Bool.and_eq_true, decide_eq_true_eq]
      omega
    have hcode : 0x10000 + (0xD800 + (c.toNat - 0x10000) / 0x400 - 0xD800) * 0x400 +
        (0xDC00 + (c.toNat - 0x10000) % 0x400 - 0xDC00) = c.toNat := by omega
    rw [spell_pair hlead htrail, pairChar, hcode, Char.ofNat_toNat, ih]
    rfl

theorem StringLiteral.text_of_spells {s : StringLiteral} {text : String} (h : s.Spells text) :
    s.text = .ok text := by
  obtain ⟨hfault, hspell⟩ := h
  rw [StringLiteral.text, hfault, spell_of_spell hspell]
  simp [Except.map]

/-! ## Shapes and how they are read -/

abbrev Shape := Outline → Prop

namespace Shape

inductive Text (text : String) : Shape
  | string {s : StringLiteral} : s.Spells text → Text text (.string s)

inductive Natural (n : Nat) : Shape
  | number : Natural n (.number (.ofNat n))

inductive Array (items : List Shape) : Shape
  | array {os : List Outline} : List.Forall₂ (fun o shape => shape o) os items →
      Array items (.array (.ofList os))

/-- A member that gives a field. -/
def Member (m : StringLiteral × Outline) (field : String × Shape) : Prop :=
  m.1.Spells field.1 ∧ field.2 m.2

/-- The given fields once each and in any order, and any members besides whose names are not among
the known ones. -/
inductive Object (known : List String) (fields : List (String × Shape)) : Shape
  | object {ms named others : List (StringLiteral × Outline)} : ms.Perm (named ++ others) →
      List.Forall₂ Member named fields → (∀ m ∈ others, ∃ n, m.1.Spells n ∧ n ∉ known) →
      Object known fields (.object (.ofList ms))

theorem Object.of_perm {known : List String} {fields : List (String × Shape)}
    {ms named : List (StringLiteral × Outline)} (hperm : ms.Perm named)
    (h : List.Forall₂ Member named fields) : Object known fields (.object (.ofList ms)) := by
  have hall : ms.Perm (named ++ []) := by rwa [List.append_nil]
  exact .object hall h fun m hm => absurd hm List.not_mem_nil

/-- A record with all its fields, as an object or as an array. -/
inductive Record (fields : List (String × Shape)) : Shape
  | object {o : Outline} : Object (fields.map Prod.fst) fields o → Record fields o
  | array {o : Outline} : Array (fields.map Prod.snd) o → Record fields o

end Shape

theorem Reader.text_of_shape {text : String} {o : Outline} (h : Shape.Text text o) :
    Reader.text.outline o = .ok text := by
  cases h with
  | string hs =>
    simp only [Reader.text, scalar, Outline.found, StringLiteral.text_of_spells hs]
    rfl

theorem Reader.map_outline_eq_ok {α β : Type} {r : Reader α} {o : Outline} {a : α}
    (h : r.outline o = .ok a) (f : α → β) : (r.map f).outline o = .ok (f a) := by
  show (r.outline o).map f = .ok (f a)
  rw [h]
  rfl

theorem Reader.byte_of_shape {b : UInt8} {o : Outline} (h : Shape.Natural b.toNat o) :
    Reader.byte.outline o = .ok b := by
  cases h with
  | number => exact (byte_counts.outline_number _ b).mpr (NumberLiteral.denotes_ofNat b.toNat)

theorem Reader.word_of_shape {w : UInt64} {o : Outline} (h : Shape.Natural w.toNat o) :
    Reader.word.outline o = .ok w := by
  cases h with
  | number => exact (word_counts.outline_number _ w).mpr (NumberLiteral.denotes_ofNat w.toNat)

theorem Reader.readItems_ofList {α : Type} {r : Reader α} {os : List Outline} {as : List α}
    (h : List.Forall₂ (fun o a => r.outline o = .ok a) os as) :
    r.readItems (.ofList os) = .ok as := by
  induction h with
  | nil => rfl
  | cons ho _ ih =>
    rw [Items.ofList, Reader.readItems, ho]
    simp only [Except.bind, ih]
    rfl

/-! ## Parts of a complete outline -/

theorem Items.complete_ofList {os : List Outline} :
    (Items.ofList os).Complete ↔ ∀ o ∈ os, o.Complete := by
  induction os with
  | nil => simp [Items.ofList, Items.Complete]
  | cons o os ih => simp [Items.ofList, Items.Complete, ih]

theorem Members.complete_ofList {ms : List (StringLiteral × Outline)} :
    (Members.ofList ms).Complete ↔ ∀ m ∈ ms, m.1.fault = none ∧ m.2.Complete := by
  induction ms with
  | nil => simp [Members.ofList, Members.Complete]
  | cons m ms ih => simp [Members.ofList, Members.Complete, ih, and_assoc]

/-! ## Objects -/

/-- The members for two lists of fields are those for the one and those for the other. -/
theorem Shape.members_append {named : List (StringLiteral × Outline)}
    {shapes shapes' : List (String × Shape)}
    (h : List.Forall₂ Shape.Member named (shapes ++ shapes')) :
    ∃ ms ms', named = ms ++ ms' ∧ List.Forall₂ Shape.Member ms shapes ∧
      List.Forall₂ Shape.Member ms' shapes' :=
  ⟨named.take shapes.length, named.drop shapes.length, (List.take_append_drop _ _).symm,
    List.forall₂_take_append _ _ _ h, List.forall₂_drop_append _ _ _ h⟩

namespace Record

variable {σ α : Type} {fields : List (Field σ)}

theorem outline_of_draft {r : Record σ α} {o : Outline} {s : σ} {a : α}
    (hdraft : r.draftOfOutline o = .ok s) (hfinish : r.finish s = .ok a) :
    r.reader.outline o = .ok a := by
  show (r.draftOfOutline o).bind (fun s => (r.finish s).mapError Error.content) = .ok a
  rw [hdraft]
  show (r.finish s).mapError Error.content = .ok a
  rw [hfinish]
  rfl

theorem readMembers_of_member {m : StringLiteral × Outline} {ms : List (StringLiteral × Outline)}
    {n : String} {f : Field σ} {fill : σ → σ} {s t : σ} (hn : m.1.Spells n)
    (hf : field? fields n = some f) (hfilled : f.isFilled s = false)
    (hread : f.reader.outline m.2 = .ok fill)
    (hrest : readMembers fields (fill s) (.ofList ms) = .ok t) :
    readMembers fields s (.ofList (m :: ms)) = .ok t :=
  readMembers_cons_eq_ok_iff.mpr
    ⟨fill s, .known (StringLiteral.text_of_spells hn) hf hfilled hread, hrest⟩

theorem readItems_of_item {short : String} {f : Field σ} {count : Nat} {o : Outline}
    {os : List Outline} {fill : σ → σ} {s t : σ} (hread : f.reader.outline o = .ok fill)
    (hrest : readItems short fields (count + 1) (fill s) (.ofList os) = .ok t) :
    readItems short (f :: fields) count s (.ofList (o :: os)) = .ok t := by
  rw [Items.ofList, readItems, hread]
  exact hrest

/-- A member that may be left out. -/
theorem readMembers_optional (fill : σ → σ) {omitted : Bool}
    {named : List (StringLiteral × Outline)} {n : String} {shape : Shape} {f : Field σ} {s t : σ}
    (h : List.Forall₂ Shape.Member named (if omitted then [] else [(n, shape)]))
    (hcomplete : ∀ m ∈ named, m.2.Complete) (hf : field? fields n = some f)
    (hfilled : f.isFilled s = false)
    (hread : ∀ o, o.Complete → shape o → f.reader.outline o = .ok fill)
    (ht : (if omitted then s else fill s) = t) :
    readMembers fields s (.ofList named) = .ok t := by
  subst ht
  cases omitted with
  | true =>
    cases h
    rfl
  | false =>
    obtain _ | ⟨⟨hn, ho⟩, _ | _⟩ := h
    exact readMembers_of_member hn hf hfilled (hread _ (hcomplete _ (.head _)) ho) rfl

theorem readMembers_unknown {others : List (StringLiteral × Outline)} {s : σ}
    (hcomplete : ∀ m ∈ others, m.2.Complete)
    (hunknown : ∀ m ∈ others, ∃ n, m.1.Spells n ∧ n ∉ fields.map Field.name) :
    readMembers fields s (.ofList others) = .ok s := by
  induction others with
  | nil => rfl
  | cons m others ih =>
    obtain ⟨n, hn, hnot⟩ := hunknown m List.mem_cons_self
    have hfield : field? fields n = none := by
      rw [field?, List.find?_eq_none]
      intro f hf hfn
      exact hnot (List.mem_map.mpr ⟨f, hf, by simpa using hfn⟩)
    have hskip := Outline.skip_complete m.2 (hcomplete m List.mem_cons_self)
    have hrest := ih (fun m' hm' => hcomplete m' (List.mem_cons_of_mem m hm'))
      fun m' hm' => hunknown m' (List.mem_cons_of_mem m hm')
    exact readMembers_cons_eq_ok_iff.mpr
      ⟨s, .unknown (StringLiteral.text_of_spells hn) hfield hskip, hrest⟩

/-- An object is read if its fields are, in the order of the shape and with nothing in between. -/
theorem draftOfOutline_of_object {r : Record σ α} (hr : r.Lawful) {o : Outline}
    {shapes : List (String × Shape)} {t : σ} (ho : o.Complete)
    (h : Shape.Object (r.fields.map Field.name) shapes o)
    (hnamed : ∀ named, List.Forall₂ Shape.Member named shapes → (∀ m ∈ named, m.2.Complete) →
      readMembers r.fields r.start (.ofList named) = .ok t) : r.draftOfOutline o = .ok t := by
  cases h with
  | @object ms named others hperm hfields hothers =>
    have hcomplete : ∀ m ∈ named ++ others, m.2.Complete := fun m hm =>
      (Members.complete_ofList.mp ho m (hperm.mem_iff.mpr hm)).2
    have hfound := hnamed named hfields fun m hm => hcomplete m (List.mem_append_left others hm)
    have hskipped : readMembers r.fields t (.ofList others) = .ok t :=
      readMembers_unknown (fun m hm => hcomplete m (List.mem_append_right named hm)) hothers
    have hread : readMembers r.fields r.start (.ofList (named ++ others)) = .ok t := by
      rw [readMembers_append hfound, hskipped]
    exact readMembers_perm hr hperm.symm hread

end Record

end Json
end Mandate
