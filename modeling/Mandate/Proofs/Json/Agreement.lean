/-
The two ways of reading agree.

A reader can go through the outline of a document or look at its value.  The two see the members of
an object in different orders, the value has already been refused if anything in it cannot be
represented, and of a repeated member it knows nothing.  So they are compared where a value exists
and no object repeats a name, and there they accept the same documents with the same result
(`Reader.Agrees`).  That is shown of each combinator; for records it rests on the order of the
members not mattering.
-/
import Mandate.Proofs.Json.Members
import Mathlib.Data.List.Nodup
import Mathlib.Data.List.Perm.Basic

namespace Mandate
namespace Json

/-! ## Names -/

/-- The names of the members, as they are spelled out. -/
def Members.names : Members → List (Except Fault String)
  | .close _ => []
  | .stop _ _ => []
  | .cons name _ rest => name.text :: rest.names

/- Whether no object repeats a name, escapes aside. -/
mutual
def Outline.NamesDistinct : Outline → Prop
  | .array items => items.NamesDistinct
  | .object members => members.names.Nodup ∧ members.NamesDistinct
  | _ => True

def Items.NamesDistinct : Items → Prop
  | .close _ => True
  | .cons o rest => o.NamesDistinct ∧ rest.NamesDistinct

def Members.NamesDistinct : Members → Prop
  | .close _ => True
  | .stop _ _ => True
  | .cons _ o rest => o.NamesDistinct ∧ rest.NamesDistinct
end

theorem Items.namesDistinct_ofList {os : List Outline} :
    (Items.ofList os).NamesDistinct ↔ ∀ o ∈ os, o.NamesDistinct := by
  induction os with
  | nil => simp [Items.ofList, Items.NamesDistinct]
  | cons o os ih => simp [Items.ofList, Items.NamesDistinct, ih]

theorem Members.namesDistinct_ofList {ms : List (StringLiteral × Outline)} :
    (Members.ofList ms).NamesDistinct ↔ ∀ m ∈ ms, m.2.NamesDistinct := by
  induction ms with
  | nil => simp [Members.ofList, Members.NamesDistinct]
  | cons m ms ih => simp [Members.ofList, Members.NamesDistinct, ih]

theorem Members.names_ofList (ms : List (StringLiteral × Outline)) :
    (Members.ofList ms).names = ms.map fun m => m.1.text := by
  induction ms with
  | nil => rfl
  | cons m ms ih => rw [Members.ofList, Members.names, ih, List.map_cons]

/-! ## Outlines that have a value -/

/-- A member and what it is in the value of its object. -/
def HasValue (depth : Nat) (m : StringLiteral × Outline) (p : String × Value) : Prop :=
  m.1.text = .ok p.1 ∧ m.2.value depth = .ok p.2

/-- An outline beside its value, opened by one layer. -/
inductive Outline.Opened : Outline → Value → Prop
  | null : Opened .null .null
  | bool (b : Bool) : Opened (.bool b) (.bool b)
  | number {l : NumberLiteral} {n : Number} : l.value = .ok n → Opened (.number l) (.number n)
  | string {s : StringLiteral} {t : String} : s.text = .ok t → Opened (.string s) (.string t)
  | array {os : List Outline} {vs : List Value} (depth : Nat) :
      List.Forall₂ (fun o v => o.value depth = .ok v) os vs →
      Opened (.array (.ofList os)) (.array vs)
  | object {ms : List (StringLiteral × Outline)} {ps : List (String × Value)} (depth : Nat) :
      List.Forall₂ (HasValue depth) ms ps →
      Opened (.object (.ofList ms)) (.object (ps.foldr (fun p => addMember p.1 p.2) []))

theorem Items.ofList_of_values {depth : Nat} : (items : Items) → {vs : List Value} →
    items.values depth = .ok vs →
    ∃ os, items = .ofList os ∧ List.Forall₂ (fun o v => o.value depth = .ok v) os vs
  | .close .closed, _, h => by
    cases h
    exact ⟨[], rfl, .nil⟩
  | .close (.missing _), _, h => by cases h
  | .close (.afterComma _), _, h => by cases h
  | .cons o rest, vs, h => by
    obtain ⟨v, hv, h⟩ := Except.bind_eq_ok_iff.mp h
    obtain ⟨vs, hvs, rfl⟩ := Except.map_eq_ok_iff.mp h
    obtain ⟨os, rfl, hos⟩ := Items.ofList_of_values rest hvs
    exact ⟨o :: os, rfl, .cons hv hos⟩

theorem Members.ofList_of_values {depth : Nat} : (members : Members) →
    {kvs : List (String × Value)} → members.values depth = .ok kvs →
    ∃ ms ps, members = .ofList ms ∧ kvs = ps.foldr (fun p => addMember p.1 p.2) [] ∧
      List.Forall₂ (HasValue depth) ms ps
  | .close none, _, h => by
    cases h
    exact ⟨[], [], rfl, rfl, .nil⟩
  | .close (some _), _, h => by cases h
  | .stop name f, _, h => by
    obtain ⟨_, _, h⟩ := Except.bind_eq_ok_iff.mp h
    cases h
  | .cons name o rest, kvs, h => by
    obtain ⟨n, hn, h⟩ := Except.bind_eq_ok_iff.mp h
    obtain ⟨v, hv, h⟩ := Except.bind_eq_ok_iff.mp h
    obtain ⟨kvs, hkvs, rfl⟩ := Except.map_eq_ok_iff.mp h
    obtain ⟨ms, ps, rfl, rfl, hms⟩ := Members.ofList_of_values rest hkvs
    exact ⟨(name, o) :: ms, (n, v) :: ps, rfl, rfl, .cons ⟨hn, hv⟩ hms⟩

theorem Outline.opened_of_value {depth : Nat} {o : Outline} {v : Value}
    (h : o.value depth = .ok v) : o.Opened v := by
  cases o with
  | null =>
    cases h
    exact .null
  | bool b =>
    cases h
    exact .bool b
  | number l =>
    obtain ⟨n, hn, rfl⟩ := Except.map_eq_ok_iff.mp h
    exact .number hn
  | string s =>
    obtain ⟨t, ht, rfl⟩ := Except.map_eq_ok_iff.mp h
    exact .string ht
  | broken needed skipped => cases h
  | array items =>
    cases depth with
    | zero => cases h
    | succ depth =>
      obtain ⟨vs, hvs, rfl⟩ := Except.map_eq_ok_iff.mp h
      obtain ⟨os, rfl, hos⟩ := Items.ofList_of_values items hvs
      exact .array depth hos
  | object members =>
    cases depth with
    | zero => cases h
    | succ depth =>
      obtain ⟨kvs, hkvs, rfl⟩ := Except.map_eq_ok_iff.mp h
      obtain ⟨ms, ps, rfl, rfl, hms⟩ := Members.ofList_of_values members hkvs
      exact .object depth hms

theorem Outline.found_of_value {depth : Nat} {o : Outline} {v : Value}
    (h : o.value depth = .ok v) : o.found = .ok v.found := by
  cases Outline.opened_of_value h with
  | null => rfl
  | bool b => rfl
  | @number l n hn =>
    rw [Outline.found, hn]
    cases n <;> rfl
  | string ht =>
    rw [Outline.found, ht]
    rfl
  | array _ _ => rfl
  | object _ _ => rfl

/-! ## Passing over what has a value -/

theorem fault_of_spell {fault : Option Fault} {ps : List Piece} {cs : List Char}
    (h : spell fault ps = .ok cs) : fault = none := by
  fun_induction spell fault ps generalizing cs with
  | case1 => assumption
  | case3 _ _ ih | case6 _ _ _ _ _ ih | case9 _ _ _ _ ih =>
    obtain ⟨cs, hcs, _⟩ := Except.map_eq_ok_iff.mp h
    exact ih hcs
  | _ => cases h

theorem StringLiteral.fault_of_text {s : StringLiteral} {t : String} (h : s.text = .ok t) :
    s.fault = none := by
  obtain ⟨cs, hcs, _⟩ := Except.map_eq_ok_iff.mp h
  exact fault_of_spell hcs

mutual
theorem Outline.complete_of_value : (o : Outline) → {depth : Nat} → {v : Value} →
    o.value depth = .ok v → o.Complete
  | .null, _, _, _ => trivial
  | .bool _, _, _, _ => trivial
  | .number _, _, _, _ => trivial
  | .string s, _, _, h => by
    obtain ⟨t, ht, _⟩ := Except.map_eq_ok_iff.mp h
    exact StringLiteral.fault_of_text ht
  | .broken _ _, _, _, h => by cases h
  | .array _, 0, _, h => by cases h
  | .array items, depth + 1, _, h => by
    obtain ⟨vs, hvs, _⟩ := Except.map_eq_ok_iff.mp h
    exact Items.complete_of_values items hvs
  | .object _, 0, _, h => by cases h
  | .object members, depth + 1, _, h => by
    obtain ⟨kvs, hkvs, _⟩ := Except.map_eq_ok_iff.mp h
    exact Members.complete_of_values members hkvs

theorem Items.complete_of_values : (items : Items) → {depth : Nat} → {vs : List Value} →
    items.values depth = .ok vs → items.Complete
  | .close .closed, _, _, _ => rfl
  | .close (.missing _), _, _, h => by cases h
  | .close (.afterComma _), _, _, h => by cases h
  | .cons o rest, _, _, h => by
    obtain ⟨v, hv, h⟩ := Except.bind_eq_ok_iff.mp h
    obtain ⟨vs, hvs, _⟩ := Except.map_eq_ok_iff.mp h
    exact ⟨Outline.complete_of_value o hv, Items.complete_of_values rest hvs⟩

theorem Members.complete_of_values : (members : Members) → {depth : Nat} →
    {kvs : List (String × Value)} → members.values depth = .ok kvs → members.Complete
  | .close none, _, _, _ => rfl
  | .close (some _), _, _, h => by cases h
  | .stop name f, _, _, h => by
    obtain ⟨_, _, h⟩ := Except.bind_eq_ok_iff.mp h
    cases h
  | .cons name o rest, _, _, h => by
    obtain ⟨n, hn, h⟩ := Except.bind_eq_ok_iff.mp h
    obtain ⟨v, hv, h⟩ := Except.bind_eq_ok_iff.mp h
    obtain ⟨kvs, hkvs, _⟩ := Except.map_eq_ok_iff.mp h
    exact ⟨StringLiteral.fault_of_text hn, Outline.complete_of_value o hv,
      Members.complete_of_values rest hkvs⟩
end

theorem Outline.skip_of_value {depth : Nat} {o : Outline} {v : Value}
    (h : o.value depth = .ok v) : o.skip = .ok () :=
  o.skip_complete (o.complete_of_value h)

/-! ## Members in the order of their names -/

theorem addMember_perm {n : String} {v : Value} {kvs : List (String × Value)}
    (h : n ∉ kvs.map Prod.fst) : (addMember n v kvs).Perm ((n, v) :: kvs) := by
  induction kvs with
  | nil => exact .refl _
  | cons kv kvs ih =>
    obtain ⟨hne, hrest⟩ := List.ne_and_not_mem_of_not_mem_cons h
    by_cases hlt : n < kv.1
    · rw [addMember, if_pos hlt]
    · rw [addMember, if_neg hlt, if_neg hne]
      exact ((ih hrest).cons kv).trans (.swap _ _ _)

/-- Where no name is repeated, every member is in the value of its object. -/
theorem foldr_addMember_perm {ps : List (String × Value)} (h : (ps.map Prod.fst).Nodup) :
    (ps.foldr (fun p => addMember p.1 p.2) []).Perm ps := by
  induction ps with
  | nil => exact .refl _
  | cons p ps ih =>
    obtain ⟨hp, hps⟩ := List.nodup_cons.mp h
    have hrest := ih hps
    have hnot : p.1 ∉ (ps.foldr (fun p => addMember p.1 p.2) []).map Prod.fst := by
      rwa [(hrest.map Prod.fst).mem_iff]
    exact (addMember_perm hnot).trans (hrest.cons p)

theorem nodup_of_hasValue {depth : Nat} {ms : List (StringLiteral × Outline)}
    {ps : List (String × Value)} (h : List.Forall₂ (HasValue depth) ms ps)
    (hnames : (Members.ofList ms).names.Nodup) : (ps.map Prod.fst).Nodup := by
  have hsame : (Members.ofList ms).names = (ps.map Prod.fst).map .ok := by
    rw [Members.names_ofList]
    clear hnames
    induction h with
    | nil => rfl
    | cons hm _ ih => rw [List.map_cons, List.map_cons, List.map_cons, hm.1, ih]
  rw [hsame] at hnames
  exact List.Nodup.of_map _ hnames

/-! ## Readers -/

namespace Reader

variable {α β : Type}

/-- Both ways of reading accept the same documents with the same result. -/
def Agrees (r : Reader α) : Prop :=
  ∀ ⦃o : Outline⦄ ⦃depth : Nat⦄ ⦃v : Value⦄, o.value depth = .ok v → o.NamesDistinct →
    ∀ a, r.outline o = .ok a ↔ r.value v = .ok a

theorem scalar_agrees (f : Found → Except Complaint α) : (scalar f).Agrees := by
  intro o depth v hv _ a
  show (o.found.mapError Error.text).bind (fun found => (f found).mapError Error.content) =
    .ok a ↔ f v.found = .ok a
  rw [Outline.found_of_value hv]
  exact Except.mapError_eq_ok_iff

theorem Agrees.map {r : Reader α} (hr : r.Agrees) (f : α → β) : (r.map f).Agrees := by
  intro o depth v hv ho b
  show (r.outline o).map f = .ok b ↔ (r.value v).map f = .ok b
  simp only [Except.map_eq_ok_iff, hr hv ho]

theorem Agrees.refine {r : Reader α} (hr : r.Agrees) (f : α → Except String β) :
    (r.refine f).Agrees := by
  intro o depth v hv ho b
  show (r.outline o).bind (fun a => (f a).mapError fun e => .content (.refused e)) = .ok b ↔
    (r.value v).bind (fun a => (f a).mapError .refused) = .ok b
  simp only [Except.bind_eq_ok_iff, Except.mapError_eq_ok_iff, hr hv ho]

theorem text_agrees : text.Agrees :=
  scalar_agrees _

theorem natural_agrees (bound : Nat) (expected : String) : (natural bound expected).Agrees :=
  scalar_agrees _

theorem byte_agrees : byte.Agrees :=
  (natural_agrees _ _).map _

theorem word_agrees : word.Agrees :=
  (natural_agrees _ _).map _

theorem refuse_ne_ok {o : Outline} {expected : String} {a : α} :
    o.refuse expected ≠ (.ok a : Except Error α) := by
  intro h
  obtain ⟨_, _, h⟩ := Except.bind_eq_ok_iff.mp h
  cases h

theorem list_outline_of_ne_array (r : Reader α) {o : Outline} (h : ∀ items, o ≠ .array items) :
    (list r).outline o = o.refuse "a sequence" := by
  cases o with
  | array items => exact absurd rfl (h items)
  | _ => rfl

theorem Agrees.list {r : Reader α} (hr : r.Agrees) : (list r).Agrees := by
  intro o depth v hv ho as
  cases Outline.opened_of_value hv with
  | @array os vs depth h =>
    have hos : ∀ o ∈ os, o.NamesDistinct := Items.namesDistinct_ofList.mp ho
    show readItems r (.ofList os) = .ok as ↔ vs.mapM r.value = .ok as
    clear hv ho
    induction h generalizing as with
    | nil =>
      simp only [Items.ofList, readItems, List.mapM_nil, pure, Except.pure, Except.ok.injEq]
    | @cons o v os vs hv _ ih =>
      have hitem := hr hv (hos o List.mem_cons_self)
      have hrest as := ih as fun o ho => hos o (List.mem_cons_of_mem _ ho)
      rw [Items.ofList, readItems, List.mapM_cons]
      show (r.outline o).bind (fun a => (readItems r (.ofList os)).map (a :: ·)) = .ok as ↔
        (r.value v).bind (fun a => (vs.mapM r.value).bind fun as => .ok (a :: as)) = .ok as
      simp only [Except.bind_eq_ok_iff, Except.map_eq_ok_iff, hitem, hrest, Except.ok.injEq]
  | _ =>
    rw [list_outline_of_ne_array r (by simp)]
    exact iff_of_false refuse_ne_ok (by rintro ⟨⟩)

end Reader

/-! ## Records -/

namespace Record

variable {σ α : Type} {r : Record σ α}

/-- Members that are in the same order in the text and in the value. -/
theorem readMembers_eq_ok_iff (hr : r.Lawful) (hfields : ∀ f ∈ r.fields, f.reader.Agrees)
    {depth : Nat} {ms : List (StringLiteral × Outline)} {kvs : List (String × Value)}
    (h : List.Forall₂ (HasValue depth) ms kvs) (hms : ∀ m ∈ ms, m.2.NamesDistinct)
    (hnames : (kvs.map Prod.fst).Nodup) {s t : σ}
    (hs : ∀ f ∈ r.fields, f.name ∈ kvs.map Prod.fst → f.isFilled s = false) :
    readMembers r.fields s (.ofList ms) = .ok t ↔ fillMembers r.fields s kvs = .ok t := by
  induction h generalizing s with
  | nil => rw [Members.ofList, readMembers, fillMembers, Except.ok.injEq, Except.ok.injEq]
  | @cons m kv ms kvs hm _ ih =>
    obtain ⟨name, o⟩ := m
    obtain ⟨n, v⟩ := kv
    obtain ⟨hn, hv⟩ := hm
    have ho : o.NamesDistinct := hms (name, o) List.mem_cons_self
    obtain ⟨hnew, hdistinct⟩ := List.nodup_cons.mp hnames
    have hrest {s : σ} := ih (s := s) (fun m hm => hms m (List.mem_cons_of_mem _ hm)) hdistinct
    rw [Members.ofList, readMembers_cons hn, fillMembers]
    cases hf : field? r.fields n with
    | none =>
      rw [Outline.skip_of_value hv]
      exact hrest fun f hf hmem => hs f hf (List.mem_cons_of_mem _ hmem)
    | some f =>
      obtain ⟨hmem, hname⟩ := mem_of_field? hf
      have hfree : f.isFilled s = false := hs f hmem (by simp [hname])
      have hread := hfields f hmem hv ho
      simp only [hfree, Bool.false_eq_true, if_false, Except.bind_eq_ok_iff, hread]
      refine exists_congr fun fill => and_congr_right fun hfill => hrest fun g hg hgmem => ?_
      -- The other fields are in their own parts of the draft.
      have hne : f ≠ g := by
        rintro rfl
        exact hnew (hname ▸ hgmem)
      have hind := hr.independent.forall hmem hg hne
      rw [hind.keepsRight ⟨o, (hread fill).mpr hfill⟩ s]
      exact hs g hg (List.mem_cons_of_mem _ hgmem)

theorem readItems_eq_ok_iff {depth : Nat} {os : List Outline} {vs : List Value}
    (h : List.Forall₂ (fun o v => o.value depth = .ok v) os vs)
    (hos : ∀ o ∈ os, o.NamesDistinct) (short : String) (length : Nat) {fields : List (Field σ)}
    (hfields : ∀ f ∈ fields, f.reader.Agrees) (count : Nat) {s t : σ} :
    readItems short fields count s (.ofList os) = .ok t ↔
      fillItems short length fields count s vs = .ok t := by
  induction h generalizing fields count s with
  | nil =>
    cases fields with
    | nil => rw [Items.ofList, readItems, fillItems, Except.ok.injEq, Except.ok.injEq]
    | cons f fields => exact iff_of_false (by rintro ⟨⟩) (by rintro ⟨⟩)
  | @cons o v os vs hv _ ih =>
    cases fields with
    | nil => exact iff_of_false (by rintro ⟨⟩) (by rintro ⟨⟩)
    | cons f fields =>
      have hread := hfields f List.mem_cons_self hv (hos o List.mem_cons_self)
      have hrest (fill : σ → σ) := ih (fun o ho => hos o (List.mem_cons_of_mem _ ho))
        (fun f hf => hfields f (List.mem_cons_of_mem _ hf)) (count + 1) (s := fill s)
      rw [Items.ofList, readItems, fillItems]
      simp only [Except.bind_eq_ok_iff, hread, hrest]

theorem draftOfOutline_of_scalar {o : Outline} (harray : ∀ items, o ≠ .array items)
    (hobject : ∀ members, o ≠ .object members) :
    r.draftOfOutline o = o.refuse r.expected := by
  cases o with
  | array items => exact absurd rfl (harray items)
  | object members => exact absurd rfl (hobject members)
  | _ => rfl

theorem draftOfOutline_eq_ok_iff (hr : r.Lawful) (hfields : ∀ f ∈ r.fields, f.reader.Agrees)
    {o : Outline} {depth : Nat} {v : Value} (hv : o.value depth = .ok v) (ho : o.NamesDistinct)
    {t : σ} : r.draftOfOutline o = .ok t ↔ r.draftOfValue v = .ok t := by
  cases Outline.opened_of_value hv with
  | @array os vs depth h =>
    have hos : ∀ o ∈ os, o.NamesDistinct := Items.namesDistinct_ofList.mp ho
    rw [draftOfOutline, draftOfValue]
    cases r.positional with
    | none => exact iff_of_false (by rintro ⟨⟩) (by rintro ⟨⟩)
    | some short => exact readItems_eq_ok_iff h hos short vs.length hfields 0
  | @object ms ps depth h =>
    obtain ⟨hnames, hms⟩ := ho
    rw [Members.namesDistinct_ofList] at hms
    have hdistinct := nodup_of_hasValue h hnames
    have hperm := foldr_addMember_perm hdistinct
    -- The members as the value has them, each still beside its own outline.
    obtain ⟨ms', hflip, hms'⟩ := List.perm_comp_forall₂ hperm h.flip
    have hsorted := readMembers_eq_ok_iff hr hfields hflip.flip
      (fun m hm => hms m (hms'.mem_iff.mp hm)) ((hperm.map Prod.fst).nodup_iff.mpr hdistinct)
      (t := t) fun f hf _ => (hr.fields f hf).unfilled
    exact Iff.trans ⟨readMembers_perm hr hms'.symm, readMembers_perm hr hms'⟩ hsorted
  | _ =>
    rw [draftOfOutline_of_scalar (by simp) (by simp)]
    exact iff_of_false Reader.refuse_ne_ok (by rintro ⟨⟩)

theorem reader_agrees (hr : r.Lawful) (hfields : ∀ f ∈ r.fields, f.reader.Agrees) :
    r.reader.Agrees := by
  intro o depth v hv ho a
  show (r.draftOfOutline o).bind (fun s => (r.finish s).mapError Error.content) = .ok a ↔
    (r.draftOfValue v).bind r.finish = .ok a
  simp only [Except.bind_eq_ok_iff, Except.mapError_eq_ok_iff,
    draftOfOutline_eq_ok_iff hr hfields hv ho]

end Record

/-! ## Documents -/

/-- Whether no object of a document repeats the name of a member. -/
def Document.NamesDistinct (d : Document) : Prop :=
  d.root.NamesDistinct

theorem Value.parse_eq_ok_iff {text : String} {v : Value} :
    parse text = .ok v ↔ (Document.ofText text).root.value maxDepth = .ok v ∧
      (Document.ofText text).trailing = false := by
  show ((Document.ofText text).root.value maxDepth).bind
    (fun v => if (Document.ofText text).trailing then .error .malformed else .ok v) = .ok v ↔ _
  cases (Document.ofText text).trailing <;> simp [Except.bind_eq_ok_iff]

theorem Reader.Agrees.read_eq_ok_iff {α : Type} {r : Reader α} (hr : r.Agrees) {text : String}
    {v : Value} (hv : Value.parse text = .ok v) (hnames : (Document.ofText text).NamesDistinct)
    (a : α) : r.read text = .ok a ↔ r.value v = .ok a := by
  obtain ⟨hroot, htrailing⟩ := Value.parse_eq_ok_iff.mp hv
  rw [Reader.read_of_not_trailing htrailing]
  exact hr hroot hnames a

end Json
end Mandate
