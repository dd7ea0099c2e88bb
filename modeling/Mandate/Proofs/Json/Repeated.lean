/-
Repeated names.

A record refuses a known member whose part of the draft is filled, and what has been filled stays
so.  So in an object that is read no known name occurs twice (`Record.namesOnce_of_readMembers`),
wherever the members stand and whatever the unknown ones among them repeat.

Other readers settle a repeated name without a word: for some the first member of a name counts, for
some the last.  `Outline.pick` is the outline that such a reader sees.  It is read as the same value
as the whole outline, because all that it leaves out are members that nobody knows.
-/
import Mandate.Proofs.Json.Agreement
import Mathlib.Data.List.Duplicate

namespace Mandate
namespace Json

def Items.toList : Items → List Outline
  | .close _ => []
  | .cons o rest => o :: rest.toList

def Members.toList : Members → List (StringLiteral × Outline)
  | .close _ => []
  | .stop _ _ => []
  | .cons name o rest => (name, o) :: rest.toList

/-- Whether none of the known names occurs twice among the members, escapes aside. -/
def Members.NamesOnce (known : List String) (members : Members) : Prop :=
  ∀ n ∈ known, ¬ List.Duplicate (.ok n) members.names

def Outline.NamesOnce (known : List String) (o : Outline) : Prop :=
  ∀ members, o = .object members → members.NamesOnce known

/-! ## Readers for which one member of a name counts -/

/-- Which of the members of one name counts. -/
inductive Winner
  | first
  | last

/-- Whether a member with this name does not count, given the names before it and behind it.  A name
that cannot be spelled is the name of no other member. -/
def Winner.drops (w : Winner) (before behind : List (Except Fault String)) :
    Except Fault String → Bool
  | .error _ => false
  | .ok n =>
    match w with
    | first => decide (.ok n ∈ before)
    | last => decide (.ok n ∈ behind)

/- What is left of an outline if in each of its objects one member of each name counts; `before` are
the names of the members in front. -/
mutual
def Outline.pick (w : Winner) : Outline → Outline
  | .null => .null
  | .bool b => .bool b
  | .number l => .number l
  | .string s => .string s
  | .broken needed skipped => .broken needed skipped
  | .array items => .array (items.pick w)
  | .object members => .object (members.pick w [])

def Items.pick (w : Winner) : Items → Items
  | .close c => .close c
  | .cons o rest => .cons (o.pick w) (rest.pick w)

def Members.pick (w : Winner) (before : List (Except Fault String)) : Members → Members
  | .close fault => .close fault
  | .stop name f => .stop name f
  | .cons name o rest =>
    if w.drops before rest.names name.text then rest.pick w before
    else .cons name (o.pick w) (rest.pick w (name.text :: before))
end

/-- Reads a document as if of the members of one name only one were there. -/
def Reader.readPicking {α : Type} (w : Winner) (r : Reader α) (text : String) : Except Error α :=
  let d := Document.ofText text
  (r.outline (d.root.pick w)).bind fun a =>
    if d.trailing then .error (.text .malformed) else .ok a

theorem Winner.mem_of_drops {w : Winner} {before behind : List (Except Fault String)}
    {name : Except Fault String} (h : w.drops before behind name = true) :
    ∃ n, name = .ok n ∧ (.ok n ∈ before ∨ .ok n ∈ behind) := by
  cases name with
  | error f => cases h
  | ok n =>
    cases w with
    | first => exact ⟨n, rfl, Or.inl (of_decide_eq_true h)⟩
    | last => exact ⟨n, rfl, Or.inr (of_decide_eq_true h)⟩

/-! ## Passing over -/

mutual
theorem Outline.skip_pick (w : Winner) : (o : Outline) → o.skip = .ok () →
    (o.pick w).skip = .ok ()
  | .null, _ => rfl
  | .bool _, _ => rfl
  | .number _, _ => rfl
  | .string _, h => h
  | .broken _ _, h => h
  | .array items, h => Items.skip_pick w items h
  | .object members, h => Members.skip_pick w [] members h

theorem Items.skip_pick (w : Winner) : (items : Items) → items.skip = .ok () →
    (items.pick w).skip = .ok ()
  | .close _, h => h
  | .cons o rest, h => by
    obtain ⟨_, ho, hrest⟩ := Except.bind_eq_ok_iff.mp h
    rw [Items.pick, Items.skip, Outline.skip_pick w o ho]
    exact Items.skip_pick w rest hrest

theorem Members.skip_pick (w : Winner) (before : List (Except Fault String)) :
    (members : Members) → members.skip = .ok () → (members.pick w before).skip = .ok ()
  | .close _, h => h
  | .stop _ _, h => h
  | .cons name o rest, h => by
    obtain ⟨_, hname, h⟩ := Except.bind_eq_ok_iff.mp h
    obtain ⟨_, ho, hrest⟩ := Except.bind_eq_ok_iff.mp h
    rw [Members.pick]
    split
    · exact Members.skip_pick w before rest hrest
    · rw [Members.skip, hname, Outline.skip_pick w o ho]
      exact Members.skip_pick w _ rest hrest
end

/-! ## Readers -/

namespace Reader

variable {α β : Type}

/-- What is read is read as the same value by a reader that lets one member of a name count. -/
def Picks (r : Reader α) : Prop :=
  ∀ ⦃o : Outline⦄ ⦃a : α⦄, r.outline o = .ok a → ∀ w : Winner, r.outline (o.pick w) = .ok a

theorem found_pick (w : Winner) (o : Outline) : (o.pick w).found = o.found := by
  cases o <;> rfl

theorem scalar_picks (f : Found → Except Complaint α) : (scalar f).Picks := by
  intro o a h w
  show (((o.pick w).found).mapError Error.text).bind _ = _
  rw [found_pick]
  exact h

theorem Picks.map {r : Reader α} (hr : r.Picks) (f : α → β) : (r.map f).Picks := by
  intro o b h w
  obtain ⟨a, ha, rfl⟩ := Except.map_eq_ok_iff.mp h
  exact Except.map_eq_ok_iff.mpr ⟨a, hr ha w, rfl⟩

theorem Picks.refine {r : Reader α} (hr : r.Picks) (f : α → Except String β) :
    (r.refine f).Picks := by
  intro o b h w
  obtain ⟨a, ha, hf⟩ := Except.bind_eq_ok_iff.mp h
  exact Except.bind_eq_ok_iff.mpr ⟨a, hr ha w, hf⟩

theorem text_picks : text.Picks :=
  scalar_picks _

theorem byte_picks : byte.Picks :=
  (scalar_picks _).map _

theorem word_picks : word.Picks :=
  (scalar_picks _).map _

theorem Picks.readItems {r : Reader α} (hr : r.Picks) (w : Winner) : (items : Items) →
    {as : List α} → r.readItems items = .ok as → r.readItems (items.pick w) = .ok as
  | .close _, _, h => h
  | .cons o rest, as, h => by
    obtain ⟨a, ha, h⟩ := Except.bind_eq_ok_iff.mp h
    obtain ⟨as, has, rfl⟩ := Except.map_eq_ok_iff.mp h
    rw [Items.pick, Reader.readItems, hr ha w]
    exact Except.map_eq_ok_iff.mpr ⟨as, Picks.readItems hr w rest has, rfl⟩

theorem Picks.list {r : Reader α} (hr : r.Picks) : (list r).Picks := by
  intro o as h w
  cases o with
  | array items => exact Picks.readItems hr w items h
  | _ =>
    rw [list_outline_of_ne_array r (by simp)] at h
    exact absurd h refuse_ne_ok

theorem outline_of_readItems {r : Reader α} : (items : Items) → {as : List α} →
    r.readItems items = .ok as → ∀ o ∈ items.toList, ∃ a, r.outline o = .ok a
  | .close _, _, _, o, ho => absurd ho List.not_mem_nil
  | .cons o rest, as, h, p, hp => by
    obtain ⟨a, ha, h⟩ := Except.bind_eq_ok_iff.mp h
    obtain ⟨as, has, rfl⟩ := Except.map_eq_ok_iff.mp h
    rcases List.mem_cons.mp hp with rfl | hp
    · exact ⟨a, ha⟩
    · exact outline_of_readItems rest has p hp

theorem readPicking_of_read {r : Reader α} (hr : r.Picks) {text : String} {a : α}
    (h : r.read text = .ok a) (w : Winner) : r.readPicking w text = .ok a := by
  obtain ⟨houtline, htrailing⟩ := read_eq_ok_iff.mp h
  simp only [readPicking, hr houtline w, htrailing]
  rfl

end Reader

/-! ## Records -/

namespace Record

variable {σ α : Type} {r : Record σ α} {fields : List (Field σ)}

theorem Step.keepsFilled (hr : r.Lawful) {f : Field σ} (hf : f ∈ r.fields)
    {m : StringLiteral × Outline} {s s' : σ} (h : Step r.fields m s s')
    (hfilled : f.isFilled s = true) : f.isFilled s' = true := by
  cases h with
  | unknown _ _ _ => exact hfilled
  | @known _ o _ g fill _ _ hg hfree hread =>
    have hne : g ≠ f := by
      rintro rfl
      rw [hfilled] at hfree
      cases hfree
    have hind := hr.independent.forall (mem_of_field? hg).1 hf hne
    rw [hind.keepsRight ⟨o, hread⟩ s]
    exact hfilled

/-- A known name is read where its field is not filled, and fills it. -/
theorem Step.of_name (hr : r.Lawful) {name : StringLiteral} {o : Outline} {n : String}
    {f : Field σ} (hn : name.text = .ok n) (hf : field? r.fields n = some f) {s s' : σ}
    (h : Step r.fields (name, o) s s') :
    f.isFilled s = false ∧ f.isFilled s' = true ∧ ∃ fill, f.reader.outline o = .ok fill := by
  obtain ⟨hfree, fill, hread, rfl⟩ := (step_iff_of_field? hn hf).mp h
  exact ⟨hfree, (hr.fields f (mem_of_field? hf).1).fills ⟨o, hread⟩ s, fill, hread⟩

theorem names_of_readMembers (hr : r.Lawful) {n : String} {f : Field σ}
    (hf : field? r.fields n = some f) : (members : Members) → {s t : σ} →
    readMembers r.fields s members = .ok t →
    (f.isFilled s = true → .ok n ∉ members.names) ∧ ¬ List.Duplicate (.ok n) members.names
  | .close _, _, _, _ => ⟨fun _ => List.not_mem_nil, List.not_duplicate_nil _⟩
  | .stop _ _, _, _, _ => ⟨fun _ => List.not_mem_nil, List.not_duplicate_nil _⟩
  | .cons name o rest, s, t, h => by
    obtain ⟨s', hstep, hrest⟩ := readMembers_cons_eq_ok_iff.mp h
    obtain ⟨habsent, honce⟩ := names_of_readMembers hr hf rest hrest
    rw [Members.names]
    constructor
    · intro hfilled hmem
      rcases List.mem_cons.mp hmem with hname | hmem
      · have hfree := (hstep.of_name hr hname.symm hf).1
        rw [hfilled] at hfree
        cases hfree
      · exact habsent (hstep.keepsFilled hr (mem_of_field? hf).1 hfilled) hmem
    · intro hdup
      rcases List.duplicate_cons_iff.mp hdup with ⟨hname, hmem⟩ | hdup
      · exact habsent (hstep.of_name hr hname hf).2.1 hmem
      · exact honce hdup

theorem exists_field? {n : String} (h : n ∈ fields.map Field.name) :
    ∃ f, field? fields n = some f := by
  obtain ⟨f, hf, hname⟩ := List.mem_map.mp h
  rw [← Option.isSome_iff_exists, field?, List.find?_isSome]
  exact ⟨f, hf, by simpa using hname⟩

/-- No known name occurs twice in an object that is read. -/
theorem namesOnce_of_readMembers (hr : r.Lawful) {members : Members} {s t : σ}
    (h : readMembers r.fields s members = .ok t) :
    members.NamesOnce (r.fields.map Field.name) := by
  intro n hn
  obtain ⟨f, hf⟩ := exists_field? hn
  exact (names_of_readMembers hr hf members h).2

theorem namesOnce_of_outline (hr : r.Lawful) {o : Outline} {a : α}
    (h : r.reader.outline o = .ok a) : o.NamesOnce (r.fields.map Field.name) := by
  rintro members rfl
  obtain ⟨t, ht, _⟩ := Except.bind_eq_ok_iff.mp h
  exact namesOnce_of_readMembers hr ht

/-! ### Members and items that are read -/

theorem outline_of_readMembers (hr : r.Lawful) {name : StringLiteral} {o : Outline} {n : String}
    {f : Field σ} (hn : name.text = .ok n) (hf : field? r.fields n = some f) :
    (members : Members) → {s t : σ} → readMembers r.fields s members = .ok t →
    (name, o) ∈ members.toList → ∃ fill, f.reader.outline o = .ok fill
  | .close _, _, _, _, hmem => absurd hmem List.not_mem_nil
  | .stop _ _, _, _, _, hmem => absurd hmem List.not_mem_nil
  | .cons _ _ rest, _, _, h, hmem => by
    obtain ⟨s', hstep, hrest⟩ := readMembers_cons_eq_ok_iff.mp h
    rcases List.mem_cons.mp hmem with heq | hmem
    · cases heq
      exact (hstep.of_name hr hn hf).2.2
    · exact outline_of_readMembers hr hn hf rest hrest hmem

theorem outline_of_readItems {short : String} {f : Field σ} {o : Outline} {i : Nat} :
    (items : Items) → {fields : List (Field σ)} → {count : Nat} → {s t : σ} →
    readItems short fields count s items = .ok t → items.toList[i]? = some o →
    fields[i]? = some f → ∃ fill, f.reader.outline o = .ok fill
  | .close _, _, _, _, _, _, ho, _ => by cases ho
  | .cons _ _, [], _, _, _, h, _, _ => by cases h
  | .cons p rest, g :: fields, count, s, t, h, ho, hf => by
    obtain ⟨fill, hfill, h⟩ := Except.bind_eq_ok_iff.mp h
    cases i with
    | zero =>
      obtain rfl := Option.some.inj ho
      obtain rfl := Option.some.inj hf
      exact ⟨fill, hfill⟩
    | succ i => exact outline_of_readItems (i := i) rest h ho hf

/-! ### Picking -/

theorem readItems_pick {short : String} (w : Winner) : (items : Items) →
    {fields : List (Field σ)} → (∀ f ∈ fields, f.reader.Picks) → {count : Nat} → {s t : σ} →
    readItems short fields count s items = .ok t →
    readItems short fields count s (items.pick w) = .ok t
  | .close _, _, _, _, _, _, h => h
  | .cons _ _, [], _, _, _, _, h => by cases h
  | .cons o rest, f :: fields, hfields, count, s, t, h => by
    obtain ⟨fill, hfill, h⟩ := Except.bind_eq_ok_iff.mp h
    rw [Items.pick, readItems, hfields f List.mem_cons_self hfill w]
    exact readItems_pick w rest (fun g hg => hfields g (List.mem_cons_of_mem f hg)) h

theorem Step.pick (hfields : ∀ f ∈ fields, f.reader.Picks) {name : StringLiteral} {o : Outline}
    {s s' : σ} (h : Step fields (name, o) s s') (w : Winner) :
    Step fields (name, o.pick w) s s' := by
  cases h with
  | known hn hf hfree hread =>
    exact .known hn hf hfree (hfields _ (mem_of_field? hf).1 hread w)
  | unknown hn hf hskip => exact .unknown hn hf (o.skip_pick w hskip)

/-- A member that does not count is not known: of a known name there is no second member. -/
theorem readMembers_pick (hfields : ∀ f ∈ r.fields, f.reader.Picks) (w : Winner) :
    (members : Members) → {before : List (Except Fault String)} → {s t : σ} →
    readMembers r.fields s members = .ok t →
    (∀ n ∈ r.fields.map Field.name, .ok n ∈ before → .ok n ∉ members.names) →
    members.NamesOnce (r.fields.map Field.name) →
    readMembers r.fields s (members.pick w before) = .ok t
  | .close _, _, _, _, h, _, _ => h
  | .stop _ _, _, _, _, h, _, _ => h
  | .cons name o rest, before, s, t, h, hbefore, honce => by
    obtain ⟨s', hstep, hrest⟩ := readMembers_cons_eq_ok_iff.mp h
    have honce' : rest.NamesOnce (r.fields.map Field.name) := fun n hn hdup =>
      honce n hn (List.duplicate_cons_iff.mpr (Or.inr hdup))
    rw [Members.pick]
    split
    · rename_i hdrops
      obtain ⟨n, hname, hmem⟩ := Winner.mem_of_drops hdrops
      have hunknown : n ∉ r.fields.map Field.name := by
        intro hn
        rcases hmem with hmem | hmem
        · exact hbefore n hn hmem (hname ▸ List.mem_cons_self)
        · exact honce n hn (List.duplicate_cons_iff.mpr (Or.inl ⟨hname, hmem⟩))
      cases hstep with
      | @known _ _ n' f _ _ hn' hf _ _ =>
        obtain rfl := Except.ok.inj (hname.symm.trans hn')
        obtain ⟨hmem, hfname⟩ := mem_of_field? hf
        exact absurd (List.mem_map.mpr ⟨f, hmem, hfname⟩) hunknown
      | unknown _ _ _ =>
        exact readMembers_pick hfields w rest hrest
          (fun n hn hmem hrest => hbefore n hn hmem (List.mem_cons_of_mem _ hrest)) honce'
    · refine readMembers_cons_eq_ok_iff.mpr ⟨s', hstep.pick hfields w, ?_⟩
      refine readMembers_pick hfields w rest hrest (fun n hn hmem hmem' => ?_) honce'
      rcases List.mem_cons.mp hmem with hname | hmem
      · exact honce n hn (List.duplicate_cons_iff.mpr (Or.inl ⟨hname.symm, hmem'⟩))
      · exact hbefore n hn hmem (List.mem_cons_of_mem _ hmem')

theorem reader_picks (hr : r.Lawful) (hfields : ∀ f ∈ r.fields, f.reader.Picks) :
    r.reader.Picks := by
  intro o a h w
  obtain ⟨t, ht, hfinish⟩ := Except.bind_eq_ok_iff.mp h
  refine Except.bind_eq_ok_iff.mpr ⟨t, ?_, hfinish⟩
  cases o with
  | object members =>
    exact readMembers_pick hfields w members ht (fun _ _ hmem => absurd hmem List.not_mem_nil)
      (namesOnce_of_readMembers hr ht)
  | array items =>
    rw [draftOfOutline] at ht
    rw [Outline.pick, draftOfOutline]
    cases hshort : r.positional with
    | none =>
      rw [hshort] at ht
      cases ht
    | some short =>
      rw [hshort] at ht
      exact readItems_pick w items hfields ht
  | _ => exact absurd ht Reader.refuse_ne_ok

end Record

end Json
end Mandate
