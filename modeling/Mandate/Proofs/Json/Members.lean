/-
The order of an object's members does not matter.

Going through an object takes a draft from member to member, and `Record.Step` is what one member
does: a known one fills its part of the draft, which must not be filled yet, and an unknown one
leaves the draft alone.  Where the fields of a record keep to their own parts of the draft
(`Record.Lawful`), two neighbouring steps can change places, and so reading succeeds in every order
of the members or in none, with the same draft (`Record.readMembers_perm`).
-/
import Mandate.Json.Record
import Mandate.Proofs.Decoder.Reads
import Mandate.Proofs.Json.Outline

namespace Mandate
namespace Json

/-- Some members in front of others, whichever way those end. -/
def Members.prepend : List (StringLiteral × Outline) → Members → Members
  | [], rest => rest
  | (name, o) :: ms, rest => .cons name o (prepend ms rest)

theorem Members.ofList_append (ms ms' : List (StringLiteral × Outline)) :
    ofList (ms ++ ms') = prepend ms (ofList ms') := by
  induction ms with
  | nil => rfl
  | cons m ms ih => rw [List.cons_append, ofList, prepend, ih]

namespace Field

variable {σ α : Type}

/-- Whether reading a value of this field can fill a draft in this way. -/
def Fills (f : Field σ) (fill : σ → σ) : Prop :=
  ∃ o, f.reader.outline o = .ok fill

theorem fills_map {name : String} {isFilled : σ → Bool} {r : Reader α} {set : α → σ → σ}
    {fill : σ → σ} (h : (⟨name, isFilled, r.map set⟩ : Field σ).Fills fill) :
    ∃ a, fill = set a := by
  obtain ⟨o, ho⟩ := h
  obtain ⟨a, _, rfl⟩ := Except.map_eq_ok_iff.mp ho
  exact ⟨a, rfl⟩

/-- A field whose part of the draft is not filled at the start, and is filled by the field. -/
structure Lawful (f : Field σ) (start : σ) : Prop where
  unfilled : f.isFilled start = false
  fills : ∀ {φ}, f.Fills φ → ∀ s, f.isFilled (φ s) = true

theorem lawful_map {name : String} {isFilled : σ → Bool} {r : Reader α} {set : α → σ → σ}
    {start : σ} (hstart : isFilled start = false) (hset : ∀ a s, isFilled (set a s) = true) :
    (⟨name, isFilled, r.map set⟩ : Field σ).Lawful start where
  unfilled := hstart
  fills hφ s := by
    obtain ⟨a, rfl⟩ := fills_map hφ
    exact hset a s

/-- Two fields that have no part of the draft in common. -/
structure Independent (f g : Field σ) : Prop where
  commute : ∀ {φ ψ}, f.Fills φ → g.Fills ψ → ∀ s, φ (ψ s) = ψ (φ s)
  keepsRight : ∀ {φ}, f.Fills φ → ∀ s, g.isFilled (φ s) = g.isFilled s
  keepsLeft : ∀ {ψ}, g.Fills ψ → ∀ s, f.isFilled (ψ s) = f.isFilled s

instance : Std.Symm (Independent (σ := σ)) where
  symm _ _ h :=
    { commute := fun hψ hφ s => (h.commute hφ hψ s).symm
      keepsRight := h.keepsLeft
      keepsLeft := h.keepsRight }

theorem independent_map {β : Type} {m n : String} {p q : σ → Bool} {r : Reader α} {r' : Reader β}
    {set : α → σ → σ} {set' : β → σ → σ} (hcommute : ∀ a b s, set a (set' b s) = set' b (set a s))
    (hq : ∀ a s, q (set a s) = q s) (hp : ∀ b s, p (set' b s) = p s) :
    Independent ⟨m, p, r.map set⟩ ⟨n, q, r'.map set'⟩ where
  commute hφ hψ s := by
    obtain ⟨a, rfl⟩ := fills_map hφ
    obtain ⟨b, rfl⟩ := fills_map hψ
    exact hcommute a b s
  keepsRight hφ s := by
    obtain ⟨a, rfl⟩ := fills_map hφ
    exact hq a s
  keepsLeft hψ s := by
    obtain ⟨b, rfl⟩ := fills_map hψ
    exact hp b s

end Field

namespace Record

variable {σ α : Type}

/-- A record whose fields have a part of the draft each. -/
structure Lawful (r : Record σ α) : Prop where
  fields : ∀ f ∈ r.fields, f.Lawful r.start
  independent : r.fields.Pairwise Field.Independent

variable {r : Record σ α} {fields : List (Field σ)}

theorem mem_of_field? {n : String} {f : Field σ} (h : field? fields n = some f) :
    f ∈ fields ∧ f.name = n := by
  refine ⟨List.mem_of_find?_eq_some h, ?_⟩
  simpa using List.find?_some h

/-- Fields that are found under different names are independent. -/
theorem Lawful.independent_of_field? (hr : r.Lawful) {m n : String} {f g : Field σ}
    (hf : field? r.fields m = some f) (hg : field? r.fields n = some g) (hmn : m ≠ n) :
    f.Independent g := by
  obtain ⟨hfmem, hfname⟩ := mem_of_field? hf
  obtain ⟨hgmem, hgname⟩ := mem_of_field? hg
  have hne : f ≠ g := by
    rintro rfl
    exact hmn (hfname.symm.trans hgname)
  exact hr.independent.forall hfmem hgmem hne

/-- What one member does to a draft. -/
inductive Step (fields : List (Field σ)) : StringLiteral × Outline → σ → σ → Prop
  | known {name : StringLiteral} {o : Outline} {n : String} {f : Field σ} {fill : σ → σ} {s : σ} :
      name.text = .ok n → field? fields n = some f → f.isFilled s = false →
      f.reader.outline o = .ok fill → Step fields (name, o) s (fill s)
  | unknown {name : StringLiteral} {o : Outline} {n : String} {s : σ} :
      name.text = .ok n → field? fields n = none → o.skip = .ok () → Step fields (name, o) s s

theorem readMembers_cons {name : StringLiteral} {n : String} (hn : name.text = .ok n) (o : Outline)
    (rest : Members) (s : σ) :
    readMembers fields s (.cons name o rest) =
      match field? fields n with
      | some field =>
        if field.isFilled s then .error (.content (.repeatedField n))
        else (field.reader.outline o).bind fun fill => readMembers fields (fill s) rest
      | none => (o.skip.mapError .text).bind fun _ => readMembers fields s rest := by
  rw [readMembers, hn]
  rfl

/-- A member with a known name is read by the field of that name, which must not be filled yet. -/
theorem step_iff_of_field? {name : StringLiteral} {o : Outline} {n : String} {f : Field σ} {s t : σ}
    (hn : name.text = .ok n) (hf : field? fields n = some f) :
    Step fields (name, o) s t ↔
      f.isFilled s = false ∧ ∃ fill, f.reader.outline o = .ok fill ∧ t = fill s := by
  constructor
  · intro h
    cases h with
    | @known _ _ n' g fill _ hn' hg hfilled hread =>
      obtain rfl := Except.ok.inj (hn.symm.trans hn')
      obtain rfl := Option.some.inj (hf.symm.trans hg)
      exact ⟨hfilled, fill, hread, rfl⟩
    | unknown hn' hg _ =>
      obtain rfl := Except.ok.inj (hn.symm.trans hn')
      rw [hf] at hg
      cases hg
  · intro h
    obtain ⟨hfilled, fill, hread, rfl⟩ := h
    exact .known hn hf hfilled hread

theorem Step.readMembers_cons {name : StringLiteral} {o : Outline} {s s' : σ}
    (h : Step fields (name, o) s s') (rest : Members) :
    readMembers fields s (.cons name o rest) = readMembers fields s' rest := by
  cases h with
  | known hn hf hfilled hread =>
    rw [Record.readMembers_cons hn, hf]
    simp only [hfilled, hread, Bool.false_eq_true, if_false]
    rfl
  | unknown hn hf hskip =>
    rw [Record.readMembers_cons hn, hf]
    simp only [hskip]
    rfl

theorem readMembers_cons_eq_ok_iff {name : StringLiteral} {o : Outline} {rest : Members}
    {s t : σ} : readMembers fields s (.cons name o rest) = .ok t ↔
      ∃ s', Step fields (name, o) s s' ∧ readMembers fields s' rest = .ok t := by
  constructor
  · intro h
    obtain ⟨n, hn, _⟩ := Except.bind_eq_ok_iff.mp h
    rw [Except.mapError_eq_ok_iff] at hn
    rw [readMembers_cons hn] at h
    cases hf : field? fields n with
    | none =>
      rw [hf] at h
      obtain ⟨_, hskip, ht⟩ := Except.bind_eq_ok_iff.mp h
      exact ⟨s, .unknown hn hf (Except.mapError_eq_ok_iff.mp hskip), ht⟩
    | some f =>
      rw [hf] at h
      by_cases hfilled : f.isFilled s = true
      · simp [hfilled] at h
      · simp only [if_neg hfilled] at h
        obtain ⟨fill, hfill, ht⟩ := Except.bind_eq_ok_iff.mp h
        exact ⟨fill s, .known hn hf (by simpa using hfilled) hfill, ht⟩
  · intro h
    obtain ⟨s', hstep, ht⟩ := h
    rw [hstep.readMembers_cons, ht]

theorem readMembers_prepend {front : List (StringLiteral × Outline)} {rest : Members} {s s' : σ}
    (h : readMembers fields s (.ofList front) = .ok s') :
    readMembers fields s (.prepend front rest) = readMembers fields s' rest := by
  induction front generalizing s with
  | nil =>
    cases h
    rfl
  | cons m front ih =>
    obtain ⟨s₁, hstep, h⟩ := readMembers_cons_eq_ok_iff.mp h
    rw [Members.prepend, hstep.readMembers_cons, ih h]

theorem readMembers_append {ms ms' : List (StringLiteral × Outline)} {s s' : σ}
    (h : readMembers fields s (.ofList ms) = .ok s') :
    readMembers fields s (.ofList (ms ++ ms')) = readMembers fields s' (.ofList ms') := by
  rw [Members.ofList_append, readMembers_prepend h]

/-- Two neighbouring members may change places. -/
theorem Step.swap (hr : r.Lawful) {m m' : StringLiteral × Outline} {s s₁ s₂ : σ}
    (h : Step r.fields m s s₁) (h' : Step r.fields m' s₁ s₂) :
    ∃ s₁', Step r.fields m' s s₁' ∧ Step r.fields m s₁' s₂ := by
  cases h with
  | unknown hn hf hskip => exact ⟨s₂, h', .unknown hn hf hskip⟩
  | @known name o n f φ _ hn hf hfilled hφ =>
    cases h' with
    | unknown hn' hf' hskip' =>
      exact ⟨s, .unknown hn' hf' hskip', .known hn hf hfilled hφ⟩
    | @known name' o' n' g ψ _ hn' hf' hfilled' hψ =>
      by_cases hnn : n = n'
      · -- The second of two members of one name finds its part of the draft filled.
        subst hnn
        have hfg : f = g := Option.some.inj (hf.symm.trans hf')
        subst hfg
        rw [(hr.fields f (mem_of_field? hf).1).fills ⟨o, hφ⟩ s] at hfilled'
        cases hfilled'
      · have hind := hr.independent_of_field? hf hf' hnn
        have hfilled₁ : g.isFilled s = false := by
          rw [← hind.keepsRight ⟨o, hφ⟩ s]
          exact hfilled'
        have hfilled₂ : f.isFilled (ψ s) = false := by
          rw [hind.keepsLeft ⟨o', hψ⟩ s]
          exact hfilled
        rw [← hind.commute ⟨o, hφ⟩ ⟨o', hψ⟩ s]
        exact ⟨ψ s, .known hn' hf' hfilled₁ hψ, .known hn hf hfilled₂ hφ⟩

theorem readMembers_perm (hr : r.Lawful) {ms ms' : List (StringLiteral × Outline)}
    (h : ms.Perm ms') {s t : σ} (hread : readMembers r.fields s (.ofList ms) = .ok t) :
    readMembers r.fields s (.ofList ms') = .ok t := by
  induction h generalizing s with
  | nil => exact hread
  | cons m _ ih =>
    obtain ⟨s', hstep, hrest⟩ := readMembers_cons_eq_ok_iff.mp hread
    exact readMembers_cons_eq_ok_iff.mpr ⟨s', hstep, ih hrest⟩
  | swap m m' ms =>
    obtain ⟨s₁, hstep, hrest⟩ := readMembers_cons_eq_ok_iff.mp hread
    obtain ⟨s₂, hstep', hrest⟩ := readMembers_cons_eq_ok_iff.mp hrest
    obtain ⟨s₁', hfirst, hsecond⟩ := hstep.swap hr hstep'
    exact readMembers_cons_eq_ok_iff.mpr
      ⟨s₁', hfirst, readMembers_cons_eq_ok_iff.mpr ⟨s₂, hsecond, hrest⟩⟩
  | trans _ _ ih ih' => exact ih' (ih hread)

end Record

end Json
end Mandate
