/-
Where a reader fails.

Going through a document, a reader comes to each part of it with everything in front already read,
and the first part that cannot be read decides the error of the whole.  `Reader.ReachedAt` says that
reading comes to a part; there is a case for each combinator that reads in several steps.
-/
import Mandate.Proofs.Json.Members

namespace Mandate
namespace Json

/-- Some items in front of others, whichever way those end. -/
def Items.prepend : List Outline → Items → Items
  | [], rest => rest
  | o :: os, rest => .cons o (prepend os rest)

/-- Reading an outline by `r` comes to the part `p` of it, which is to be read by `inner`.  Of what
stands behind that part nothing is said. -/
inductive Reader.ReachedAt {β : Type} (inner : Reader β) (p : Outline) :
    {α : Type} → Reader α → Outline → Prop
  | here : ReachedAt inner p inner p
  | map {α γ : Type} {r : Reader α} {o : Outline} (f : α → γ) :
      ReachedAt inner p r o → ReachedAt inner p (r.map f) o
  | refine {α γ : Type} {r : Reader α} {o : Outline} (f : α → Except String γ) :
      ReachedAt inner p r o → ReachedAt inner p (r.refine f) o
  | item {α : Type} {r : Reader α} {as : List α} {o : Outline} (front : List Outline)
      (rest : Items) : r.readItems (.ofList front) = .ok as → ReachedAt inner p r o →
      ReachedAt inner p (list r) (.array (.prepend front (.cons o rest)))
  | member {σ α : Type} {r : Record σ α} {s : σ} {name : StringLiteral} {n : String} {f : Field σ}
      {o : Outline} (front : List (StringLiteral × Outline)) (rest : Members) :
      Record.readMembers r.fields r.start (.ofList front) = .ok s → name.text = .ok n →
      Record.field? r.fields n = some f → f.isFilled s = false → ReachedAt inner p f.reader o →
      ReachedAt inner p r.reader (.object (.prepend front (.cons name o rest)))
  | position {σ α : Type} {r : Record σ α} {short : String} {s : σ} {f : Field σ} {o : Outline}
      (front : List Outline) (rest : Items) : r.positional = some short →
      Record.readItems short (r.fields.take front.length) 0 r.start (.ofList front) = .ok s →
      r.fields[front.length]? = some f → ReachedAt inner p f.reader o →
      ReachedAt inner p r.reader (.array (.prepend front (.cons o rest)))

theorem Reader.readItems_prepend {α : Type} {r : Reader α} {front : List Outline} {as : List α}
    {rest : Items} (h : r.readItems (.ofList front) = .ok as) :
    r.readItems (.prepend front rest) = (r.readItems rest).map (as ++ ·) := by
  induction front generalizing as with
  | nil =>
    cases h
    show r.readItems rest = (r.readItems rest).map id
    cases r.readItems rest <;> rfl
  | cons o front ih =>
    obtain ⟨a, ha, h⟩ := Except.bind_eq_ok_iff.mp h
    obtain ⟨as, has, rfl⟩ := Except.map_eq_ok_iff.mp h
    rw [Items.prepend, readItems, ha, ih has]
    show ((r.readItems rest).map (as ++ ·)).map (a :: ·) = _
    cases r.readItems rest <;> rfl

namespace Record

variable {σ α : Type} {fields : List (Field σ)}

theorem readItems_prepend {short : String} {before after : List (Field σ)} {front : List Outline}
    {rest : Items} {count : Nat} {s s' : σ}
    (h : readItems short before count s (.ofList front) = .ok s') :
    readItems short (before ++ after) count s (.prepend front rest) =
      readItems short after (count + before.length) s' rest := by
  induction before generalizing front count s with
  | nil =>
    cases front with
    | nil =>
      cases h
      rfl
    | cons o front => cases h
  | cons f before ih =>
    cases front with
    | nil => cases h
    | cons o front =>
      obtain ⟨fill, hfill, h⟩ := Except.bind_eq_ok_iff.mp h
      have hcount : count + (before.length + 1) = count + 1 + before.length := by omega
      rw [Items.prepend, List.cons_append, readItems, hfill, List.length_cons, hcount]
      exact ih h

end Record

/-- The first part that cannot be read decides the error. -/
theorem Reader.ReachedAt.outline_eq_error {α β : Type} {inner : Reader β} {p : Outline}
    {r : Reader α} {o : Outline} (h : ReachedAt inner p r o) {e : Error}
    (he : inner.outline p = .error e) : r.outline o = .error e := by
  induction h with
  | here => exact he
  | map f _ ih =>
    show Except.map f _ = _
    rw [ih]
    rfl
  | refine f _ ih =>
    show Except.bind _ _ = _
    rw [ih]
    rfl
  | @item α r as o front rest hfront _ ih =>
    show r.readItems _ = _
    rw [readItems_prepend hfront, readItems, ih]
    rfl
  | @member σ α r s name n f o front rest hfront hn hf hfilled _ ih =>
    have hdraft : r.draftOfOutline (.object (.prepend front (.cons name o rest))) = .error e := by
      show Record.readMembers _ _ _ = _
      rw [Record.readMembers_prepend hfront, Record.readMembers_cons hn]
      simp only [hf, hfilled, Bool.false_eq_true, if_false, ih]
      rfl
    show Except.bind _ _ = _
    rw [hdraft]
    rfl
  | @position σ α r short s f o front rest hshort hfront hf _ ih =>
    obtain ⟨hlt, hget⟩ := List.getElem?_eq_some_iff.mp hf
    have hsplit : r.fields =
        r.fields.take front.length ++ f :: r.fields.drop (front.length + 1) := by
      rw [← hget, ← List.drop_eq_getElem_cons hlt, List.take_append_drop]
    have hdraft : r.draftOfOutline (.array (.prepend front (.cons o rest))) = .error e := by
      rw [Record.draftOfOutline, hshort]
      show Record.readItems _ r.fields _ _ _ = _
      rw [hsplit, Record.readItems_prepend hfront, Record.readItems, ih]
      rfl
    show Except.bind _ _ = _
    rw [hdraft]
    rfl

end Json
end Mandate
