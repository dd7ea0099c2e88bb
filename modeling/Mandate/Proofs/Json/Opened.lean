/-
The beginning of a document.

A text may open arrays and objects, give some of their items and members, and stop where a value is
due.  `Reader.Opens` says which tokens such a beginning has if all that it gives is read.  A value
behind it is reached, whatever comes after that value, be it JSON or not, and so a value that cannot
be read decides the error of every document that goes on behind it (`Reader.Opens.read_append`).
-/
import Mandate.Proofs.Json.Printed
import Mandate.Proofs.Json.Reached

namespace Mandate
namespace Json

/-- The tokens of items with a comma behind each of them. -/
def Items.frontTokens (front : List Outline) : List Token :=
  front.flatMap fun o => o.tokens ++ [.comma]

/-- The tokens of members with a comma behind each of them. -/
def Members.frontTokens (front : List (StringLiteral × Outline)) : List Token :=
  front.flatMap fun m => .string m.1 :: .colon :: (m.2.tokens ++ [.comma])

/-- A document that begins with these tokens opens what `r` reads, up to a place where `inner` reads
the next value. -/
inductive Reader.Opens {β : Type} (inner : Reader β) :
    {α : Type} → Reader α → List Token → Prop
  | here : Opens inner inner []
  | map {α γ : Type} {r : Reader α} {ts : List Token} (f : α → γ) :
      Opens inner r ts → Opens inner (r.map f) ts
  | refine {α γ : Type} {r : Reader α} {ts : List Token} (f : α → Except String γ) :
      Opens inner r ts → Opens inner (r.refine f) ts
  | item {α : Type} {r : Reader α} {as : List α} {ts : List Token} (front : List Outline) :
      (∀ o ∈ front, o.Complete) → r.readItems (.ofList front) = .ok as → Opens inner r ts →
      Opens inner (list r) (.openArray :: (Items.frontTokens front ++ ts))
  | member {σ α : Type} {r : Record σ α} {s : σ} {name : StringLiteral} {n : String} {f : Field σ}
      {ts : List Token} (front : List (StringLiteral × Outline)) : (∀ m ∈ front, m.2.Complete) →
      Record.readMembers r.fields r.start (.ofList front) = .ok s → name.text = .ok n →
      Record.field? r.fields n = some f → f.isFilled s = false → Opens inner f.reader ts →
      Opens inner r.reader
        (.openObject :: (Members.frontTokens front ++ .string name :: .colon :: ts))
  | position {σ α : Type} {r : Record σ α} {short : String} {s : σ} {f : Field σ} {ts : List Token}
      (front : List Outline) : (∀ o ∈ front, o.Complete) → r.positional = some short →
      Record.readItems short (r.fields.take front.length) 0 r.start (.ofList front) = .ok s →
      r.fields[front.length]? = some f → Opens inner f.reader ts →
      Opens inner r.reader (.openArray :: (Items.frontTokens front ++ ts))

/-! ## The descent -/

/-- Whether a value may begin with these tokens, as an item of an array. -/
def Token.BeginItem (ts : List Token) : Prop :=
  ∃ t us, ts = t :: us ∧ t ≠ .closeArray

theorem Outline.beginItem {o : Outline} (h : o.Complete) (ts : List Token) :
    Token.BeginItem (o.tokens ++ ts) := by
  obtain ⟨t, us, htokens, hne⟩ := tokens_eq_cons h
  exact ⟨t, us ++ ts, by rw [htokens, List.cons_append], hne⟩

theorem Items.frontTokens_cons (o : Outline) (front : List Outline) (ts : List Token) :
    frontTokens (o :: front) ++ ts = o.tokens ++ .comma :: (frontTokens front ++ ts) := by
  simp [frontTokens]

theorem Members.frontTokens_cons (m : StringLiteral × Outline)
    (front : List (StringLiteral × Outline)) (ts : List Token) :
    frontTokens (m :: front) ++ ts =
      .string m.1 :: .colon :: (m.2.tokens ++ .comma :: (frontTokens front ++ ts)) := by
  simp [frontTokens]

theorem Items.beginItem_front {front : List Outline} (hfront : ∀ o ∈ front, o.Complete)
    {ts : List Token} (h : Token.BeginItem ts) : Token.BeginItem (frontTokens front ++ ts) := by
  cases front with
  | nil => exact h
  | cons o front =>
    rw [frontTokens_cons]
    exact Outline.beginItem (hfront o List.mem_cons_self) _

/-- Where an item is due, those in front are found, and then the descent is at the tokens behind
them.  It has taken no more steps than there are tokens in front. -/
theorem Items.read_front {front : List Outline} (hfront : ∀ o ∈ front, o.Complete)
    {ts : List Token} (hts : Token.BeginItem ts) (fuel : Nat)
    (hfuel : (frontTokens front).length ≤ fuel) :
    ∃ fuel' rest, fuel ≤ fuel' + (frontTokens front).length ∧
      Items.cons (Outline.read fuel (frontTokens front ++ ts)).1
          (Items.readMore fuel (Outline.read fuel (frontTokens front ++ ts)).2).1 =
        .prepend front (.cons (Outline.read fuel' ts).1 rest) := by
  induction front generalizing fuel with
  | nil => exact ⟨fuel, _, Nat.le_refl _, rfl⟩
  | cons o front ih =>
    have hlength : (frontTokens (o :: front)).length =
        o.tokens.length + (1 + (frontTokens front).length) := by
      have := congrArg List.length (frontTokens_cons o front [])
      simp only [List.append_nil, List.length_append, List.length_cons] at this
      omega
    have htail : ∀ o ∈ front, o.Complete := fun o' ho' => hfront o' (List.mem_cons_of_mem o ho')
    obtain ⟨fuel, rfl⟩ : ∃ k, fuel = k + 1 := ⟨fuel - 1, by omega⟩
    have hread := Outline.read_tokens o (hfront o List.mem_cons_self) (fuel + 1) (by omega)
      (.comma :: (frontTokens front ++ ts))
    obtain ⟨fuel', rest, hle, hrest⟩ := ih htail fuel (by omega)
    obtain ⟨t, us, hbegin, hne⟩ := beginItem_front htail hts
    refine ⟨fuel', rest, by omega, ?_⟩
    -- What follows the comma has to be seen to begin an item before the descent goes on.
    rw [frontTokens_cons, hread, hbegin, readMore_comma hne, ← hbegin, prepend, ← hrest]

theorem Members.readOne_cons (fuel : Nat) (name : StringLiteral) (ts : List Token) :
    readOne (fuel + 1) (.string name :: .colon :: ts) =
      (.cons name (Outline.read fuel ts).1 (readMore fuel (Outline.read fuel ts).2).1,
        (readMore fuel (Outline.read fuel ts).2).2) :=
  rfl

theorem Members.read_front {front : List (StringLiteral × Outline)}
    (hfront : ∀ m ∈ front, m.2.Complete) (name : StringLiteral) (ts : List Token) (fuel : Nat)
    (hfuel : (frontTokens front).length < fuel) :
    ∃ fuel' rest, fuel ≤ fuel' + (frontTokens front).length + 1 ∧
      (Members.readOne fuel (frontTokens front ++ .string name :: .colon :: ts)).1 =
        .prepend front (.cons name (Outline.read fuel' ts).1 rest) := by
  induction front generalizing fuel with
  | nil =>
    obtain ⟨fuel, rfl⟩ : ∃ k, fuel = k + 1 := ⟨fuel - 1, by omega⟩
    exact ⟨fuel, _, Nat.le_refl _, rfl⟩
  | cons m front ih =>
    obtain ⟨name', o⟩ := m
    have hlength : (frontTokens ((name', o) :: front)).length =
        o.tokens.length + (3 + (frontTokens front).length) := by
      have := congrArg List.length (frontTokens_cons (name', o) front [])
      simp only [List.append_nil, List.length_append, List.length_cons] at this
      omega
    obtain ⟨fuel, rfl⟩ : ∃ k, fuel = k + 2 := ⟨fuel - 2, by omega⟩
    have hread := Outline.read_tokens o (hfront _ List.mem_cons_self) (fuel + 1) (by omega)
      (.comma :: (frontTokens front ++ .string name :: .colon :: ts))
    obtain ⟨fuel', rest, hle, hrest⟩ :=
      ih (fun m hm => hfront m (List.mem_cons_of_mem _ hm)) fuel (by omega)
    refine ⟨fuel', rest, by omega, ?_⟩
    rw [frontTokens_cons, readOne_cons, hread]
    show Members.cons name' o (readOne fuel _).1 = _
    rw [hrest, prepend]

/-- Where an array has just been opened, the descent comes to the item behind those in front. -/
theorem Outline.read_openArray {front : List Outline} (hfront : ∀ o ∈ front, o.Complete)
    {ts : List Token} (hts : Token.BeginItem ts) (fuel : Nat)
    (hfuel : (Items.frontTokens front).length + 2 ≤ fuel) :
    ∃ fuel' rest, fuel ≤ fuel' + (Items.frontTokens front).length + 2 ∧
      (read fuel (.openArray :: (Items.frontTokens front ++ ts))).1 =
        .array (.prepend front (.cons (read fuel' ts).1 rest)) := by
  obtain ⟨fuel, rfl⟩ : ∃ k, fuel = k + 2 := ⟨fuel - 2, by omega⟩
  obtain ⟨fuel', rest, hle, hrest⟩ := Items.read_front hfront hts fuel (by omega)
  obtain ⟨t, us, hbegin, hne⟩ := Items.beginItem_front hfront hts
  refine ⟨fuel', rest, by omega, ?_⟩
  rw [← hrest]
  simp only [read, hbegin, Items.read_cons hne]

theorem Outline.read_openObject {front : List (StringLiteral × Outline)}
    (hfront : ∀ m ∈ front, m.2.Complete) (name : StringLiteral) (ts : List Token) (fuel : Nat)
    (hfuel : (Members.frontTokens front).length + 3 ≤ fuel) :
    ∃ fuel' rest, fuel ≤ fuel' + (Members.frontTokens front).length + 3 ∧
      (read fuel
          (.openObject :: (Members.frontTokens front ++ .string name :: .colon :: ts))).1 =
        .object (.prepend front (.cons name (read fuel' ts).1 rest)) := by
  obtain ⟨fuel, rfl⟩ : ∃ k, fuel = k + 2 := ⟨fuel - 2, by omega⟩
  obtain ⟨fuel', rest, hle, hrest⟩ := Members.read_front hfront name ts fuel (by omega)
  refine ⟨fuel', rest, by omega, ?_⟩
  rw [← hrest]
  cases front <;> rfl

/-! ## Where a number ends -/

theorem Items.separated_front (front : List Outline) {ts : List Token} (h : Token.Separated ts) :
    Token.Separated (frontTokens front ++ ts) := by
  induction front with
  | nil => exact h
  | cons o front ih =>
    rw [frontTokens_cons]
    exact Outline.separated o _ (.cons ih rfl)

theorem Members.separated_front (front : List (StringLiteral × Outline)) {ts : List Token}
    (h : Token.Separated ts) : Token.Separated (frontTokens front ++ ts) := by
  induction front with
  | nil => exact h
  | cons m front ih =>
    rw [frontTokens_cons]
    exact ((Outline.separated m.2 _ (.cons ih rfl)).cons rfl).cons rfl

/-- Whether the last of these tokens ends by itself. -/
def Token.EndsByItself (ts : List Token) : Prop :=
  ∃ t, ts.getLast? = some t ∧ t.isNumber = false

theorem Token.EndsByItself.append {ts : List Token} (h : EndsByItself ts) (us : List Token) :
    EndsByItself (us ++ ts) := by
  obtain ⟨t, hlast, ht⟩ := h
  exact ⟨t, by rw [List.getLast?_append, hlast, Option.some_or], ht⟩

theorem Items.endsByItself : (items : Items) → Token.EndsByItself items.moreTokens
  | .close _ => ⟨.closeArray, rfl, rfl⟩
  | .cons o rest => (endsByItself rest).append (.comma :: o.tokens)

theorem Members.endsByItself : (members : Members) → Token.EndsByItself members.moreTokens
  | .close _ => ⟨.closeObject, rfl, rfl⟩
  | .stop name _ => ⟨.string name, rfl, rfl⟩
  | .cons name o rest => (endsByItself rest).append (.comma :: .string name :: .colon :: o.tokens)

/-- Of all values, only a number could go on in the text behind it. -/
theorem Outline.endsByItself {o : Outline} (h : ∀ l, o ≠ .number l) :
    Token.EndsByItself o.tokens := by
  cases o with
  | number l => exact absurd rfl (h l)
  | array items =>
    cases items with
    | close => exact ⟨.closeArray, rfl, rfl⟩
    | cons o rest => exact (Items.endsByItself rest).append (.openArray :: o.tokens)
  | object members =>
    cases members with
    | close => exact ⟨.closeObject, rfl, rfl⟩
    | stop name => exact ⟨.string name, rfl, rfl⟩
    | cons name o rest =>
      exact (Members.endsByItself rest).append (.openObject :: .string name :: .colon :: o.tokens)
  | _ => exact ⟨_, rfl, rfl⟩

/-! ## Readers -/

namespace Reader

variable {α β : Type} {inner : Reader β} {r : Reader α} {ts : List Token} {o : Outline}

theorem Opens.separated (h : Opens inner r ts) {us : List Token} (hus : Token.Separated us) :
    Token.Separated (ts ++ us) := by
  induction h with
  | here => exact hus
  | map _ _ ih | refine _ _ ih => exact ih
  | item front _ _ _ ih | position front _ _ _ _ _ ih =>
    rw [List.cons_append, List.append_assoc]
    exact (Items.separated_front front ih).cons rfl
  | member front _ _ _ _ _ _ ih =>
    rw [List.cons_append, List.append_assoc]
    exact (Members.separated_front front ((ih.cons rfl).cons rfl)).cons rfl

theorem Opens.beginItem (h : Opens inner r ts) (ho : o.Complete) (us : List Token) :
    Token.BeginItem (ts ++ (o.tokens ++ us)) := by
  induction h with
  | here => exact Outline.beginItem ho us
  | map _ _ ih | refine _ _ ih => exact ih
  | item | position => exact ⟨.openArray, _, rfl, by simp⟩
  | member => exact ⟨.openObject, _, rfl, by simp⟩

/-- A value behind such a beginning is reached.  To open an array takes one step more than it has
tokens, so twice as many are enough. -/
theorem Opens.reachedAt (h : Opens inner r ts) (ho : o.Complete) (us : List Token) (fuel : Nat)
    (hfuel : 2 * ts.length + o.tokens.length ≤ fuel) :
    ReachedAt inner o r (Outline.read fuel (ts ++ (o.tokens ++ us))).1 := by
  induction h generalizing fuel with
  | here =>
    have hread := Outline.read_tokens o ho fuel (by simpa using hfuel) us
    rw [List.nil_append, hread]
    exact .here
  | map f _ ih => exact .map f (ih _ hfuel)
  | refine f _ ih => exact .refine f (ih _ hfuel)
  | item front hfront hread hopens ih =>
    simp only [List.length_cons, List.length_append] at hfuel
    obtain ⟨fuel', rest, hle, hdescent⟩ :=
      Outline.read_openArray hfront (hopens.beginItem ho us) fuel (by omega)
    rw [List.cons_append, List.append_assoc, hdescent]
    exact .item front rest hread (ih _ (by omega))
  | @member σ α r s name n f ts front hfront hread hn hf hfilled _ ih =>
    simp only [List.length_cons, List.length_append] at hfuel
    obtain ⟨fuel', rest, hle, hdescent⟩ :=
      Outline.read_openObject hfront name (ts ++ (o.tokens ++ us)) fuel (by omega)
    simp only [List.cons_append, List.append_assoc, hdescent]
    exact .member front rest hread hn hf hfilled (ih _ (by omega))
  | position front hfront hshort hread hf hopens ih =>
    simp only [List.length_cons, List.length_append] at hfuel
    obtain ⟨fuel', rest, hle, hdescent⟩ :=
      Outline.read_openArray hfront (hopens.beginItem ho us) fuel (by omega)
    rw [List.cons_append, List.append_assoc, hdescent]
    exact .position front rest hshort hread hf (ih _ (by omega))

/-- A value that cannot be read decides the error, whatever text follows it. -/
theorem Opens.read_append (h : Opens inner r ts) {p x : String} (hp : Token.Layout ts p.toList)
    (hx : o.Written x.toList) (hnumber : ∀ l, o ≠ .number l) {e : Error}
    (he : inner.outline o = .error e) (q : String) : r.read (p ++ x ++ q) = .error e := by
  obtain ⟨ho, hlayout⟩ := hx
  have hends := (Outline.endsByItself hnumber).append ts
  have htokens : Token.ofChars (p ++ x ++ q).toList =
      ts ++ (o.tokens ++ Token.ofChars q.toList) := by
    rw [String.toList_append, String.toList_append, ← List.append_assoc]
    refine Token.ofChars_append (hp.append hlayout) (h.separated o.separated_tokens) ?_
    intro t ht hnumber
    obtain ⟨u, hlast, hu⟩ := hends
    rw [hlast] at ht
    obtain rfl := Option.some.inj ht
    rw [hu] at hnumber
    cases hnumber
  have hroot : (Document.ofText (p ++ x ++ q)).root =
      (Outline.read (3 * (ts ++ (o.tokens ++ Token.ofChars q.toList)).length + 1)
        (ts ++ (o.tokens ++ Token.ofChars q.toList))).1 := by
    rw [← htokens]
    rfl
  refine read_of_error (hroot ▸ (h.reachedAt ho _ _ ?_).outline_eq_error he)
  simp only [List.length_append]
  omega

end Reader

end Json
end Mandate
