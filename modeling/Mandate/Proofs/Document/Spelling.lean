/-
The JSON texts of authors and batches, and that they are read as what they spell.

An author may be written as an object or as an array of its three members, an action as an object or
as an array of two, and a batch as an object that may leave out what is zero or empty.  The text of
an owner is its name, or the digits of its key in either case and after any spelling of the mark.
All of this is said of outlines, by shapes; a text that writes an outline of the right shape is then
a spelling of the batch (`Batch.SpelledBy`), whatever its blanks, its escapes and the members that
nobody knows.
-/
import Mandate.Batch.Document
import Mandate.Proofs.Format.Spelling
import Mandate.Proofs.Hex.Digits
import Mandate.Proofs.Json.Printed

namespace Mandate

open Json

/-! ## Owners -/

/-- The digits of a key after one of the marks, or after none. -/
def Key.SpelledBy {k : KeyKind} (key : Key k) (text : String) : Prop :=
  ∃ mark digits, mark ∈ [[], ['0', 'x'], ['0', 'X']] ∧ Hex.Spells key.bytes digits ∧
    text.toList = mark ++ digits

def Owner.SpelledBy : Owner → String → Prop
  | name n => fun text => text = n.text
  | key _ value => fun text => value.SpelledBy text

namespace Key

variable {k : KeyKind}

/-- No digit is taken for a part of the mark. -/
theorem stripMark_digits {bs : Bytes} {digits : List Char} (h : Hex.Spells bs digits) :
    stripMark digits = digits := by
  cases h with
  | nil => rfl
  | @cons b bs high low digits _ hlow _ =>
    have hdigit := Hex.digit?_of_isDigit hlow
    have hx : low ≠ 'x' := by
      rintro rfl
      cases hdigit
    have hX : low ≠ 'X' := by
      rintro rfl
      cases hdigit
    unfold stripMark
    split
    · rename_i heq
      exact absurd (List.cons.inj (List.cons.inj heq).2).1 hx
    · rename_i heq
      exact absurd (List.cons.inj (List.cons.inj heq).2).1 hX
    · rfl

theorem parse_of_spelledBy {key : Key k} {text : String} (h : key.SpelledBy text) :
    parse k text = .ok key := by
  obtain ⟨mark, digits, hmark, hdigits, htext⟩ := h
  have hstrip : stripMark text.toList = digits := by
    rw [htext]
    simp only [List.mem_cons, List.not_mem_nil, or_false] at hmark
    rcases hmark with rfl | rfl | rfl
    · exact stripMark_digits hdigits
    · rfl
    · rfl
  have hread : decodeDigits k digits = .ok key.bytes := by
    rw [decodeDigits, Hex.decode_of_spells hdigits]
    rfl
  rw [parse, hstrip, hread]
  exact ofBytes_eq_ok_iff.mpr rfl

end Key

theorem Owner.parse_of_spelledBy {o : Owner} {text : String} (h : o.SpelledBy text) :
    parse o.scheme text = .ok o := by
  cases o with
  | name n =>
    obtain rfl := h
    rfl
  | key k value =>
    show ((Key.parse k text).map (Owner.key k)).mapError AuthorError.payload = _
    rw [Key.parse_of_spelledBy h]
    rfl

/-! ## Authors -/

namespace AuthorForm

def Shaped (f : AuthorForm) : Shape :=
  Shape.Record [("type", Shape.Natural f.tag.toNat), ("owner", Shape.Text f.owner),
    ("weight", Shape.Natural f.weight.toNat)]

theorem record_lawful : record.Lawful where
  fields f hf := by
    simp only [record, List.mem_cons, List.not_mem_nil, or_false] at hf
    rcases hf with rfl | rfl | rfl <;> exact Field.lawful_map rfl fun _ _ => rfl
  independent := by
    simp only [record, List.pairwise_cons, List.mem_cons, List.not_mem_nil, or_false,
      forall_eq_or_imp, forall_eq]
    refine ⟨⟨?_, ?_⟩, ?_, fun _ h => h.elim, .nil⟩ <;>
      exact Field.independent_map (fun _ _ _ => rfl) (fun _ _ => rfl) fun _ _ => rfl

theorem outline_of_shaped {f : AuthorForm} {o : Outline} (ho : o.Complete) (h : f.Shaped o) :
    reader.outline o = .ok f := by
  have hdraft : record.draftOfOutline o = .ok ⟨some f.tag, some f.owner, some f.weight⟩ := by
    cases h with
    | object h =>
      refine Record.draftOfOutline_of_object record_lawful ho h fun named hnamed _ => ?_
      obtain _ | ⟨⟨hn₁, htag⟩, _ | ⟨⟨hn₂, howner⟩, _ | ⟨⟨hn₃, hweight⟩, _ | _⟩⟩⟩ := hnamed
      refine Record.readMembers_of_member hn₁ rfl rfl
        (Reader.map_outline_eq_ok (Reader.byte_of_shape htag) _) ?_
      refine Record.readMembers_of_member hn₂ rfl rfl
        (Reader.map_outline_eq_ok (Reader.text_of_shape howner) _) ?_
      exact Record.readMembers_of_member hn₃ rfl rfl
        (Reader.map_outline_eq_ok (Reader.word_of_shape hweight) _) rfl
    | array h =>
      obtain ⟨_ | ⟨htag, _ | ⟨howner, _ | ⟨hweight, _ | _⟩⟩⟩⟩ := h
      refine Record.readItems_of_item (Reader.map_outline_eq_ok (Reader.byte_of_shape htag) _) ?_
      refine Record.readItems_of_item (Reader.map_outline_eq_ok (Reader.text_of_shape howner) _) ?_
      exact Record.readItems_of_item (Reader.map_outline_eq_ok (Reader.word_of_shape hweight) _) rfl
  exact Record.outline_of_draft hdraft rfl

end AuthorForm

namespace Author

/-- The form of an author with its owner in any spelling. -/
def Shaped (a : Author) : Shape := fun o =>
  ∃ text, a.owner.SpelledBy text ∧ AuthorForm.Shaped ⟨a.scheme.tag, text, a.weight⟩ o

theorem ofForm_of_spelledBy {a : Author} {text : String} (h : a.owner.SpelledBy text) :
    ofForm ⟨a.scheme.tag, text, a.weight⟩ = .ok a := by
  rw [ofForm, Scheme.ofTag_tag]
  show ((Owner.parse a.owner.scheme text).map _) = _
  rw [Owner.parse_of_spelledBy h]
  rfl

theorem outline_of_shaped {a : Author} {o : Outline} (ho : o.Complete) (h : a.Shaped o) :
    reader.outline o = .ok a := by
  obtain ⟨text, htext, hform⟩ := h
  show (AuthorForm.reader.outline o).bind _ = _
  rw [AuthorForm.outline_of_shaped ho hform]
  show ((ofForm ⟨a.scheme.tag, text, a.weight⟩).mapError _).mapError _ = _
  rw [ofForm_of_spelledBy htext]
  rfl

end Author

/-! ## Actions -/

theorem ActionKind.outline_of_shape {k : ActionKind} {o : Outline}
    (h : Shape.Natural k.tag.toNat o) : reader.outline o = .ok k := by
  show (Reader.byte.outline o).bind _ = _
  rw [Reader.byte_of_shape h]
  show ((ofTag k.tag).mapError _).mapError _ = _
  rw [ofTag_tag]
  rfl

namespace Action

def Shaped (a : Action) : Shape :=
  Shape.Record [("ActionType", Shape.Natural a.kind.tag.toNat), ("Author", a.author.Shaped)]

theorem record_lawful : record.Lawful where
  fields f hf := by
    simp only [record, List.mem_cons, List.not_mem_nil, or_false] at hf
    rcases hf with rfl | rfl <;> exact Field.lawful_map rfl fun _ _ => rfl
  independent := by
    simp only [record, List.pairwise_cons, List.mem_cons, List.not_mem_nil, or_false, forall_eq]
    refine ⟨?_, fun _ h => h.elim, .nil⟩
    exact Field.independent_map (fun _ _ _ => rfl) (fun _ _ => rfl) fun _ _ => rfl

theorem outline_of_shaped {a : Action} {o : Outline} (ho : o.Complete) (h : a.Shaped o) :
    reader.outline o = .ok a := by
  have hdraft : record.draftOfOutline o = .ok ⟨some a.kind, some a.author⟩ := by
    cases h with
    | object h =>
      refine Record.draftOfOutline_of_object record_lawful ho h fun named hnamed hcomplete => ?_
      obtain _ | ⟨⟨hn₁, hkind⟩, _ | ⟨⟨hn₂, hauthor⟩, _ | _⟩⟩ := hnamed
      have hread := Author.outline_of_shaped (hcomplete _ (.tail _ (.head _))) hauthor
      refine Record.readMembers_of_member hn₁ rfl rfl
        (Reader.map_outline_eq_ok (ActionKind.outline_of_shape hkind) _) ?_
      exact Record.readMembers_of_member hn₂ rfl rfl (Reader.map_outline_eq_ok hread _) rfl
    | array h =>
      obtain ⟨_ | ⟨hkind, _ | ⟨hauthor, _ | _⟩⟩⟩ := h
      have hcomplete := Items.complete_ofList.mp ho
      have hread := Author.outline_of_shaped (hcomplete _ (.tail _ (.head _))) hauthor
      refine Record.readItems_of_item
        (Reader.map_outline_eq_ok (ActionKind.outline_of_shape hkind) _) ?_
      exact Record.readItems_of_item (Reader.map_outline_eq_ok hread _) rfl
  exact Record.outline_of_draft hdraft rfl

end Action

/-! ## Batches -/

namespace Batch

/-- An object of three members, of which each may be left out if it says nothing. -/
def Shaped (b : Batch) : Shape := fun o =>
  ∃ noThreshold noUpdateThreshold noActions : Bool,
    (noThreshold = true → b.threshold = 0) ∧ (noUpdateThreshold = true → b.updateThreshold = 0) ∧
    (noActions = true → b.actions = []) ∧
    Shape.Object ["threshold", "updateAuthorThreshold", "authorActions"]
      ((if noThreshold then [] else [("threshold", Shape.Natural b.threshold.toNat)]) ++
        (if noUpdateThreshold then []
          else [("updateAuthorThreshold", Shape.Natural b.updateThreshold.toNat)]) ++
        (if noActions then [] else [("authorActions", Shape.Array (b.actions.map Action.Shaped))]))
      o

/-- A text of an outline that has the shape of the batch. -/
def SpelledBy (b : Batch) (text : String) : Prop :=
  ∃ o, b.Shaped o ∧ o.Written text.toList

theorem record_lawful : record.Lawful where
  fields f hf := by
    simp only [record, List.mem_cons, List.not_mem_nil, or_false] at hf
    rcases hf with rfl | rfl | rfl <;> exact Field.lawful_map rfl fun _ _ => rfl
  independent := by
    simp only [record, List.pairwise_cons, List.mem_cons, List.not_mem_nil, or_false,
      forall_eq_or_imp, forall_eq]
    refine ⟨⟨?_, ?_⟩, ?_, fun _ h => h.elim, .nil⟩ <;>
      exact Field.independent_map (fun _ _ _ => rfl) (fun _ _ => rfl) fun _ _ => rfl

theorem actions_of_shape {actions : List Action} {o : Outline} (ho : o.Complete)
    (h : Shape.Array (actions.map Action.Shaped) o) :
    (Reader.list Action.reader).outline o = .ok actions := by
  cases h with
  | @array os h =>
    have hcomplete := Items.complete_ofList.mp ho
    show Reader.readItems Action.reader (.ofList os) = .ok actions
    refine Reader.readItems_ofList ?_
    rw [List.forall₂_map_right_iff] at h
    refine ((List.forall₂_and_left os actions).mpr ⟨hcomplete, h⟩).imp fun o a hboth => ?_
    exact Action.outline_of_shaped hboth.1 hboth.2

/-- A value that is left out only where it is the default is found again. -/
theorem getD_optional {α : Type} {omitted : Bool} {a d : α} (h : omitted = true → a = d) :
    (if omitted then none else some a).getD d = a := by
  cases omitted with
  | true => exact (h rfl).symm
  | false => rfl

theorem outline_of_shaped {b : Batch} {o : Outline} (ho : o.Complete) (h : b.Shaped o) :
    reader.outline o = .ok b := by
  obtain ⟨noThreshold, noUpdateThreshold, noActions, hthreshold, hupdate, hactions, hobject⟩ := h
  have hdraft : record.draftOfOutline o = .ok
      { threshold := if noThreshold then none else some b.threshold
        updateThreshold := if noUpdateThreshold then none else some b.updateThreshold
        actions := if noActions then none else some b.actions } := by
    refine Record.draftOfOutline_of_object record_lawful ho hobject fun named hnamed hcomplete => ?_
    obtain ⟨front, actions, rfl, hfront, hnamedActions⟩ := Shape.members_append hnamed
    obtain ⟨threshold, update, rfl, hnamedThreshold, hnamedUpdate⟩ := Shape.members_append hfront
    have h₁ : Record.readMembers record.fields {} (.ofList threshold) = .ok
        { threshold := if noThreshold then none else some b.threshold } := by
      refine Record.readMembers_optional (fun d : Draft => { d with threshold := some b.threshold })
        hnamedThreshold (fun m hm => hcomplete m (by simp [hm])) rfl rfl
        (fun _ _ h => Reader.map_outline_eq_ok (Reader.word_of_shape h) _) ?_
      cases noThreshold <;> rfl
    have h₂ : Record.readMembers record.fields
        { threshold := if noThreshold then none else some b.threshold } (.ofList update) = .ok
        { threshold := if noThreshold then none else some b.threshold
          updateThreshold := if noUpdateThreshold then none else some b.updateThreshold } := by
      refine Record.readMembers_optional
        (fun d : Draft => { d with updateThreshold := some b.updateThreshold })
        hnamedUpdate (fun m hm => hcomplete m (by simp [hm])) rfl rfl
        (fun _ _ h => Reader.map_outline_eq_ok (Reader.word_of_shape h) _) ?_
      cases noUpdateThreshold <;> rfl
    have hfrontRead := (Record.readMembers_append h₁).trans h₂
    refine (Record.readMembers_append hfrontRead).trans ?_
    refine Record.readMembers_optional (fun d : Draft => { d with actions := some b.actions })
      hnamedActions (fun m hm => hcomplete m (by simp [hm])) rfl rfl
      (fun _ ho h => Reader.map_outline_eq_ok (actions_of_shape ho h) _) ?_
    cases noActions <;> rfl
  refine Record.outline_of_draft hdraft ?_
  show Draft.finish _ = _
  rw [Draft.finish, getD_optional hthreshold, getD_optional hupdate, getD_optional hactions]

/-- A batch is read from each of its spellings. -/
theorem ofDocument_of_spelledBy {b : Batch} {text : String} (h : b.SpelledBy text) :
    ofDocument text = .ok b := by
  obtain ⟨o, hshaped, hwritten⟩ := h
  have hread : reader.outline o = .ok b := outline_of_shaped hwritten.1 hshaped
  rw [ofDocument, Reader.read_written hwritten, hread]
  rfl

theorem ofDocument_of_spelledBy_disordered :
    SpelledBy ⟨0, 0, [⟨.delete, ⟨.name ⟨"a"⟩, 7⟩⟩]⟩
        " \x7b\"x\":\"\\uD800\",\"authorActions\":[[2,\x7b\"weight\":7,\"owner\":\"\\u0061\",\"type\":0\x7d]]\x7d" ∧
      ofDocument
        " \x7b\"x\":\"\\uD800\",\"authorActions\":[[2,\x7b\"weight\":7,\"owner\":\"\\u0061\",\"type\":0\x7d]]\x7d" =
        .ok ⟨0, 0, [⟨.delete, ⟨.name ⟨"a"⟩, 7⟩⟩]⟩ := by
  refine (fun hspelled => ⟨hspelled, ofDocument_of_spelledBy hspelled⟩) ?_
  -- Half a pair of surrogates, and a letter behind an escape.
  have hhalf : Piece.Written (.unit (((13 * 16 + 8) * 16 + 0) * 16 + 0))
      ['\\', 'u', 'D', '8', '0', '0'] :=
    .digits ⟨by decide, by decide⟩ ⟨by decide, by decide⟩ ⟨by decide, by decide⟩
      ⟨by decide, by decide⟩
  have hletter : Piece.Written (.unit (((0 * 16 + 0) * 16 + 6) * 16 + 1))
      ['\\', 'u', '0', '0', '6', '1'] :=
    .digits ⟨by decide, by decide⟩ ⟨by decide, by decide⟩ ⟨by decide, by decide⟩
      ⟨by decide, by decide⟩
  have hstring {p : Piece} {cs : List Char} (h : p.Written cs) :
      (Outline.string ⟨[p], none⟩).Written (['"'] ++ cs ++ ['"']) :=
    ⟨rfl, .word ⟨rfl, [cs], .cons h .nil, by simp⟩⟩
  obtain ⟨x, hx, hxWritten⟩ := Printer.string_written "x"
  obtain ⟨tag, htag, htagWritten⟩ := Printer.string_written "type"
  obtain ⟨owner, howner, hownerWritten⟩ := Printer.string_written "owner"
  obtain ⟨weight, hweight, hweightWritten⟩ := Printer.string_written "weight"
  obtain ⟨actions, hactions, hactionsWritten⟩ := Printer.string_written "authorActions"
  have hnumber (n : Nat) : (Outline.number (.ofNat n)).Written (Printer.natural n) :=
    ⟨trivial, .word (Printer.natural_written n)⟩
  have hauthor : (Author.Shaped ⟨.name ⟨"a"⟩, 7⟩).Prints
      (Printer.object [("weight", ['7']), ("owner", ['"', '\\', 'u', '0', '0', '6', '1', '"']),
        ("type", ['0'])]) := by
    refine ⟨_, ⟨"a", rfl, .object (.of_perm (List.reverse_perm _).symm ?_)⟩,
      Printer.object_written (.cons (Printer.member_written hweightWritten (hnumber 7))
        (.cons (Printer.member_written hownerWritten (hstring hletter))
          (.cons (Printer.member_written htagWritten (hnumber 0)) .nil)))⟩
    exact .cons ⟨htag, .number⟩ (.cons ⟨howner, .string ⟨rfl, .unit 'a' (by decide) .nil⟩⟩
      (.cons ⟨hweight, .number⟩ .nil))
  have haction := Shape.record_prints_positional
    [("ActionType", Shape.Natural 2), ("Author", Author.Shaped ⟨.name ⟨"a"⟩, 7⟩)]
    (.cons (Shape.natural_prints 2) (.cons hauthor .nil))
  obtain ⟨o, hshaped, hwritten⟩ := Shape.array_prints (.cons haction .nil)
  have hbatchWritten := Printer.object_written
    (.cons (Printer.member_written hxWritten (hstring hhalf))
      (.cons (Printer.member_written hactionsWritten hwritten) .nil))
  have hfields : List.Forall₂ Shape.Member [(actions, o)]
      [("authorActions", Shape.Array [Action.Shaped ⟨.delete, ⟨.name ⟨"a"⟩, 7⟩⟩])] :=
    .cons ⟨hactions, hshaped⟩ .nil
  have hunknown : ∀ m ∈ [(x, Outline.string ⟨[.unit 0xD800], none⟩)], ∃ n, m.1.Spells n ∧
      n ∉ ["threshold", "updateAuthorThreshold", "authorActions"] := by
    intro m hm
    obtain rfl := List.mem_singleton.mp hm
    exact ⟨"x", hx, by decide⟩
  have hbatch := Shape.Object.object (.swap (actions, o) _ []) hfields hunknown
  have hblank : Token.IsBlanks [' '] := by simp [Token.IsBlanks]
  exact ⟨_, ⟨true, true, false, fun _ => rfl, fun _ => rfl, by simp, hbatch⟩, hbatchWritten.1,
    .blanks hblank hbatchWritten.2⟩

end Batch

end Mandate
