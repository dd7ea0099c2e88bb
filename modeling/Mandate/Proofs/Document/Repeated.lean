/-
Documents that repeat a member.

A batch has objects at three levels: the batch itself, its actions and their authors.  In a document
that is accepted none of them repeats a member that it knows, at whatever place and however the name
is escaped.  So a reader for which the first member of a name counts and a reader for which the last
one does see the same batch in it.
-/
import Mandate.Proofs.Document.Rejection
import Mandate.Proofs.Document.Spelling
import Mandate.Proofs.Json.Repeated
import Mathlib

namespace Mandate

open Json

/-! ## Objects in a document -/

def AuthorForm.NamesOnce (o : Outline) : Prop :=
  o.NamesOnce ["type", "owner", "weight"]

/-- The author of an action stands under its name in an object, and second in an array. -/
inductive Action.HasAuthor : Outline → Outline → Prop
  | member {members : Members} {name : StringLiteral} {o : Outline} :
      (name, o) ∈ members.toList → name.text = .ok "Author" → HasAuthor (.object members) o
  | position {items : Items} {o : Outline} :
      items.toList[1]? = some o → HasAuthor (.array items) o

def Action.NamesOnce (o : Outline) : Prop :=
  o.NamesOnce ["ActionType", "Author"] ∧ ∀ author, HasAuthor o author → AuthorForm.NamesOnce author

inductive Batch.HasAction : Outline → Outline → Prop
  | item {members : Members} {name : StringLiteral} {items : Items} {o : Outline} :
      (name, .array items) ∈ members.toList → name.text = .ok "authorActions" →
      o ∈ items.toList → HasAction (.object members) o

/-- Whether no known name is repeated in a batch, in one of its actions or in the author of one. -/
def Batch.NamesOnce (o : Outline) : Prop :=
  o.NamesOnce ["threshold", "updateAuthorThreshold", "authorActions"] ∧
    ∀ action, HasAction o action → Action.NamesOnce action

/-! ## Authors -/

theorem AuthorForm.namesOnce_of_outline {o : Outline} {f : AuthorForm}
    (h : reader.outline o = .ok f) : NamesOnce o :=
  Record.namesOnce_of_outline record_lawful h

theorem Author.namesOnce_of_outline {o : Outline} {a : Author} (h : reader.outline o = .ok a) :
    AuthorForm.NamesOnce o := by
  obtain ⟨f, hf, _⟩ := Except.bind_eq_ok_iff.mp h
  exact AuthorForm.namesOnce_of_outline hf

theorem AuthorForm.reader_picks : reader.Picks := by
  apply Record.reader_picks record_lawful
  intro f hf
  simp only [record, List.mem_cons, List.not_mem_nil, or_false] at hf
  rcases hf with rfl | rfl | rfl
  · exact Reader.byte_picks.map _
  · exact Reader.text_picks.map _
  · exact Reader.word_picks.map _

theorem Author.reader_picks : reader.Picks :=
  AuthorForm.reader_picks.refine _

/-! ## Actions -/

namespace Action

theorem author_of_outline {o p : Outline} {a : Action} (h : reader.outline o = .ok a)
    (hp : HasAuthor o p) : ∃ author, Author.reader.outline p = .ok author := by
  obtain ⟨t, ht, _⟩ := Except.bind_eq_ok_iff.mp h
  have hread : ∃ fill : Draft → Draft,
      (Author.reader.map fun author d => { d with author := some author }).outline p = .ok fill := by
    cases hp with
    | member hmem hname => exact Record.outline_of_readMembers record_lawful hname rfl _ ht hmem
    | position hitem => exact Record.outline_of_readItems _ ht hitem rfl
  obtain ⟨fill, hfill⟩ := hread
  obtain ⟨author, hauthor, _⟩ := Except.map_eq_ok_iff.mp hfill
  exact ⟨author, hauthor⟩

theorem namesOnce_of_outline {o : Outline} {a : Action} (h : reader.outline o = .ok a) :
    NamesOnce o := by
  refine ⟨Record.namesOnce_of_outline record_lawful h, fun p hp => ?_⟩
  obtain ⟨author, hauthor⟩ := author_of_outline h hp
  exact Author.namesOnce_of_outline hauthor

theorem reader_picks : reader.Picks := by
  apply Record.reader_picks record_lawful
  intro f hf
  simp only [record, List.mem_cons, List.not_mem_nil, or_false] at hf
  rcases hf with rfl | rfl
  · exact (Reader.byte_picks.refine _).map _
  · exact Author.reader_picks.map _

end Action

/-! ## Batches -/

namespace Batch

theorem action_of_outline {o p : Outline} {b : Batch} (h : reader.outline o = .ok b)
    (hp : HasAction o p) : ∃ action, Action.reader.outline p = .ok action := by
  obtain ⟨t, ht, _⟩ := Except.bind_eq_ok_iff.mp h
  cases hp with
  | @item members name items _ hmem hname hitem =>
    obtain ⟨fill, hfill⟩ := Record.outline_of_readMembers record_lawful hname rfl _ ht hmem
    obtain ⟨actions, hactions, _⟩ := Except.map_eq_ok_iff.mp hfill
    exact Reader.outline_of_readItems items hactions p hitem

theorem namesOnce_of_outline {o : Outline} {b : Batch} (h : reader.outline o = .ok b) :
    NamesOnce o := by
  refine ⟨Record.namesOnce_of_outline record_lawful h, fun p hp => ?_⟩
  obtain ⟨action, haction⟩ := action_of_outline h hp
  exact Action.namesOnce_of_outline haction

theorem reader_picks : reader.Picks := by
  apply Record.reader_picks record_lawful
  intro f hf
  simp only [record, List.mem_cons, List.not_mem_nil, or_false] at hf
  rcases hf with rfl | rfl | rfl
  · exact Reader.word_picks.map _
  · exact Reader.word_picks.map _
  · exact Action.reader_picks.list.map _

end Batch

/-- A document that is accepted, as a batch or as an author, repeats no known name in any object
that is read from it.  It is read as the same batch or author if only the first member of a name
counts, and if only the last one does. -/
theorem document_namesOnce (text : String) :
    (∀ b, Batch.ofDocument text = .ok b →
      Batch.NamesOnce (Document.ofText text).root ∧
      ∀ w, Batch.reader.readPicking w text = .ok b) ∧
    ∀ a, Author.ofDocument text = .ok a →
      AuthorForm.NamesOnce (Document.ofText text).root ∧
      ∀ w, Author.reader.readPicking w text = .ok a := by
  constructor
  · intro b h
    have hread : Batch.reader.read text = .ok b := Except.mapError_eq_ok_iff.mp h
    exact ⟨Batch.namesOnce_of_outline (Reader.read_eq_ok_iff.mp hread).1,
      Reader.readPicking_of_read Batch.reader_picks hread⟩
  · intro a h
    have hread : Author.reader.read text = .ok a := Author.ofDocument_eq_ok_iff.mp h
    exact ⟨Author.namesOnce_of_outline (Reader.read_eq_ok_iff.mp hread).1,
      Reader.readPicking_of_read Author.reader_picks hread⟩

/-- A batch that repeats a name which nobody knows, with an author in an array. -/
theorem document_namesOnce_unknown :
    Batch.ofDocument "\x7b\"x\":[],\"authorActions\":[[1,[0,\"a\",7]]],\"x\":null\x7d" =
        .ok ⟨0, 0, [⟨.update, ⟨.name ⟨"a"⟩, 7⟩⟩]⟩ ∧
      Batch.reader.readPicking .last
          "\x7b\"x\":[],\"authorActions\":[[1,[0,\"a\",7]]],\"x\":null\x7d" =
        .ok ⟨0, 0, [⟨.update, ⟨.name ⟨"a"⟩, 7⟩⟩]⟩ := by
  have hread : Batch.ofDocument
      "\x7b\"x\":[],\"authorActions\":[[1,[0,\"a\",7]]],\"x\":null\x7d" =
      .ok ⟨0, 0, [⟨.update, ⟨.name ⟨"a"⟩, 7⟩⟩]⟩ := by cbv
  exact ⟨hread, ((document_namesOnce _).1 _ hread).2 .last⟩

/-- The second name is spelled in another way, and the number behind it is not looked at. -/
example : Batch.ofDocument "\x7b\"threshold\":1,\"\\u0074hreshold\":-" =
    .error (.json (.content (.repeatedField "threshold"))) := by cbv

end Mandate
