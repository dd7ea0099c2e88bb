/-
Reading a document directly and reading its value.

The readers of authors, actions, batches and identities are put together from the combinators, so
for each of them the two ways of reading agree (`Reader.Agrees`).
-/
import Mandate.Proofs.Document.Spelling
import Mandate.Proofs.Json.Agreement
import Mathlib

namespace Mandate

open Json

theorem AuthorForm.reader_agrees : reader.Agrees := by
  apply Record.reader_agrees record_lawful
  intro f hf
  simp only [record, List.mem_cons, List.not_mem_nil, or_false] at hf
  rcases hf with rfl | rfl | rfl
  · exact Reader.byte_agrees.map _
  · exact Reader.text_agrees.map _
  · exact Reader.word_agrees.map _

theorem Author.reader_agrees : reader.Agrees :=
  AuthorForm.reader_agrees.refine _

theorem ActionKind.reader_agrees : reader.Agrees :=
  Reader.byte_agrees.refine _

theorem Action.reader_agrees : reader.Agrees := by
  apply Record.reader_agrees record_lawful
  intro f hf
  simp only [record, List.mem_cons, List.not_mem_nil, or_false] at hf
  rcases hf with rfl | rfl
  · exact ActionKind.reader_agrees.map _
  · exact Author.reader_agrees.map _

theorem Batch.reader_agrees : reader.Agrees := by
  apply Record.reader_agrees record_lawful
  intro f hf
  simp only [record, List.mem_cons, List.not_mem_nil, or_false] at hf
  rcases hf with rfl | rfl | rfl
  · exact Reader.word_agrees.map _
  · exact Reader.word_agrees.map _
  · exact Action.reader_agrees.list.map _

theorem Name.reader_agrees : reader.Agrees :=
  Reader.text_agrees.map _

theorem Key.reader_agrees (k : KeyKind) : (reader k).Agrees :=
  Reader.text_agrees.refine _

/-- A document in which no name is repeated is read directly exactly if its value is read, and as
the same. -/
theorem read_eq_ok_iff_value {text : String} {v : Value} (hv : Value.parse text = .ok v)
    (hnames : (Document.ofText text).NamesDistinct) :
    (∀ f, AuthorForm.reader.read text = .ok f ↔ AuthorForm.reader.value v = .ok f) ∧
    (∀ a, Author.reader.read text = .ok a ↔ Author.reader.value v = .ok a) ∧
    (∀ a, Action.reader.read text = .ok a ↔ Action.reader.value v = .ok a) ∧
    (∀ b, Batch.reader.read text = .ok b ↔ Batch.reader.value v = .ok b) ∧
    (∀ n, Name.reader.read text = .ok n ↔ Name.reader.value v = .ok n) ∧
    ∀ (k : KeyKind) (key : Key k),
      (Key.reader k).read text = .ok key ↔ (Key.reader k).value v = .ok key :=
  ⟨AuthorForm.reader_agrees.read_eq_ok_iff hv hnames,
    Author.reader_agrees.read_eq_ok_iff hv hnames,
    Action.reader_agrees.read_eq_ok_iff hv hnames,
    Batch.reader_agrees.read_eq_ok_iff hv hnames,
    Name.reader_agrees.read_eq_ok_iff hv hnames,
    fun k => (Key.reader_agrees k).read_eq_ok_iff hv hnames⟩

/-- The members are in another order in the text than in its value. -/
theorem read_eq_ok_iff_value_disordered :
    Value.parse "\x7b\"weight\":7,\"x\":null,\"type\":0,\"owner\":\"a\"\x7d" =
        .ok (.object [("owner", .string "a"), ("type", .number (.integer 0)),
          ("weight", .number (.integer 7)), ("x", .null)]) ∧
      (Document.ofText
        "\x7b\"weight\":7,\"x\":null,\"type\":0,\"owner\":\"a\"\x7d").NamesDistinct ∧
      Author.reader.read "\x7b\"weight\":7,\"x\":null,\"type\":0,\"owner\":\"a\"\x7d" =
        .ok ⟨.name ⟨"a"⟩, 7⟩ := by
  refine (fun hv hnames => ⟨hv, hnames, ((read_eq_ok_iff_value hv hnames).2.1 _).mpr ?_⟩) ?_ ?_
  · cbv
  · cbv
    simp
  · cbv

end Mandate
