/-
Reading a document undoes writing it.

What is written is one of the spellings of what it says, and those are all read.  So there is only
the writing to be looked at here: every part of a document is printed in its own shape, and what a
batch leaves out is zero or empty.
-/
import Mandate.Proofs.Document.Spelling
import Mandate.Proofs.Json.Printed

namespace Mandate

open Json

/-! ## Identities -/

theorem Key.spelledBy_toText {k : KeyKind} (key : Key k) : key.SpelledBy key.toText := by
  refine ⟨['0', 'x'], Hex.encodeChars key.bytes, by simp, Hex.spells_encodeChars key.bytes, ?_⟩
  rw [toText, Hex.encode, String.toList_append, String.toList_ofList]
  rfl

theorem Owner.spelledBy_toText (o : Owner) : o.SpelledBy o.toText := by
  cases o with
  | name n => rfl
  | key k value => exact value.spelledBy_toText

/-! ## Records -/

theorem AuthorForm.prints (f : AuthorForm) : (Shaped f).Prints f.toJson :=
  Shape.record_prints <|
    .cons ⟨rfl, Shape.natural_prints _⟩ <| .cons ⟨rfl, Shape.text_prints _⟩ <|
      .cons ⟨rfl, Shape.natural_prints _⟩ .nil

theorem Author.prints (a : Author) : (Shaped a).Prints a.toJson := by
  obtain ⟨o, hform, hwritten⟩ := a.toForm.prints
  exact ⟨o, ⟨a.owner.toText, a.owner.spelledBy_toText, hform⟩, hwritten⟩

theorem Action.prints (a : Action) : (Shaped a).Prints a.toJson :=
  Shape.record_prints <|
    .cons ⟨rfl, Shape.natural_prints _⟩ <| .cons ⟨rfl, a.author.prints⟩ .nil

theorem Batch.prints (b : Batch) : (Shaped b).Prints b.toJson := by
  have hactions : (Shape.Array (b.actions.map Action.Shaped)).Prints
      (Printer.array (b.actions.map Action.toJson)) := by
    refine Shape.array_prints ?_
    rw [List.forall₂_map_left_iff, List.forall₂_map_right_iff, List.forall₂_same]
    exact fun a _ => a.prints
  have hthreshold : Shape.FieldPrints ("threshold", Shape.Natural b.threshold.toNat)
      ("threshold", Printer.natural b.threshold.toNat) :=
    ⟨rfl, Shape.natural_prints _⟩
  have hupdate : Shape.FieldPrints
      ("updateAuthorThreshold", Shape.Natural b.updateThreshold.toNat)
      ("updateAuthorThreshold", Printer.natural b.updateThreshold.toNat) :=
    ⟨rfl, Shape.natural_prints _⟩
  have hlist : Shape.FieldPrints ("authorActions", Shape.Array (b.actions.map Action.Shaped))
      ("authorActions", Printer.array (b.actions.map Action.toJson)) :=
    ⟨rfl, hactions⟩
  obtain ⟨o, hobject, hwritten⟩ := Shape.object_prints
    ["threshold", "updateAuthorThreshold", "authorActions"]
    (List.rel_append (List.rel_append (Shape.optional_prints (b.threshold = 0) hthreshold)
      (Shape.optional_prints (b.updateThreshold = 0) hupdate))
      (Shape.optional_prints (b.actions.isEmpty = true) hlist))
  refine ⟨o, ⟨_, _, _, ?_, ?_, ?_, hobject⟩, hwritten⟩
  · exact fun h => of_decide_eq_true h
  · exact fun h => of_decide_eq_true h
  · exact fun h => List.isEmpty_iff.mp (of_decide_eq_true h)

/-! ## Reading what is written -/

theorem Json.Reader.read_printed {α : Type} {r : Reader α} {shape : Shape} {a : α}
    {text : List Char} (hread : ∀ o, o.Complete → shape o → r.outline o = .ok a)
    (h : shape.Prints text) : r.read (String.ofList text) = .ok a := by
  obtain ⟨o, hshape, hwritten⟩ := h
  rw [Reader.read_written (by rwa [String.toList_ofList])]
  exact hread o hwritten.1 hshape

theorem Author.read_toDocument (a : Author) : reader.read a.toDocument = .ok a :=
  Reader.read_printed (fun _ => outline_of_shaped) a.prints

theorem Author.ofDocument_written (a : Author) : ofDocument a.toDocument = .ok a := by
  have hform : AuthorForm.reader.read a.toDocument = .ok a.toForm :=
    Reader.read_printed (fun _ => AuthorForm.outline_of_shaped) a.toForm.prints
  rw [ofDocument, hform]
  exact ofForm_of_spelledBy a.owner.spelledBy_toText

theorem Batch.ofDocument_written (b : Batch) : ofDocument b.toDocument = .ok b := by
  have hread : reader.read b.toDocument = .ok b :=
    Reader.read_printed (fun _ => outline_of_shaped) b.prints
  rw [ofDocument, hread]
  rfl

theorem Name.read_toJson (n : Name) : reader.read (String.ofList n.toJson) = .ok n := by
  refine Reader.read_printed (fun o _ h => ?_) (Shape.text_prints n.text)
  exact Reader.map_outline_eq_ok (Reader.text_of_shape h) _

theorem Key.read_toJson {k : KeyKind} (key : Key k) :
    (reader k).read (String.ofList key.toJson) = .ok key := by
  refine Reader.read_printed (fun o _ h => ?_) (Shape.text_prints key.toText)
  show (Reader.text.outline o).bind _ = _
  rw [Reader.text_of_shape h]
  show ((Key.parse k key.toText).mapError _).mapError _ = _
  rw [Key.parse_of_spelledBy key.spelledBy_toText]
  rfl

/-- Authors, batches and identities are read from their own documents as they were, an author in
both ways of reading one. -/
theorem document_roundTrip :
    (∀ a : Author, Author.ofDocument a.toDocument = .ok a ∧
      Author.reader.read a.toDocument = .ok a) ∧
    (∀ b : Batch, Batch.ofDocument b.toDocument = .ok b) ∧
    (∀ n : Name, Name.reader.read (String.ofList n.toJson) = .ok n) ∧
    ∀ (k : KeyKind) (key : Key k), (Key.reader k).read (String.ofList key.toJson) = .ok key :=
  ⟨fun a => ⟨a.ofDocument_written, a.read_toDocument⟩, Batch.ofDocument_written, Name.read_toJson,
    fun _ key => key.read_toJson⟩

end Mandate
