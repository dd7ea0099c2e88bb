/-
What is wrong with a document that is not an author, or not a batch.

The form of an author can be read and then be refused, for its tag or for its owner.  Reading a
document as an author keeps the two apart: what is no form is a defect of the document, and a
refused form is an error of its own kind.  A reader that goes through a document in one pass checks
the form in the middle of it, so there, and in every batch, the refusal is a complaint about the
content.
-/
import Mandate.Batch.Document
import Mandate.Proofs.Format.Spelling
import Mandate.Proofs.Json.Reached
import Mathlib

namespace Mandate

open Json

/-! ## Refused forms -/

/-- Every text is a name, so only the owner under one of the other two schemes can be refused. -/
theorem Owner.key_of_parse_error {s : Scheme} {text : String} {e : AuthorError}
    (h : parse s text = .error e) : ∃ k i, s = .key k ∧ e = .payload i := by
  cases s with
  | account => cases h
  | key k =>
    obtain ⟨i, _, rfl⟩ := Except.mapError_eq_error_iff.mp h
    exact ⟨k, i, rfl, rfl⟩

/-- Why a form is no author: its tag is unknown, or its owner is no key of the kind that the tag
says. -/
inductive AuthorForm.Refused (f : AuthorForm) : AuthorError → Prop
  | tag : 2 < f.tag → Refused f (.unknownScheme f.tag)
  | owner {k : KeyKind} {i : IdentityError} : f.tag = (Scheme.key k).tag →
      Owner.parse (.key k) f.owner = .error (.payload i) → Refused f (.payload i)

theorem Author.ofForm_eq_error_iff {f : AuthorForm} {e : AuthorError} :
    ofForm f = .error e ↔ f.Refused e := by
  constructor
  · intro h
    cases hs : Scheme.ofTag f.tag with
    | error e' =>
      rw [ofForm, hs] at h
      cases h
      obtain ⟨htag, rfl⟩ := Scheme.ofTag_eq_error_iff.mp hs
      exact .tag htag
    | ok s =>
      rw [ofForm, hs] at h
      have howner : Owner.parse s f.owner = .error e := Except.map_eq_error_iff.mp h
      obtain ⟨k, i, rfl, rfl⟩ := Owner.key_of_parse_error howner
      exact .owner (Scheme.ofTag_eq_ok_iff.mp hs) howner
  · intro h
    cases h with
    | tag htag =>
      rw [ofForm, Scheme.ofTag_eq_error_iff.mpr ⟨htag, rfl⟩]
      rfl
    | owner htag howner =>
      rw [ofForm, htag, Scheme.ofTag_tag]
      show (Owner.parse _ _).map _ = _
      rw [howner]
      rfl

/-! ## Documents -/

theorem Author.ofDocument_of_form {text : String} {f : AuthorForm}
    (h : AuthorForm.reader.read text = .ok f) : ofDocument text = ofForm f := by
  rw [ofDocument, h]
  rfl

theorem Author.ofDocument_of_error {text : String} {j : Json.Error}
    (h : AuthorForm.reader.read text = .error j) : ofDocument text = .error (.json j) := by
  rw [ofDocument, h]
  rfl

theorem Author.outline_of_form {o : Outline} {f : AuthorForm}
    (h : AuthorForm.reader.outline o = .ok f) :
    reader.outline o =
      (ofForm f).mapError fun e => .content (.refused e.message) := by
  show (AuthorForm.reader.outline o).bind _ = _
  rw [h]
  show ((ofForm f).mapError _).mapError _ = _
  cases ofForm f <;> rfl

/-- A refused form is a complaint, wherever in a document it is found. -/
theorem Author.outline_of_refused {o : Outline} {f : AuthorForm} {e : AuthorError}
    (h : AuthorForm.reader.outline o = .ok f) (he : f.Refused e) :
    reader.outline o = .error (.content (.refused e.message)) := by
  rw [outline_of_form h, ofForm_eq_error_iff.mpr he]
  rfl

theorem Author.ofDocument_eq_ok_iff {text : String} {a : Author} :
    ofDocument text = .ok a ↔ reader.read text = .ok a := by
  have hread : reader.outline (Document.ofText text).root = .ok a ↔
      ∃ f, AuthorForm.reader.outline (Document.ofText text).root = .ok f ∧ ofForm f = .ok a := by
    show (AuthorForm.reader.outline _).bind _ = .ok a ↔ _
    simp only [Except.bind_eq_ok_iff, Except.mapError_eq_ok_iff]
  rw [ofDocument, Except.bind_eq_ok_iff, Reader.read_eq_ok_iff, hread]
  simp only [Except.mapError_eq_ok_iff, Reader.read_eq_ok_iff]
  constructor
  · intro h
    obtain ⟨f, ⟨hf, htrailing⟩, ha⟩ := h
    exact ⟨⟨f, hf, ha⟩, htrailing⟩
  · intro h
    obtain ⟨⟨f, hf, ha⟩, htrailing⟩ := h
    exact ⟨f, ⟨hf, htrailing⟩, ha⟩

/-- The two ways of reading an author accept the same documents.  Where a form is refused, the one
that reads it first says why, and the other one complains of it in the same words.  A batch can only
complain. -/
theorem document_rejection (text : String) :
    (∀ a, Author.ofDocument text = .ok a ↔ Author.reader.read text = .ok a) ∧
    (∀ f, AuthorForm.reader.read text = .ok f → ∀ e,
      (Author.ofDocument text = .error e ↔ f.Refused e) ∧
      (f.Refused e → Author.reader.read text = .error (.content (.refused e.message)))) ∧
    (∀ j, AuthorForm.reader.read text = .error j → Author.ofDocument text = .error (.json j)) ∧
    (∀ e, Batch.ofDocument text = .error e → ∃ j, e = .json j) ∧
    ∀ o f e, Author.reader.ReachedAt o Batch.reader (Document.ofText text).root →
      AuthorForm.reader.outline o = .ok f → f.Refused e →
      Batch.ofDocument text = .error (.json (.content (.refused e.message))) := by
  refine ⟨fun a => Author.ofDocument_eq_ok_iff, ?_, fun j => Author.ofDocument_of_error, ?_, ?_⟩
  · intro f hf e
    refine ⟨?_, fun he => ?_⟩
    · rw [Author.ofDocument_of_form hf]
      exact Author.ofForm_eq_error_iff
    · exact Reader.read_of_error (Author.outline_of_refused (Reader.read_eq_ok_iff.mp hf).1 he)
  · intro e h
    obtain ⟨j, _, rfl⟩ := Except.mapError_eq_error_iff.mp h
    exact ⟨j, rfl⟩
  · intro o f e hreached hf he
    have hread := hreached.outline_eq_error (Author.outline_of_refused hf he)
    rw [Batch.ofDocument, Reader.read_of_error hread]
    rfl

theorem document_rejection_unknownScheme :
    Author.ofDocument "[7,\"a\",1]" = .error (.unknownScheme 7) ∧
      Author.reader.read "[7,\"a\",1]" =
        .error (.content (.refused "unknown author type tag: 7")) ∧
      Batch.ofDocument "\x7b\"authorActions\":[[1,[7,\"a\",1]" =
        .error (.json (.content (.refused "unknown author type tag: 7"))) := by
  have hrefused : AuthorForm.Refused ⟨7, "a", 1⟩ (.unknownScheme 7) := .tag (by decide)
  have hform : AuthorForm.reader.read "[7,\"a\",1]" = .ok ⟨7, "a", 1⟩ := by cbv
  have hdocument := (document_rejection "[7,\"a\",1]").2.1 _ hform (.unknownScheme 7)
  refine ⟨hdocument.1.mpr hrefused, hdocument.2 hrefused, ?_⟩
  -- The same author in a batch that is never closed.
  have hroot : (Document.ofText "\x7b\"authorActions\":[[1,[7,\"a\",1]").root =
      .object (.cons ⟨"authorActions".toList.map .char, none⟩
        (.array (.cons (.array (.cons (.number ⟨false, ['1'], [], none⟩) (.cons
          (.array (.ofList [.number ⟨false, ['7'], [], none⟩, .string ⟨[.char 'a'], none⟩,
            .number ⟨false, ['1'], [], none⟩]))
          (.close (.missing .cutOff))))) (.close (.missing .cutOff)))) (.close (some .cutOff))) := by
    cbv
  have hauthor : AuthorForm.reader.outline (.array (.ofList [.number ⟨false, ['7'], [], none⟩,
      .string ⟨[.char 'a'], none⟩, .number ⟨false, ['1'], [], none⟩])) = .ok ⟨7, "a", 1⟩ := by
    cbv
  refine (document_rejection _).2.2.2.2 _ _ _ ?_ hauthor hrefused
  rw [hroot]
  exact .member [] _ rfl rfl rfl rfl (.map _ (.item [] _ rfl
    (.position [_] _ rfl rfl rfl (.map _ .here))))

end Mandate
