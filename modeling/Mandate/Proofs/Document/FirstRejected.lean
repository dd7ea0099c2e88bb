/-
The first action that is rejected.

The actions of a batch are read one after another, and each is checked as soon as it ends.  So the
first one that is no action decides why the batch is refused: what stands behind it is not looked
at, be it more actions, members that contradict those before, or no JSON at all.
-/
import Mandate.Proofs.Document.Rejection
import Mandate.Proofs.Document.Spelling
import Mandate.Proofs.Json.Opened
import Mathlib

namespace Mandate

open Json

namespace Batch

/-- A text that opens a batch and stops where an action is due.  It has members that are read, the
list of actions not among them, and then that list with some actions, each with a comma behind. -/
inductive OpensActions (p : String) : Prop
  | intro {front : List (StringLiteral × Outline)} {name : StringLiteral} {actions : List Outline}
      {s : Draft} {as : List Action} : (∀ m ∈ front, m.2.Complete) →
      Record.readMembers record.fields record.start (.ofList front) = .ok s → s.actions = none →
      name.text = .ok "authorActions" → (∀ o ∈ actions, o.Complete) →
      Action.reader.readItems (.ofList actions) = .ok as →
      Token.Layout
        (.openObject :: (Members.frontTokens front ++
          .string name :: .colon :: .openArray :: Items.frontTokens actions)) p.toList →
      OpensActions p

theorem OpensActions.exists_opens {p : String} (h : OpensActions p) :
    ∃ ts, Action.reader.Opens reader ts ∧ Token.Layout ts p.toList := by
  obtain ⟨hfront, hread, hnone, hname, hactions, hitems, hlayout⟩ := h
  have hhere : Action.reader.Opens Action.reader [] := .here
  have hlist := Reader.Opens.item _ hactions hitems hhere
  rw [List.append_nil] at hlist
  exact ⟨_, .member _ hfront hread hname rfl (by simp [hnone]) (.map _ hlist), hlayout⟩

/-- Behind actions that are read, a value that is no action decides the error of the batch.  It is
the error that the value has alone, whatever text follows. -/
theorem ofDocument_of_firstRejected {p x : String} {o : Outline} {e : Json.Error}
    (hp : OpensActions p) (hx : o.Written x.toList) (hnumber : ∀ l, o ≠ .number l)
    (he : Action.reader.read x = .error e) (q : String) :
    ofDocument (p ++ x ++ q) = .error (.json e) := by
  obtain ⟨ts, hopens, hlayout⟩ := hp.exists_opens
  rw [Reader.read_written hx] at he
  rw [ofDocument, hopens.read_append hlayout hx hnumber he]
  rfl

/-- The author of the second action has no known tag.  What follows has an action that is none,
closes what is not open and repeats a member. -/
theorem ofDocument_of_firstRejected_unknownScheme :
    Action.reader.read "[1,[7,\"a\",1]]" =
        .error (.content (.refused "unknown author type tag: 7")) ∧
      ofDocument ("\x7b\"threshold\":2,\"authorActions\":[[0,[0,\"a\",1]], " ++
          "[1,[7,\"a\",1]]" ++ ",3]]\"threshold\":") =
        .error (.json (.content (.refused "unknown author type tag: 7"))) := by
  obtain ⟨threshold, hthreshold, hthresholdWritten⟩ := Printer.string_written "threshold"
  obtain ⟨name, hname, hnameWritten⟩ := Printer.string_written "authorActions"
  have hnumber (n : Nat) : (Outline.number (.ofNat n)).Written (Printer.natural n) :=
    ⟨trivial, .word (Printer.natural_written n)⟩
  have howner : (Outline.string ⟨[.char 'a'], none⟩).Written ['"', 'a', '"'] :=
    ⟨rfl, .word ⟨rfl, [['a']], .cons (.plain (by decide) (by decide) (by decide)) .nil, rfl⟩⟩
  let author (tag : Nat) : Outline :=
    .array (.ofList [.number (.ofNat tag), .string ⟨[.char 'a'], none⟩, .number (.ofNat 1)])
  let action (kind tag : Nat) : Outline := .array (.ofList [.number (.ofNat kind), author tag])
  have haction (kind tag : Nat) : (action kind tag).Written (Printer.array [Printer.natural kind,
      Printer.array [Printer.natural tag, ['"', 'a', '"'], Printer.natural 1]]) :=
    Printer.array_written (.cons (hnumber kind) (.cons (Printer.array_written
      (.cons (hnumber tag) (.cons howner (.cons (hnumber 1) .nil)))) .nil))
  have hopens : OpensActions "\x7b\"threshold\":2,\"authorActions\":[[0,[0,\"a\",1]], " := by
    have hfront : ∀ m ∈ [(threshold, Outline.number (.ofNat 2))], m.2.Complete := by
      simp [Outline.Complete]
    have hread : Record.readMembers record.fields record.start
        (.ofList [(threshold, .number (.ofNat 2))]) = .ok ⟨some 2, none, none⟩ :=
      Record.readMembers_of_member hthreshold rfl rfl
        (Reader.map_outline_eq_ok (Reader.word_of_shape (w := 2) .number) _) rfl
    have hactions : ∀ o ∈ [action 0 0], o.Complete := by simp [(haction 0 0).1]
    have hitems : Action.reader.readItems (.ofList [action 0 0]) =
        .ok [⟨.add, ⟨.name ⟨"a"⟩, 1⟩⟩] := by cbv
    have hopen : Token.Layout [.openObject] ['\x7b'] := .word rfl
    have hmember := Printer.member_layout (Printer.member_written hthresholdWritten (hnumber 2))
    have hcomma : Token.Layout [.comma] [','] := .word rfl
    have hlist : Token.Layout [.string name, .colon, .openArray]
        (Printer.string "authorActions" ++ ([':'] ++ ['['])) :=
      .append (.word (t := .string name) hnameWritten)
        (.append (.word (t := .colon) rfl) (.word (t := .openArray) rfl))
    have hblank : Token.Layout [] [' '] := .nil (by simp [Token.IsBlanks])
    have hlayout := hopen.append (hmember.append (hcomma.append
      (hlist.append ((haction 0 0).2.append (hcomma.append hblank)))))
    exact .intro hfront hread rfl (StringLiteral.text_of_spells hname) hactions hitems hlayout
  have hrejected : Action.reader.read "[1,[7,\"a\",1]]" =
      .error (.content (.refused "unknown author type tag: 7")) := by
    have hform : AuthorForm.reader.outline (author 7) = .ok ⟨7, "a", 1⟩ := by cbv
    rw [Reader.read_written (haction 1 7)]
    exact Reader.ReachedAt.outline_eq_error (.position [_] _ rfl rfl rfl (.map _ .here))
      (Author.outline_of_refused hform (.tag (by decide)))
  exact ⟨hrejected, ofDocument_of_firstRejected hopens (haction 1 7) (by simp) hrejected _⟩

end Batch

end Mandate
