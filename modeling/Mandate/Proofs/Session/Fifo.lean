/-
A session is a queue.

Nothing in the buffer of a session says where one record ends and the next one begins, or what
either of them is.  Only the readers know, so a session makes sense if it asks for what it has
written, in the same order and not before it is there.  Then the buffer is at any time the records
of what is still to be read, one after another, and nothing is lost, repeated or changed in order.
As for single records, lengths and counts have to fit in 64 bits, because others have no form.

The invariant relates the buffer to the steps that have been made.  `perform_unread` is one step of
it, and a whole session is an induction on the steps from their end, because what has been written
and asked for is counted from the beginning.
-/
import Mandate.Proofs.Format.RoundTrip
import Mandate.Session
import Mathlib

namespace Mandate
namespace Session

/-! ## Entries -/

namespace Item

/-- Whether all the lengths and counts in the record of a value fit in 64 bits. -/
def Fits : (i : Item) → i.Value → Prop
  | value f => f.Fits
  | length => fun _ => True
  | bytes => fun (bs : Bytes) => bs.length < 2 ^ 64

theorem decoder_encode (i : Item) {v : i.Value} (h : i.Fits v) (rest : Bytes) :
    i.decoder (i.encode v ++ rest) = (.ok v, rest) := by
  cases i with
  | value f => exact f.decoder_encode h rest
  | length =>
    have hback : UInt64.ofNat (UInt64.toNat v) = v := UInt64.ofNat_toNat
    have hread := Length.decode_encode rest (UInt64.toNat_lt v)
    exact (Decoder.refine_ok hread).trans (congrArg (fun n => (Except.ok n, rest)) hback)
  | bytes => exact Wire.reads_byteString.append (Wire.spells_encodeByteString h) rest

end Item

/-- A value together with what it was written as. -/
structure Entry where
  item : Item
  value : item.Value

namespace Entry

def record (e : Entry) : Bytes :=
  e.item.encode e.value

def Fits (e : Entry) : Prop :=
  e.item.Fits e.value

end Entry

/-- The records of some entries, one after another. -/
def records (es : List Entry) : Bytes :=
  es.flatMap Entry.record

/-! ## What has been written and read -/

def Step.written? : Step → Option Entry
  | .write i v => some ⟨i, v⟩
  | .append _ | .read _ => none

def Step.asked? : Step → Option Item
  | .read i => some i
  | .write _ _ | .append _ => none

def Reply.returned? : Reply → Option Entry
  | .value i v => some ⟨i, v⟩
  | .done | .failed _ _ => none

def written (steps : List Step) : List Entry :=
  steps.filterMap Step.written?

def asked (steps : List Step) : List Item :=
  steps.filterMap Step.asked?

def returned (replies : List (Reply × Bytes)) : List Entry :=
  replies.filterMap fun r => r.1.returned?

/-- What has been written and not been asked for yet. -/
def unread (steps : List Step) : List Entry :=
  (written steps).drop (asked steps).length

theorem written_concat (past : List Step) (s : Step) :
    written (past ++ [s]) = written past ++ s.written?.toList := by
  cases s <;> simp [written, Step.written?]

theorem asked_concat (past : List Step) (s : Step) :
    asked (past ++ [s]) = asked past ++ s.asked?.toList := by
  cases s <;> simp [asked, Step.asked?]

theorem returned_concat (replies : List (Reply × Bytes)) (reply : Reply) (buffer : Bytes) :
    returned (replies ++ [(reply, buffer)]) = returned replies ++ reply.returned?.toList := by
  cases reply <;> simp [returned, Reply.returned?]

/-- Each read asks for what has been written, in the same order and not before: at any time, what
has been asked for is a beginning of what has been written. -/
structure Paired (steps : List Step) : Prop where
  noAppend : ∀ bs, Step.append bs ∉ steps
  asked_prefix : ∀ past, past <+: steps → asked past <+: (written past).map Entry.item

/-- The reply that a step gets after the steps in `past`: a read that comes after `k` others returns
the value that was written after `k` others. -/
inductive Answers (past : List Step) : Step → Reply → Prop
  | write {i : Item} {v : i.Value} : Answers past (.write i v) .done
  | read {i : Item} {v : i.Value} :
      (written past)[(asked past).length]? = some ⟨i, v⟩ → Answers past (.read i) (.value i v)

theorem Paired.of_prefix {past steps : List Step} (h : Paired steps) (hpast : past <+: steps) :
    Paired past where
  noAppend bs hmem := h.noAppend bs (hpast.mem hmem)
  asked_prefix _ hfront := h.asked_prefix _ (hfront.trans hpast)

theorem fits_of_prefix {past steps : List Step} (hpast : past <+: steps)
    (h : ∀ e ∈ written steps, e.Fits) : ∀ e ∈ written past, e.Fits := by
  intro e he
  exact h e ((hpast.filterMap Step.written?).mem he)

theorem Paired.length_asked_le {steps : List Step} (h : Paired steps) :
    (asked steps).length ≤ (written steps).length := by
  simpa using (h.asked_prefix steps (List.prefix_refl steps)).length_le

theorem Paired.unread_write {past : List Step} {i : Item} {v : i.Value} (h : Paired past) :
    unread (past ++ [.write i v]) = unread past ++ [⟨i, v⟩] := by
  rw [unread, written_concat, asked_concat]
  simp only [Step.asked?, Step.written?, Option.toList_none, Option.toList_some, List.append_nil]
  exact List.drop_append_of_le_length h.length_asked_le

/-- A read finds the entry that it asks for in front of all that is unread. -/
theorem Paired.unread_read {past : List Step} {i : Item} (h : Paired (past ++ [.read i])) :
    ∃ v, (written past)[(asked past).length]? = some ⟨i, v⟩ ∧
      unread past = ⟨i, v⟩ :: unread (past ++ [.read i]) := by
  have hprefix := h.asked_prefix _ (List.prefix_refl _)
  rw [asked_concat, written_concat] at hprefix
  simp only [Step.asked?, Step.written?, Option.toList_none, Option.toList_some,
    List.append_nil] at hprefix
  obtain ⟨later, hlater⟩ := hprefix
  rw [List.append_assoc] at hlater
  obtain ⟨before, rest, hwritten, hbefore, hrest⟩ := List.map_eq_append_iff.mp hlater.symm
  obtain ⟨⟨_, v⟩, behind, rfl, rfl, -⟩ := List.map_eq_cons_iff.mp hrest
  have hlength : (asked past).length = before.length := by rw [← hbefore, List.length_map]
  refine ⟨v, ?_, ?_⟩
  · rw [hwritten, hlength]
    simp
  · rw [unread, unread, written_concat, asked_concat, hwritten]
    simp [Step.asked?, Step.written?, hlength]

/-! ## One step -/

theorem perform_read {i : Item} {v : i.Value} {buffer rest : Bytes}
    (h : i.decoder buffer = (.ok v, rest)) : perform buffer (.read i) = (.value i v, rest) := by
  simp only [perform, h]

/-- A step on a buffer that holds the unread records leaves one that does, and is answered with what
it should be.  What it returns was in front of the unread entries, and what it writes goes behind
them. -/
theorem perform_unread {past : List Step} {s : Step} (h : Paired (past ++ [s]))
    (hfits : ∀ e ∈ written past, e.Fits) :
    ∃ reply, perform (records (unread past)) s = (reply, records (unread (past ++ [s]))) ∧
      Answers past s reply ∧
      reply.returned?.toList ++ unread (past ++ [s]) = unread past ++ s.written?.toList := by
  cases s with
  | write i v =>
    have hunread := (h.of_prefix (List.prefix_append past _)).unread_write (i := i) (v := v)
    refine ⟨.done, ?_, .write, ?_⟩
    · rw [hunread, records, records, List.flatMap_append, List.flatMap_singleton]
      rfl
    · rw [hunread]
      rfl
  | append bs => exact absurd (by simp) (h.noAppend bs)
  | read i =>
    obtain ⟨v, hnext, hunread⟩ := h.unread_read
    have hv : i.Fits v := hfits ⟨i, v⟩ (List.mem_of_getElem? hnext)
    refine ⟨.value i v, ?_, .read hnext, ?_⟩
    · rw [hunread, records, List.flatMap_cons]
      exact perform_read (i.decoder_encode hv _)
    · rw [hunread]
      simp [Reply.returned?, Step.written?]

/-! ## Whole sessions -/

/-- The buffer after some steps. -/
def bufferAfter (buffer : Bytes) (steps : List Step) : Bytes :=
  steps.foldl (fun buffer s => (perform buffer s).2) buffer

theorem bufferAfter_concat (buffer : Bytes) (past : List Step) (s : Step) :
    bufferAfter buffer (past ++ [s]) = (perform (bufferAfter buffer past) s).2 := by
  simp [bufferAfter]

theorem length_run (buffer : Bytes) (steps : List Step) :
    (run buffer steps).length = steps.length := by
  induction steps generalizing buffer with
  | nil => rfl
  | cons s steps ih => rw [run, List.length_cons, ih, List.length_cons]

theorem run_append (buffer : Bytes) (past steps : List Step) :
    run buffer (past ++ steps) = run buffer past ++ run (bufferAfter buffer past) steps := by
  induction past generalizing buffer with
  | nil => rfl
  | cons s past ih =>
    rw [List.cons_append, run, run, ih, List.cons_append]
    rfl

theorem bufferAfter_paired {steps : List Step} (h : Paired steps)
    (hfits : ∀ e ∈ written steps, e.Fits) : bufferAfter [] steps = records (unread steps) := by
  induction steps using List.reverseRecOn with
  | nil => rfl
  | append_singleton past s ih =>
    have hpast : past <+: past ++ [s] := List.prefix_append past _
    have hfits' := fits_of_prefix hpast hfits
    obtain ⟨reply, hstep, -⟩ := perform_unread h hfits'
    rw [bufferAfter_concat, ih (h.of_prefix hpast) hfits', hstep]

theorem returned_paired {steps : List Step} (h : Paired steps)
    (hfits : ∀ e ∈ written steps, e.Fits) :
    returned (run [] steps) ++ unread steps = written steps := by
  induction steps using List.reverseRecOn with
  | nil => rfl
  | append_singleton past s ih =>
    have hpast : past <+: past ++ [s] := List.prefix_append past _
    have hpaired := h.of_prefix hpast
    have hfits' := fits_of_prefix hpast hfits
    obtain ⟨reply, hstep, -, hkept⟩ := perform_unread h hfits'
    calc returned (run [] (past ++ [s])) ++ unread (past ++ [s])
        = returned (run [] past) ++ (reply.returned?.toList ++ unread (past ++ [s])) := by
          rw [run_append, bufferAfter_paired hpaired hfits', run, run, hstep, returned_concat,
            List.append_assoc]
      _ = returned (run [] past) ++ unread past ++ s.written?.toList := by
          rw [hkept, List.append_assoc]
      _ = written (past ++ [s]) := by rw [ih hpaired hfits', written_concat]

/-- In a session that reads what it has written, every read succeeds and returns the value that is
next in the order of writing, and the buffer holds after every step the records of what has not been
read.  What has been returned and what is unread are together what has been written. -/
theorem run_fifo {steps : List Step} (h : Paired steps) (hfits : ∀ e ∈ written steps, e.Fits) :
    (∀ past s future, steps = past ++ s :: future →
      ∃ reply, (run [] steps)[past.length]? = some (reply, records (unread (past ++ [s]))) ∧
        Answers past s reply) ∧
    returned (run [] steps) ++ unread steps = written steps := by
  refine ⟨?_, returned_paired h hfits⟩
  rintro past s future rfl
  have hpast : past <+: past ++ s :: future := List.prefix_append past _
  have hstep : past ++ [s] <+: past ++ s :: future := ⟨future, by simp⟩
  have hpaired := h.of_prefix hpast
  have hfits' := fits_of_prefix hpast hfits
  obtain ⟨reply, hperform, hanswers, -⟩ := perform_unread (h.of_prefix hstep) hfits'
  refine ⟨reply, ?_, hanswers⟩
  rw [run_append, bufferAfter_paired hpaired hfits', List.getElem?_append_right, length_run]
  · simp [run, hperform]
  · rw [length_run]

/-- Writes of three kinds, with reads among them. -/
def interleaved : List Step :=
  [.write (.value .author) (⟨.name ⟨"ab"⟩, 258⟩ : Author), .write .length (300 : UInt64),
    .read (.value .author), .write .bytes ([1, 2] : Bytes), .read .length]

theorem paired_interleaved : Paired interleaved where
  noAppend bs := by simp [interleaved]
  asked_prefix past hpast := by
    obtain ⟨later, hlater⟩ := hpast
    have hlength : past.length ≤ 5 := by
      have := congrArg List.length hlater
      simp only [List.length_append, interleaved, List.length_cons, List.length_nil] at this
      omega
    have htake : past = interleaved.take past.length := by rw [← hlater, List.take_left]
    rw [htake]
    generalize past.length = n at hlength
    interval_cases n <;> exact ⟨_, rfl⟩

theorem fits_interleaved : ∀ e ∈ written interleaved, e.Fits := by
  have hname : Author.Fits ⟨.name ⟨"ab"⟩, 258⟩ := by
    show List.length _ < 2 ^ 64
    decide +kernel
  have hbytes : ([1, 2] : Bytes).length < 2 ^ 64 := by decide
  intro e he
  simp only [written, interleaved, List.filterMap_cons, Step.written?, List.filterMap_nil,
    List.mem_cons, List.not_mem_nil, or_false] at he
  rcases he with rfl | rfl | rfl
  · exact hname
  · trivial
  · exact hbytes

theorem run_fifo_interleaved :
    Paired interleaved ∧ (∀ e ∈ written interleaved, e.Fits) ∧
      (run [] interleaved)[2]? = some (.value (.value .author) (⟨.name ⟨"ab"⟩, 258⟩ : Author),
        [172, 2]) ∧
      (run [] interleaved)[4]? = some (.value .length (300 : UInt64), [2, 1, 2]) ∧
      returned (run [] interleaved) ++ unread interleaved = written interleaved := by
  obtain ⟨answered, kept⟩ := run_fifo paired_interleaved fits_interleaved
  have onlyLength : records [⟨.length, (300 : UInt64)⟩] = [172, 2] := by
    show Length.encode 300 ++ [] = _
    cbv
  have onlyBytes : records [⟨.bytes, ([1, 2] : Bytes)⟩] = [2, 1, 2] := by
    show Wire.encodeByteString [1, 2] ++ [] = _
    cbv
  refine ⟨paired_interleaved, fits_interleaved, ?_, ?_, kept⟩
  · obtain ⟨reply, hreply, hanswers⟩ :=
      answered (interleaved.take 2) (.read (.value .author)) (interleaved.drop 3) rfl
    cases hanswers with
    | read hnext =>
      cases hnext
      exact onlyLength ▸ hreply
  · obtain ⟨reply, hreply, hanswers⟩ := answered (interleaved.take 4) (.read .length) [] rfl
    cases hanswers with
    | read hnext =>
      cases hnext
      exact onlyBytes ▸ hreply

end Session
end Mandate
