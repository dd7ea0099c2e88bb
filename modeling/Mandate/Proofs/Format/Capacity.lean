/-
What a place of limited size receives of a record.

A record is written in many pieces, and the room can run out in any of them.  `w.Writes full bs` says
that this does not show: `w` acts on a sink as one single write of `bs` would.  It writes all of `bs`
and succeeds, or it fills the room that is left with a beginning of `bs` and fails with `full`.

This is kept when writers are put after one another, because the first one to fail has left no room.
It also leaves a writer no freedom, so two writers of the same bytes are the same.
-/
import Mandate.Proofs.Format.Stability

namespace Mandate
namespace Writer

variable {ε ε' α : Type}

/-- `w` writes `bs`, or as much of it as there is room for; only then it fails, and with `full`. -/
def Writes (full : ε) (w : Writer ε) (bs : Bytes) : Prop :=
  ∀ sink, w sink =
    (if bs.length ≤ sink.room then .ok () else .error full,
      ⟨sink.written ++ bs.take sink.room, sink.room - bs.length⟩)

namespace Writes

variable {full : ε} {w v : Writer ε} {bs cs : Bytes}

theorem eq (hw : w.Writes full bs) (hv : v.Writes full bs) : w = v := by
  funext sink
  rw [hw sink, hv sink]

theorem done : Writes full (Writer.done : Writer ε) [] := by
  intro sink
  simp [Writer.done]

theorem put (bs : Bytes) : (Writer.put bs).Writes .noRoom bs := by
  intro sink
  have left : sink.room - (bs.take sink.room).length = sink.room - bs.length := by
    rw [List.length_take]
    omega
  by_cases h : bs.length ≤ sink.room
  · simp only [Writer.put, left, if_pos h]
  · simp only [Writer.put, left, if_neg h]

theorem mapError {g : ε → ε'} (hw : w.Writes full bs) : (w.mapError g).Writes (g full) bs := by
  intro sink
  rw [Writer.mapError, hw sink]
  by_cases h : bs.length ≤ sink.room
  · simp only [if_pos h]
  · simp only [if_neg h]

theorem andThen (hw : w.Writes full bs) (hv : v.Writes full cs) :
    (w.andThen v).Writes full (bs ++ cs) := by
  intro sink
  have total : (bs ++ cs).length = bs.length + cs.length := List.length_append
  rw [Writer.andThen, hw sink]
  by_cases h : bs.length ≤ sink.room
  · have taken : sink.written ++ bs.take sink.room ++ cs.take (sink.room - bs.length) =
        sink.written ++ (bs ++ cs).take sink.room := by
      rw [List.take_append, List.append_assoc]
    have left : sink.room - bs.length - cs.length = sink.room - (bs ++ cs).length := by omega
    simp only [if_pos h, hv _, taken, left]
    by_cases h' : cs.length ≤ sink.room - bs.length
    · rw [if_pos h', if_pos (by omega)]
    · rw [if_neg h', if_neg (by omega)]
  · -- There is no room left, and what has been written is a beginning of the first part.
    have taken : (bs ++ cs).take sink.room = bs.take sink.room :=
      List.take_append_of_le_length (by omega)
    have left : sink.room - bs.length = sink.room - (bs ++ cs).length := by omega
    simp only [if_neg h, if_neg (show ¬ (bs ++ cs).length ≤ sink.room by omega), taken, left]

theorem each {write : α → Writer ε} {encode : α → Bytes}
    (h : ∀ a, (write a).Writes full (encode a)) (as : List α) :
    (Writer.each write as).Writes full (as.flatMap encode) := by
  induction as with
  | nil => exact done
  | cons a as ih =>
    rw [List.flatMap_cons]
    exact (h a).andThen ih

/-- Writing byte by byte. -/
theorem each_byte (bs : Bytes) :
    (Writer.each (fun b => Writer.put [b]) bs).Writes .noRoom bs := by
  have h := each (fun b => put [b]) bs
  rwa [List.flatMap_singleton'] at h

/-- What a sink has received when it was empty before. -/
theorem written_empty (hw : w.Writes full bs) (capacity : Nat) :
    (w (.empty capacity)).2.written = bs.take (min capacity bs.length) := by
  rw [hw, List.take_eq_take_min]
  rfl

theorem ok_iff (hw : w.Writes full bs) (sink : Sink) :
    (w sink).1 = .ok () ↔ bs.length ≤ sink.room := by
  rw [hw]
  by_cases h : bs.length ≤ sink.room
  · simp [h]
  · simp [h]

theorem error_iff (hw : w.Writes full bs) (sink : Sink) :
    (w sink).1 = .error full ↔ sink.room < bs.length := by
  rw [hw]
  by_cases h : bs.length ≤ sink.room
  · simp [h]
  · simp [h, Nat.not_le.mp h]

end Writes
end Writer

open Writer

/-! ## Fields -/

namespace Wire

theorem writeByteString_writes (content : Bytes) :
    (writeByteString content).Writes .noRoom (encodeByteString content) :=
  (Writes.put _).andThen (.put _)

theorem writeSeq_writes {ε α : Type} {ofWire : WireError → ε} {write : α → Writer ε}
    {encode : α → Bytes} (h : ∀ a, (write a).Writes (ofWire .noRoom) (encode a)) (as : List α) :
    (writeSeq ofWire write as).Writes (ofWire .noRoom) (encodeSeq encode as) :=
  (Writes.put _).mapError.andThen (.each h as)

end Wire

/-! ## Records -/

theorem Envelope.write_writes (e : Envelope) : e.write.Writes .noRoom e.encode := by
  rw [encode, List.append_assoc]
  exact (Writes.put _).andThen ((Wire.writeByteString_writes _).andThen (.put _))

theorem Author.write_writes (a : Author) : a.write.Writes (.stream .noRoom) a.encode :=
  a.toEnvelope.write_writes.mapError

theorem ActionKind.write_writes (k : ActionKind) : k.write.Writes (.stream .noRoom) k.encode :=
  (Writes.put _).mapError

theorem Action.write_writes (a : Action) : a.write.Writes (.stream .noRoom) a.encode :=
  a.kind.write_writes.andThen a.author.write_writes

theorem Batch.write_writes (b : Batch) : b.write.Writes (.stream .noRoom) b.encode := by
  rw [encode, List.append_assoc]
  exact (Writes.put _).mapError.andThen
    ((Writes.put _).mapError.andThen (Wire.writeSeq_writes Action.write_writes _))

namespace Format

theorem write_writes (f : Format) (v : f.Value) :
    (f.write v).Writes (f.layer.ofWire .noRoom) (f.encode v) := by
  induction f with
  | byte => exact .put _
  | word => exact .put _
  | text => exact Wire.writeByteString_writes _
  | raw => exact Wire.writeByteString_writes _
  | fixed n => exact Wire.writeByteString_writes _
  | name => exact (Wire.writeByteString_writes _).mapError
  | key k => exact (Wire.writeByteString_writes _).mapError
  | envelope => exact Envelope.write_writes v
  | author => exact Author.write_writes v
  | actionKind => exact ActionKind.write_writes v
  | action => exact Action.write_writes v
  | batch => exact Batch.write_writes v
  | seq element ih => exact Wire.writeSeq_writes ih v

/-- A place with room for `capacity` bytes receives the first `capacity` bytes of a record, or all of
it if it has no more.  Writing fails exactly if it has more, for lack of room and without fault in
the value.  It comes to the same as writing the record byte by byte. -/
theorem written_eq_take (f : Format) (v : f.Value) (capacity : Nat) :
    ((f.write v (.empty capacity)).1 = .ok () ↔ (f.encode v).length ≤ capacity) ∧
    ((f.write v (.empty capacity)).1 = .error (f.layer.ofWire .noRoom) ↔
      capacity < (f.encode v).length) ∧
    (f.write v (.empty capacity)).2.written =
      (f.encode v).take (min capacity (f.encode v).length) ∧
    f.layer.findsFault (f.layer.ofWire .noRoom) = false ∧
    f.write v =
      (Writer.each (fun b => Writer.put [b]) (f.encode v)).mapError f.layer.ofWire := by
  have writes := f.write_writes v
  refine ⟨writes.ok_iff _, writes.error_iff _, writes.written_empty capacity, ?_, ?_⟩
  · exact f.layer.findsFault_ofWire .noRoom
  · exact writes.eq (Writes.each_byte (f.encode v)).mapError

end Format

end Mandate
