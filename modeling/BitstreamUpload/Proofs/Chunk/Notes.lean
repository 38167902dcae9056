import BitstreamUpload.Proofs.Chunk.Plan

/-!
# What a chunk notes

The notes of each operation on a chunk, all of them and in order. A start-up is noted with the
status behind it, just if it is what came of the operation (`startUpNotes`). That an announcement or
a batch is refused is left to the caller to tell.
-/

namespace BitstreamUpload

open Journal

/-- The note about a status behind a start-up. -/
def Status.finishedNote (s : Status) : Note :=
  .finished s.count s.checksum s.diagnostic

namespace Chunk

variable {board : Board} {σ : Type} [Target σ]

/-- The note of a start-up, if that is what came of an operation. -/
def startUpNotes (r : Result board σ) : List Note :=
  match r.outcome with
  | .ok .configured => [r.bus.status.finishedNote]
  | _ => []

omit [Target σ] in
theorem startUpNotes_of_configured {r : Result board σ} (h : r.outcome = .ok .configured) :
    startUpNotes r = [r.bus.status.finishedNote] := by
  rw [startUpNotes, h]

omit [Target σ] in
theorem startUpNotes_of_ne {r : Result board σ} (h : r.outcome ≠ .ok .configured) :
    startUpNotes r = [] := by
  unfold startUpNotes
  split
  · next hconfigured => exact absurd hconfigured h
  · rfl

omit [Target σ] in
theorem eq_of_mem_startUpNotes {r : Result board σ} {n : Note} (h : n ∈ startUpNotes r) :
    n = r.bus.status.finishedNote := by
  unfold startUpNotes at h
  split at h
  · exact List.mem_singleton.mp h
  · cases h

theorem notes_complete (chunk : Chunk) (bus : Bus board σ) :
    notes (chunk.complete bus).entries = startUpNotes (chunk.complete bus).value := by
  unfold complete
  split
  · rw [Recorded.entries_bind, notes_append, Bus.notes_startUp]
    rfl
  · rfl

theorem notes_announce (size : UInt16) (chunk : Chunk) (bus : Bus board σ) :
    notes (chunk.announce size bus).entries
      = if chunk.isIdle then
          .announced size (size != board.chunkSize) :: startUpNotes (chunk.announce size bus).value
        else [.announcedEarly size chunk.outstanding] := by
  unfold announce
  cases chunk.isIdle with
  | false => rfl
  | true =>
    by_cases hsize : size = 0
    · simp only [hsize, Bool.not_true, Bool.false_eq_true, if_false, if_true,
        Recorded.entries_bind, Recorded.value_bind, notes_append, notes_complete]
      rfl
    · simp only [hsize, Bool.not_true, Bool.false_eq_true, if_false, if_true]
      rfl

theorem notes_afterBatch (chunk : Chunk) (bus : Bus board σ) :
    let r : Recorded (Result board σ) :=
      if chunk.isIdle then chunk.complete bus else pure ⟨.ok .pending, chunk, bus⟩
    notes r.entries = startUpNotes r.value := by
  intro r
  cases hidle : chunk.isIdle with
  | true => simpa only [r, hidle, if_true] using notes_complete chunk bus
  | false => simp only [r, hidle]; rfl

/-- Bytes past the end of the chunk are noted before any bytes are sent. -/
theorem notes_receive (batch : List UInt8) (chunk : Chunk) (bus : Bus board σ) :
    notes (chunk.receive batch bus).entries
      = (if chunk.isIdle = false ∧ chunk.outstanding.toNat < batch.length then
          [.excess (batch.length - chunk.outstanding.toNat)]
        else []) ++ startUpNotes (chunk.receive batch bus).value := by
  unfold receive
  cases chunk.isIdle with
  | true => rfl
  | false =>
    let taken := min batch.length chunk.outstanding.toNat
    have hrest := notes_afterBatch (chunk.sent taken) (bus.sendAll (batch.take taken)).value
    have hexcess : notes (Recorded.noteWhen (taken < batch.length)
          (.excess (batch.length - taken))).entries
        = if chunk.outstanding.toNat < batch.length then
            [.excess (batch.length - chunk.outstanding.toNat)]
          else [] := by
      rw [Recorded.entries_noteWhen]
      rcases Nat.lt_or_ge chunk.outstanding.toNat batch.length with hover | hfits
      · have htaken : taken = chunk.outstanding.toNat := Nat.min_eq_right (Nat.le_of_lt hover)
        rw [htaken, if_pos hover, if_pos hover]
        rfl
      · have htaken : taken = batch.length := Nat.min_eq_left hfits
        rw [htaken, if_neg (Nat.lt_irrefl _), if_neg (Nat.not_lt.mpr hfits)]
        rfl
    simp only [Bool.false_eq_true, if_false, Recorded.entries_bind, Recorded.value_bind,
      notes_append, Bus.notes_sendAll, List.nil_append, true_and]
    rw [hexcess]
    exact congrArg (_ ++ ·) hrest

theorem notes_discard (chunk : Chunk) :
    notes chunk.discard.entries
      = if chunk.isIdle then [] else [.discarded chunk.outstanding] := by
  unfold discard
  cases chunk.isIdle <;> rfl

end Chunk

end BitstreamUpload
