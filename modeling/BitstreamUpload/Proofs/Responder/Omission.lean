import BitstreamUpload.Proofs.Bisimulation
import BitstreamUpload.Proofs.Responder.Refusal

/-!
# Operations that leave no trace

A responder keeps the status record it last sent, and nothing that it answers or writes depends on
it: responders that differ in nothing else cannot be told apart (`alike_bisimulation`). A read
changes at most that record, and a refused operation not even that, so any of them may be left out
of a run.
-/

namespace BitstreamUpload

open Journal

namespace Responder

variable {board : Board} {σ : Type}

/-- Responders that differ at most in the status record they last sent. -/
structure Alike (r r' : Responder board σ) : Prop where
  bus : r.bus = r'.bus
  chunk : r.chunk = r'.chunk
  identityRecord : r.identityRecord = r'.identityRecord

theorem Alike.refl (r : Responder board σ) : Alike r r :=
  ⟨rfl, rfl, rfl⟩

theorem Alike.trans {r r' r'' : Responder board σ} (h : Alike r r') (h' : Alike r' r'') :
    Alike r r'' :=
  ⟨h.bus.trans h'.bus, h.chunk.trans h'.chunk, h.identityRecord.trans h'.identityRecord⟩

variable [Target σ]

theorem identityRecord_step (op : Operation) (r : Responder board σ) :
    (step op r).value.2.identityRecord = r.identityRecord := by
  cases op with
  | read setup =>
    rw [step_read, Recorded.value_map]
    unfold read
    split <;> rfl
  | command setup =>
    rw [step_command, Recorded.value_map]
    unfold command
    split <;> rfl
  | receive batch => rfl
  | discard => rfl

/-- What an operation answers and writes does not depend on the status record that was last sent. -/
theorem step_alike {r r' : Responder board σ} (h : Alike r r') (op : Operation) :
    (step op r).value.1 = (step op r').value.1 ∧ (step op r).entries = (step op r').entries := by
  obtain ⟨bus, chunk, identityRecord, statusRecord⟩ := r
  obtain ⟨bus', chunk', identityRecord', statusRecord'⟩ := r'
  obtain ⟨hbus, hchunk, hidentity⟩ := h
  simp only at hbus hchunk hidentity
  subst hbus hchunk hidentity
  cases op with
  | read setup =>
    rw [step_read, step_read]
    unfold read
    split <;> exact ⟨rfl, rfl⟩
  | command setup =>
    rw [step_command, step_command]
    unfold command
    split <;> exact ⟨rfl, rfl⟩
  | receive batch => exact ⟨rfl, rfl⟩
  | discard => exact ⟨rfl, rfl⟩

theorem alike_bisimulation :
    Bisimulation step (Alike : Responder board σ → Responder board σ → Prop) where
  answer h op := (step_alike h op).1
  entries h op := (step_alike h op).2
  after {r r'} h op := by
    obtain ⟨-, hchunk, hdoes⟩ := step_follows op r
    obtain ⟨-, hchunk', hdoes'⟩ := step_follows op r'
    rw [← h.chunk] at hchunk' hdoes'
    rw [← h.bus] at hdoes'
    refine ⟨?_, ?_, ?_⟩
    · rw [hdoes.bus_eq, hdoes'.bus_eq]
    · rw [hchunk, hchunk']
    · rw [identityRecord_step, identityRecord_step, h.identityRecord]

/-- After a read or a refused operation a responder is as good as before. -/
theorem alike_of_inert {op : Operation} {r : Responder board σ} (h : Inert op r) :
    Alike (step op r).value.2 r := by
  obtain ⟨hbus, hchunk, -⟩ := step_of_inert h
  exact ⟨hbus, hchunk, identityRecord_step op r⟩

/-- Any reads and any refused operations may be left out of a run. All other operations answer and
write the same without them, the run makes the same calls, and bus and chunk are the same behind it.
What was refused is told from all else by what it wrote. -/
theorem omitting_inert {board : Board} {σ : Type} [Target σ] (r : Responder board σ)
    (ops : List Operation) (chosen : Nat → Bool) :
    let ts := turns step ops r
    let kept := Turn.omitting (fun t => t.operation.isRead || t.answer.isRefusal) chosen ts
    let after := run step ops r
    let after' := run step (kept.map (·.operation)) r
    (turns step (kept.map (·.operation)) r).map Turn.seen = kept.map Turn.seen
      ∧ after'.entries.calls = after.entries.calls
      ∧ after'.value.bus = after.value.bus
      ∧ after'.value.chunk = after.value.chunk
      ∧ ∀ t ∈ ts, TellsOfRefusal t := by
  intro ts kept after after'
  have hinert (op : Operation) (s s' : Responder board σ) (hs : Alike s s')
      (h : (op.isRead || (step op s).value.1.isRefusal) = true) : Alike (step op s).value.2 s' :=
    (alike_of_inert (Bool.or_eq_true_iff.mp h)).trans hs
  obtain ⟨hseen, hend⟩ := alike_bisimulation.turns_omitting
    (p := fun t => t.operation.isRead || t.answer.isRefusal) hinert ops chosen (.refl r)
  have hcalls : ∀ t ∈ ts, (t.operation.isRead || t.answer.isRefusal) = true
      → t.entries.calls = [] :=
    Turn.forall_mem_turns (fun op s h => (step_of_inert (Bool.or_eq_true_iff.mp h)).2.2) ops r
  refine ⟨hseen, ?_, hend.bus.symm, hend.chunk.symm,
    Turn.forall_mem_turns tellsOfRefusal_turn ops r⟩
  rw [entries_run, entries_run, Turn.journal_eq_seen, hseen, ← Turn.journal_eq_seen]
  exact Turn.calls_omitting hcalls chosen

end Responder

end BitstreamUpload
