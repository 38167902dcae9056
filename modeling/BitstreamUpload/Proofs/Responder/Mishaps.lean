import BitstreamUpload.Proofs.Chunk.Notes
import BitstreamUpload.Proofs.Responder.Plan

/-!
# Mishaps

A chunk may fail to go through: it is announced while another one is being received, its bytes come
unannounced or go past its end, or it is given up. All of this is noted (`Note.isMishap`). The laws
here say where nothing of the kind is noted: a reset is no mishap, an idle responder takes every
command without one (`Responder.isSmooth_command`), and a batch that is awaited and not too long is
received without one (`Responder.isSmooth_receive`).
-/

namespace BitstreamUpload

open Journal

/-! ## Notes of mishaps -/

/-- Whether a note tells of a chunk that does not go through: refused, announced too early, given up
or cut short, or with bytes past its end. -/
def Note.isMishap : Note → Bool
  | refused _ | announcedEarly _ _ | excess _ | discarded _ | shortData _ _ | resetMidChunk => true
  | _ => false

/-- No note of the journal tells of a mishap. -/
def Journal.IsSmooth (j : Journal) : Prop :=
  ∀ n ∈ j.notes, n.isMishap = false

namespace Journal

theorem isSmooth_nil : IsSmooth [] := nofun

theorem isSmooth_of_notes_eq {j : Journal} {n : Note} (h : j.notes = [n])
    (hn : n.isMishap = false) : IsSmooth j := by
  rw [IsSmooth, h]
  intro m hm
  rw [List.mem_singleton.mp hm]
  exact hn

@[simp] theorem isSmooth_append {j j' : Journal} :
    IsSmooth (j ++ j') ↔ IsSmooth j ∧ IsSmooth j' := by
  simp only [IsSmooth, notes_append, List.forall_mem_append]

theorem isSmooth_exclusively {j : Journal} (h : IsSmooth j) :
    IsSmooth (.enter :: (j ++ [.leave])) := by
  have hleave : IsSmooth (j ++ [.leave]) := isSmooth_append.mpr ⟨h, nofun⟩
  exact hleave

end Journal

variable {board : Board} {σ : Type}

/-- There is nothing to give up of an idle chunk, and nothing is noted. -/
theorem Chunk.discard_of_idle {chunk : Chunk} (h : chunk.isIdle = true) :
    chunk.discard = pure chunk := by
  have hzero : chunk.outstanding = 0 := eq_of_beq h
  unfold discard
  rw [h, ← hzero]
  rfl

theorem Responder.isReceiving_eq_false_iff {r : Responder board σ} :
    r.isReceiving = false ↔ r.chunk.isIdle = true := by
  rw [isReceiving, Bool.not_eq_false']

theorem Responder.discard_of_idle {r : Responder board σ} (h : r.isReceiving = false) :
    r.discard = pure r := by
  unfold discard
  rw [Chunk.discard_of_idle (isReceiving_eq_false_iff.mp h)]
  rfl

theorem Responder.isReceiving_read (setup : Setup) (r : Responder board σ) :
    (r.read setup).value.2.isReceiving = r.isReceiving := by
  unfold read
  split <;> rfl

/-- A read may be refused, but that is no mishap. -/
theorem Responder.isSmooth_read (setup : Setup) (r : Responder board σ) :
    (r.read setup).entries.IsSmooth := by
  unfold read
  split
  · exact isSmooth_nil
  · exact isSmooth_nil
  · exact isSmooth_of_notes_eq rfl rfl

variable [Target σ]

/-! ## The log of a chunk that goes through -/

theorem Bus.isSmooth_reset (bus : Bus board σ) : bus.reset.entries.IsSmooth :=
  isSmooth_of_notes_eq (notes_reset bus) (by split <;> rfl)

namespace Chunk

omit [Target σ] in
theorem isMishap_of_mem_startUpNotes {r : Result board σ} {n : Note} (h : n ∈ startUpNotes r) :
    n.isMishap = false := by
  rw [eq_of_mem_startUpNotes h]
  rfl

theorem isSmooth_announce {chunk : Chunk} (h : chunk.isIdle = true) (size : UInt16)
    (bus : Bus board σ) : (chunk.announce size bus).entries.IsSmooth := by
  rw [IsSmooth, notes_announce, if_pos h, List.forall_mem_cons]
  exact ⟨rfl, fun n => isMishap_of_mem_startUpNotes⟩

/-- A batch that does not go past the end of its chunk leaves nothing to note. -/
theorem isSmooth_receive {chunk : Chunk} {batch : List UInt8}
    (h : batch.length ≤ chunk.outstanding.toNat) (bus : Bus board σ) :
    (chunk.receive batch bus).entries.IsSmooth := by
  rw [IsSmooth, notes_receive, if_neg fun hover => Nat.not_lt.mpr h hover.2, List.nil_append]
  exact fun n => isMishap_of_mem_startUpNotes

theorem outcome_announcePlan {chunk : Chunk} (h : chunk.isIdle = true) (board : Board)
    (size : UInt16) : ∃ p, (chunk.announcePlan board size).outcome = .ok p := by
  rcases announcePlan_cases board size chunk with ⟨hbusy, -⟩ | ⟨-, -, hplan⟩ | ⟨-, -, hplan⟩
  · rw [h] at hbusy
    cases hbusy
  · rw [hplan]
    exact ⟨_, outcome_completePlan _⟩
  · rw [hplan]
    exact ⟨_, rfl⟩

theorem outcome_receivePlan {chunk : Chunk} (h : 0 < chunk.outstanding.toNat)
    (batch : List UInt8) : ∃ p, (chunk.receivePlan batch).outcome = .ok p := by
  rcases receivePlan_cases batch chunk with ⟨hzero, -⟩ | ⟨-, hplan⟩ | ⟨-, -, hplan⟩
  · rw [hzero] at h
    exact absurd h (Nat.lt_irrefl 0)
  · rw [hplan]
    exact ⟨_, rfl⟩
  · rw [hplan]
    exact ⟨_, outcome_completePlan _⟩

end Chunk

theorem Answer.isSmooth_ofOutcome {outcome : Outcome} (h : ∃ p, outcome = .ok p) :
    (ofOutcome outcome).entries.IsSmooth := by
  obtain ⟨p, rfl⟩ := h
  exact isSmooth_nil

namespace Responder

variable {r : Responder board σ}

/-- An idle responder takes any command without a mishap. -/
theorem isSmooth_command (h : r.isReceiving = false) (setup : Setup) :
    (r.command setup).entries.IsSmooth := by
  have hidle := isReceiving_eq_false_iff.mp h
  unfold command
  rcases setup.command? with _ | _ | _ | _ | size
  case some.reset =>
    rw [discard_of_idle h, pure_bind]
    exact isSmooth_append.mpr ⟨Bus.isSmooth_reset r.bus, isSmooth_nil⟩
  case some.chunk =>
    have houtcome : ∃ p, (r.chunk.announce size r.bus).value.outcome = .ok p := by
      rw [(Chunk.announce_follows size r.chunk r.bus).outcome]
      exact Chunk.outcome_announcePlan hidle board size
    refine isSmooth_append.mpr ⟨Chunk.isSmooth_announce hidle size r.bus, ?_⟩
    exact isSmooth_append.mpr ⟨Answer.isSmooth_ofOutcome houtcome, isSmooth_nil⟩
  all_goals exact isSmooth_of_notes_eq rfl rfl

/-- A batch that is awaited is taken without a mishap. -/
theorem isSmooth_receive {batch : List UInt8} (hbusy : 0 < r.chunk.outstanding.toNat)
    (h : batch.length ≤ r.chunk.outstanding.toNat) : (r.receive batch).entries.IsSmooth := by
  have houtcome : ∃ p, (r.chunk.receive batch r.bus).value.outcome = .ok p := by
    rw [(Chunk.receive_follows batch r.chunk r.bus).outcome]
    exact Chunk.outcome_receivePlan hbusy batch
  unfold receive
  refine isSmooth_append.mpr ⟨isSmooth_exclusively (Chunk.isSmooth_receive h r.bus), ?_⟩
  refine isSmooth_append.mpr ⟨?_, isSmooth_append.mpr ⟨Answer.isSmooth_ofOutcome houtcome,
    isSmooth_nil⟩⟩
  rw [Recorded.entries_noteWhen]
  split
  · exact isSmooth_of_notes_eq rfl rfl
  · exact isSmooth_nil

end Responder

end BitstreamUpload
