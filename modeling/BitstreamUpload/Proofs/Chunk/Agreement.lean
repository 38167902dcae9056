import BitstreamUpload.Chunk
import BitstreamUpload.Proofs.Bus.Agreement

/-!
# Two chunks side by side

While no bytes are outstanding, what else a chunk holds was left behind by an earlier one. `Match`
allows two idle chunks to differ there, unless they are `known` not to. Whatever is done with chunks
that match, on buses that match, turns out the same for both; and an announcement makes it known
what they hold (`agrees_announce`).
-/

namespace BitstreamUpload

open Recorded

namespace Chunk

/-- The same chunk, or two idle ones. Those may differ in what earlier chunks left behind, unless it
is known that they do not. -/
def Match (known : Prop) (chunk chunk' : Chunk) : Prop :=
  chunk = chunk' ∨ ¬known ∧ chunk.isIdle = true ∧ chunk'.isIdle = true

namespace Match

variable {known : Prop} {chunk chunk' : Chunk}

theorem of_eq (h : chunk = chunk') : Match known chunk chunk' := .inl h

theorem eq_of_known (h : Match known chunk chunk') (hknown : known) : chunk = chunk' :=
  h.resolve_right fun hdiffer => hdiffer.1 hknown

theorem isIdle_eq (h : Match known chunk chunk') : chunk.isIdle = chunk'.isIdle := by
  rcases h with rfl | ⟨-, hidle, hidle'⟩
  · rfl
  · rw [hidle, hidle']

theorem outstanding_eq (h : Match known chunk chunk') : chunk.outstanding = chunk'.outstanding := by
  rcases h with rfl | ⟨-, hidle, hidle'⟩
  · rfl
  · rw [eq_of_beq hidle, eq_of_beq hidle']

/-- Chunks of which bytes are outstanding do not differ. -/
theorem eq_of_busy (h : Match known chunk chunk') (hbusy : chunk.isIdle = false) :
    chunk = chunk' := by
  rcases h with rfl | ⟨-, hidle, -⟩
  · rfl
  · rw [hidle] at hbusy
    cases hbusy

/-- Chunks match once they are given up, if nothing is known of them. -/
theorem discarded (chunk chunk' : Chunk) :
    Match False { chunk with outstanding := 0 } { chunk' with outstanding := 0 } :=
  .inr ⟨id, rfl, rfl⟩

end Match

variable {board : Board} {σ τ : Type}

/-- What matching chunks come to. -/
structure Result.Match (known : Prop) (r : Result board σ) (r' : Result board τ) : Prop where
  outcome : r.outcome = r'.outcome
  chunk : Chunk.Match known r.chunk r'.chunk
  bus : Bus.Match Eq r.bus r'.bus

variable [Target σ] [Target τ] {known : Prop} {chunk chunk' : Chunk} {bus : Bus board σ}
  {bus' : Bus board τ}

theorem agrees_complete (hbus : Bus.Match Eq bus bus') (chunk : Chunk) :
    Agrees (Result.Match known) (chunk.complete bus) (chunk.complete bus') := by
  unfold complete
  split
  · refine (Bus.agrees_startUp hbus).bind fun bus bus' hbus => ?_
    exact Agrees.pure ⟨rfl, .of_eq rfl, Bus.match_confirm hbus⟩
  · exact Agrees.pure ⟨rfl, .of_eq rfl, hbus⟩

/-- What is held behind an announcement is what was announced, or what both held before. -/
theorem agrees_announce (hchunk : Match known chunk chunk') (hbus : Bus.Match Eq bus bus')
    (size : UInt16) :
    Agrees (Result.Match True) (chunk.announce size bus) (chunk'.announce size bus') := by
  unfold announce
  rw [← hchunk.isIdle_eq]
  cases hidle : chunk.isIdle with
  | false =>
    obtain rfl := hchunk.eq_of_busy hidle
    exact Agrees.noted _ ⟨rfl, .of_eq rfl, hbus⟩
  | true =>
    refine (Agrees.refl _).bind fun _ _ _ => ?_
    split
    · exact agrees_complete hbus _
    · exact Agrees.pure ⟨rfl, .of_eq rfl, hbus⟩

theorem agrees_receive (hchunk : Match known chunk chunk') (hbus : Bus.Match Eq bus bus')
    (batch : List UInt8) :
    Agrees (Result.Match known) (chunk.receive batch bus) (chunk'.receive batch bus') := by
  unfold receive
  rw [← hchunk.isIdle_eq]
  cases hidle : chunk.isIdle with
  | true => exact Agrees.pure ⟨rfl, hchunk, hbus⟩
  | false =>
    obtain rfl := hchunk.eq_of_busy hidle
    refine (Agrees.refl _).bind fun _ _ _ => ?_
    refine (Bus.agrees_sendAll hbus _).bind fun bus bus' hbus => ?_
    dsimp only
    split
    · exact agrees_complete hbus _
    · exact Agrees.pure ⟨rfl, .of_eq rfl, hbus⟩

theorem agrees_discard (h : Match known chunk chunk') :
    Agrees (Match known) chunk.discard chunk'.discard := by
  unfold discard
  rw [← h.isIdle_eq, ← h.outstanding_eq]
  refine (Agrees.refl _).bind fun _ _ _ => Agrees.pure ?_
  rcases h with rfl | ⟨hunknown, -, -⟩
  · exact .of_eq rfl
  · exact .inr ⟨hunknown, rfl, rfl⟩

end Chunk

end BitstreamUpload
