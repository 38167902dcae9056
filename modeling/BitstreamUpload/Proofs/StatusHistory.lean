import BitstreamUpload.Proofs.Bus.Summary
import BitstreamUpload.Proofs.Controllers

/-!
# The status tells the history since the last reset

`status_summarizes_history` says for every run of this library, on any level, that the status is
what `Bus.Summarizes` makes of the history. For the bus itself this is `Bus.summarizes_run`. The
other levels are controllers of a bus, so their runs are runs of a bus (`Bus.Controller.does_run`).
-/

namespace BitstreamUpload

namespace Bus

/-- What a run of a system has its bus do accounts for all calls of the run, and the status
summarizes it. -/
structure Controller.Accounts {ω α τ : Type} {sys : ω → τ → Recorded (α × τ)} {board : Board}
    {σ : Type} [Target σ] (c : Controller sys board σ) (ops : List ω) (s : τ) : Prop where
  calls : (c.journal ops s).calls = (run step (c.history ops s) (c.bus s)).entries.calls
  status : Summarizes (turns step (c.history ops s) (c.bus s)) (c.bus (run sys ops s).value).status

theorem Controller.accounts {ω α τ : Type} {sys : ω → τ → Recorded (α × τ)} {board : Board}
    {σ : Type} [Target σ] (c : Controller sys board σ) (ops : List ω) {s : τ} {target : σ}
    (hs : c.bus s = (connect target : Recorded (Bus board σ)).value) : c.Accounts ops s := by
  obtain ⟨hbus, hcalls⟩ := c.does_run ops s
  refine ⟨hcalls, ?_⟩
  rw [hbus, hs]
  exact summarizes_run target (c.history ops s)

end Bus

/-- The status is the summary of the history: in a run of bus operations, in a run of a chunk over
several buses for each of them, in a run of a responder, and in a run of a loader function. -/
theorem status_summarizes_history :
    (∀ (board : Board) (σ : Type) [Target σ] (target : σ) (ops : List Bus.Operation),
      let bus := (Bus.connect target : Recorded (Bus board σ)).value
      Bus.Summarizes (turns Bus.step ops bus) (run Bus.step ops bus).value.status)
    ∧ (∀ (ι : Type) [DecidableEq ι] (boards : ι → Board) (σ : ι → Type) [∀ i, Target (σ i)]
        (targets : (i : ι) → σ i) (chunk : Chunk) (ops : List (Gang.Operation ι)) (i : ι),
      (Gang.controller boards σ i).Accounts ops
        ⟨chunk, fun i => (Bus.connect (targets i)).value⟩)
    ∧ (∀ (board : Board) (σ : Type) [Target σ] (target : σ) (identity : Identity)
        (ops : List Responder.Operation),
      (Responder.controller board σ).Accounts ops (Responder.connect target identity).value)
    ∧ ∀ (board : Board) (σ : Type) [Target σ] (interface stringIndex : UInt8) (target : σ)
        (identity : Identity) (ops : List LoaderFunction.Operation),
      (LoaderFunction.controller board σ).Accounts ops
        (LoaderFunction.connect interface stringIndex target identity).value := by
  refine ⟨?_, ?_, ?_, ?_⟩
  · intro board σ _ target ops
    exact Bus.summarizes_run target ops
  · intro ι _ boards σ _ targets chunk ops i
    exact (Gang.controller boards σ i).accounts ops rfl
  · intro board σ _ target identity ops
    exact (Responder.controller board σ).accounts ops rfl
  · intro board σ _ interface stringIndex target identity ops
    exact (LoaderFunction.controller board σ).accounts ops rfl

end BitstreamUpload
