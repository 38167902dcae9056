import BitstreamUpload.Proofs.Bus.Waveform
import BitstreamUpload.Proofs.Controllers

/-!
# Every bus is worked with discipline

`runs_disciplined` says for the runs of this library that the calls on a bus are what
`Bus.Disciplined` asks for. It counts on every operation leaving the lines at rest, so it also holds
when a bus is worked directly between the operations of the chunk or of the responder that owns it.
`Gang.Work` and `Responder.Work` are operations of these two, with that freedom added.
-/

namespace BitstreamUpload

open Journal

namespace Bus

/-- One operation does what it does. -/
theorem Does.single {board : Board} {σ : Type} [Target σ] (op : Operation) (bus : Bus board σ) :
    Does [op] bus (step op bus).value.2 (step op bus).entries := by
  refine ⟨rfl, ?_⟩
  rw [run_cons, Recorded.entries_bind]
  exact congrArg calls (List.append_nil _).symm

theorem Controller.disciplined {ω α τ : Type} {sys : ω → τ → Recorded (α × τ)} {board : Board}
    {σ : Type} [Target σ] (c : Controller sys board σ) (ops : List ω) {s : τ} {target : σ}
    (hs : c.bus s = (connect target : Recorded (Bus board σ)).value) :
    Disciplined board (c.history ops s)
      (calls ((connect target : Recorded (Bus board σ)).entries ++ c.journal ops s))
      (c.bus (run sys ops s).value).lines := by
  obtain ⟨hbus, hcalls⟩ := c.does_run ops s
  rw [calls_append, hcalls, hbus, hs, ← calls_append]
  exact disciplined_run target (c.history ops s)

end Bus

/-! ## Several buses that can be worked directly -/

namespace Gang

variable {ι : Type} [DecidableEq ι] {boards : ι → Board} {σ : ι → Type}

/-- An operation on the chunk, or one on a bus. -/
inductive Work (ι : Type) where
  | chunk (op : Operation ι)
  | direct (i : ι) (op : Bus.Operation)
deriving Repr

/-- The bus that is worked, if there is one. -/
def Work.bus? : Work ι → Option ι
  | chunk op => op.bus?
  | direct i _ => some i

variable [∀ i, Target (σ i)]

/-- Does some work. Only an operation on the chunk has an outcome. -/
def work (w : Work ι) (g : Gang boards σ) : Recorded (Option Outcome × Gang boards σ) :=
  match w with
  | .chunk op => step op g
  | .direct i op => (fun x => (none, g.setBus i x.2)) <$> Bus.step op (g.buses i)

/-- What the bus `i` is to do. -/
def workOn (g : Gang boards σ) (i : ι) : Work ι → List Bus.Operation
  | .chunk op => actsOn boards g.chunk i op
  | .direct j op => if j = i then [op] else []

theorem work_does (w : Work ι) (g : Gang boards σ) (i : ι) :
    Bus.Does (workOn g i w) (g.buses i) ((work w g).value.2.buses i)
      (if w.bus? = some i then (work w g).entries else []) := by
  cases w with
  | chunk op => exact step_does op g i
  | direct j op =>
    rw [work, Recorded.value_map, Recorded.entries_map, workOn, Work.bus?]
    by_cases hji : j = i
    · subst hji
      rw [if_pos rfl, if_pos rfl, buses_setBus_self]
      exact Bus.Does.single op (g.buses j)
    · rw [if_neg hji, if_neg fun he => hji (Option.some.inj he),
        buses_setBus_of_ne (Ne.symm hji)]
      exact Bus.Does.nothing _ rfl

/-- A gang that can also be worked directly works the bus `i` when it is addressed. -/
def worker (boards : ι → Board) (σ : ι → Type) [∀ i, Target (σ i)] (i : ι) :
    Bus.Controller (work : Work ι → Gang boards σ → _) (boards i) (σ i) where
  bus g := g.buses i
  acts w g := workOn g i w
  share w j := if w.bus? = some i then j else []
  does_step w g := work_does w g i

end Gang

/-! ## A responder whose bus can be worked directly -/

namespace Responder

/-- An operation of the responder, or one on its bus. -/
inductive Work where
  | request (op : Operation)
  | direct (op : Bus.Operation)
deriving Repr

variable {board : Board} {σ : Type} [Target σ]

/-- Does some work. Nothing is answered to an operation on the bus. -/
def work (w : Work) (r : Responder board σ) : Recorded (Response × Responder board σ) :=
  match w with
  | .request op => step op r
  | .direct op => (fun x => (.silence, { r with bus := x.2 })) <$> Bus.step op r.bus

/-- What the bus is to do. -/
def workOn (r : Responder board σ) : Work → List Bus.Operation
  | .request op => (plan board r.chunk op).acts
  | .direct op => [op]

theorem work_does (w : Work) (r : Responder board σ) :
    Bus.Does (workOn r w) r.bus (work w r).value.2.bus (work w r).entries := by
  cases w with
  | request op => exact (step_follows op r).does
  | direct op =>
    rw [work, Recorded.value_map, Recorded.entries_map]
    exact Bus.Does.single op r.bus

/-- A responder that can also be worked directly has one bus, and all its journal is about it. -/
def worker (board : Board) (σ : Type) [Target σ] :
    Bus.Controller (work : Work → Responder board σ → _) board σ where
  bus r := r.bus
  acts w r := workOn r w
  share _ j := j
  does_step := work_does

end Responder

/-! ## All runs -/

/-- The calls on a bus are disciplined: in a run of bus operations, in a run of a chunk over several
buses for each of them, in a run of a responder, both with the buses also worked directly at any
time, and in a run of a loader function. -/
theorem runs_disciplined :
    (∀ (board : Board) (σ : Type) [Target σ] (target : σ) (ops : List Bus.Operation),
      let after : Recorded (Bus board σ) := Bus.connect target >>= run Bus.step ops
      Bus.Disciplined board ops after.entries.calls after.value.lines)
    ∧ (∀ (ι : Type) [DecidableEq ι] (boards : ι → Board) (σ : ι → Type) [∀ i, Target (σ i)]
        (targets : (i : ι) → σ i) (chunk : Chunk) (ops : List (Gang.Work ι)) (i : ι),
      let start : Gang boards σ := ⟨chunk, fun i => (Bus.connect (targets i)).value⟩
      let c := Gang.worker boards σ i
      Bus.Disciplined (boards i) (c.history ops start)
        ((Bus.connect (targets i) : Recorded (Bus (boards i) (σ i))).entries
          ++ c.journal ops start).calls
        ((run Gang.work ops start).value.buses i).lines)
    ∧ (∀ (board : Board) (σ : Type) [Target σ] (target : σ) (identity : Identity)
        (ops : List Responder.Work),
      let start : Recorded (Responder board σ) := Responder.connect target identity
      let after := start >>= run Responder.work ops
      Bus.Disciplined board ((Responder.worker board σ).history ops start.value)
        after.entries.calls after.value.bus.lines)
    ∧ ∀ (board : Board) (σ : Type) [Target σ] (interface stringIndex : UInt8) (target : σ)
        (identity : Identity) (ops : List LoaderFunction.Operation),
      let start : Recorded (LoaderFunction board σ) :=
        LoaderFunction.connect interface stringIndex target identity
      let after := start >>= run LoaderFunction.step ops
      Bus.Disciplined board ((LoaderFunction.controller board σ).history ops start.value)
        after.entries.calls after.value.responder.bus.lines := by
  refine ⟨?_, ?_, ?_, ?_⟩
  · intro board σ _ target ops
    exact Bus.disciplined_run target ops
  · intro ι _ boards σ _ targets chunk ops i start c
    exact c.disciplined ops rfl
  · intro board σ _ target identity ops start after
    have hrun := (Responder.worker board σ).disciplined ops (s := start.value) rfl
    have hentries : (Responder.worker board σ).journal ops start.value
        = (run Responder.work ops start.value).entries :=
      (entries_run Responder.work ops start.value).symm
    rw [hentries] at hrun
    exact hrun
  · intro board σ _ interface stringIndex target identity ops start after
    have hrun := (LoaderFunction.controller board σ).disciplined ops (s := start.value) rfl
    rw [LoaderFunction.journal_controller] at hrun
    exact hrun

end BitstreamUpload
