import BitstreamUpload.LoaderFunction
import BitstreamUpload.Proofs.Responder.Plan

/-!
# The systems of this library as controllers of a bus

A gang for each of its buses (`Gang.controller`), a responder (`Responder.controller`) and a loader
function (`LoaderFunction.controller`) work their bus by its operations and in no other way.
-/

namespace BitstreamUpload

open Journal

/-! ## Several buses -/

namespace Gang

variable {ι : Type} [DecidableEq ι] {boards : ι → Board} {σ : ι → Type}

/-- The bus that an operation is addressed to, if there is one. -/
def Operation.bus? : Operation ι → Option ι
  | announce i _ | receive i _ => some i
  | discard => none

/-- The plan of an operation. Giving up a chunk has none. -/
def plan? (boards : ι → Board) (chunk : Chunk) : Operation ι → Option Chunk.Plan
  | .announce i size => some (chunk.announcePlan (boards i) size)
  | .receive _ batch => some (chunk.receivePlan batch)
  | .discard => none

/-- What the bus `i` is to do for an operation. -/
def actsOn (boards : ι → Board) (chunk : Chunk) (i : ι) (op : Operation ι) : List Bus.Operation :=
  if op.bus? = some i then ((plan? boards chunk op).map (·.acts)).getD [] else []

variable [∀ i, Target (σ i)]

/-- The addressed bus follows the plan, the others stay as they are. -/
theorem put_does {i : ι} {plan : Chunk.Plan} {r : Recorded (Chunk.Result (boards i) (σ i))}
    (g : Gang boards σ) (h : Chunk.Follows plan (g.buses i) r) (j : ι) :
    Bus.Does (if some i = some j then plan.acts else []) (g.buses j)
      ((g.put i r.value).2.buses j) (if some i = some j then r.entries else []) := by
  by_cases hij : i = j
  · subst hij
    have hbus : (g.put i r.value).2.buses i = r.value.bus := buses_setBus_self i r.value.bus g
    rw [if_pos rfl, if_pos rfl, hbus]
    exact h.does
  -- Any other bus is the same one as before.
  · have hne : some i ≠ some j := fun he => hij (Option.some.inj he)
    have hbus : (g.put i r.value).2.buses j = g.buses j :=
      buses_setBus_of_ne (Ne.symm hij) r.value.bus g
    rw [if_neg hne, if_neg hne, hbus]
    exact Bus.Does.nothing _ rfl

theorem step_does (op : Operation ι) (g : Gang boards σ) (j : ι) :
    Bus.Does (actsOn boards g.chunk j op) (g.buses j) ((step op g).value.2.buses j)
      (if op.bus? = some j then (step op g).entries else []) := by
  cases op with
  | announce i size =>
    rw [step, Recorded.entries_map]
    exact put_does g (Chunk.announce_follows size g.chunk (g.buses i)) j
  | receive i batch =>
    rw [step, Recorded.entries_map]
    exact put_does g (Chunk.receive_follows batch g.chunk (g.buses i)) j
  | discard => exact Bus.Does.nothing _ rfl

/-- A gang works the bus `i` when it is addressed, and leaves it alone otherwise. -/
def controller (boards : ι → Board) (σ : ι → Type) [∀ i, Target (σ i)] (i : ι) :
    Bus.Controller (step : Operation ι → Gang boards σ → _) (boards i) (σ i) where
  bus g := g.buses i
  acts op g := actsOn boards g.chunk i op
  share op j := if op.bus? = some i then j else []
  does_step op g := step_does op g i

end Gang

/-! ## A responder -/

namespace Responder

variable {board : Board} {σ : Type} [Target σ]

/-- A responder has one bus, and all its journal is about it. -/
def controller (board : Board) (σ : Type) [Target σ] :
    Bus.Controller (step : Operation → Responder board σ → _) board σ where
  bus r := r.bus
  acts op r := (plan board r.chunk op).acts
  share _ j := j
  does_step op r := (step_follows op r).does

theorem journal_controller (ops : List Operation) (r : Responder board σ) :
    (controller board σ).journal ops r = (run step ops r).entries :=
  (entries_run step ops r).symm

end Responder

/-! ## The function on a device -/

namespace LoaderFunction

variable {board : Board} {σ : Type} [Target σ]

/-- What the bus is to do for a request that comes with its data. -/
def deliverActs (board : Board) (chunk : Chunk) (setup : Setup) (data : List UInt8) :
    List Bus.Operation :=
  let plan := Responder.commandPlan board chunk setup.command?
  if plan.answer = some .pending then plan.acts ++ (plan.chunk.receivePlan data).acts
  else plan.acts

theorem deliver_does (setup : Setup) (data : List UInt8) (r : Responder board σ) :
    Bus.Does (deliverActs board r.chunk setup data) r.bus (deliver setup data r).value.2.bus
      (deliver setup data r).entries := by
  have hanswer := Responder.answer_command setup r
  obtain ⟨-, hchunk, hcommand⟩ := Responder.command_follows setup r
  rw [Responder.step_command, Recorded.value_map] at hchunk
  rw [Responder.step_command, Recorded.value_map, Recorded.entries_map] at hcommand
  rw [deliverActs, hanswer, deliver, Recorded.value_bind, Recorded.entries_bind]
  rcases hr : (r.command setup).value with ⟨answer, r'⟩
  rw [hr] at hcommand hchunk
  cases answer with
  | pending =>
    obtain ⟨-, -, hreceive⟩ := Responder.receive_follows data r'
    rw [Responder.step_receive, Recorded.value_map, Recorded.entries_map] at hreceive
    simp only at hchunk
    rw [hchunk] at hreceive
    exact hcommand.append hreceive
  | accepted => exact hcommand.congr (by simp)
  | rejected => exact hcommand.congr (by simp)

/-- What the bus is to do for an operation. -/
def acts (op : Operation) (f : LoaderFunction board σ) : List Bus.Operation :=
  match op with
  | .control t =>
    if claims t.setup ∧ t.setup.direction = .toDevice then
      deliverActs board f.responder.chunk t.setup t.data
    else []
  | .busReset => []
  | .resetTarget => [.reset]

/-- Reading leaves the bus alone. -/
theorem controlIn_does (setup : Setup) (f : LoaderFunction board σ) :
    Bus.Does [] f.responder.bus (f.controlIn setup).value.2.responder.bus
      (f.controlIn setup).entries := by
  obtain ⟨-, -, hread⟩ := Responder.read_follows setup f.responder
  rw [Responder.step_read, Recorded.value_map, Recorded.entries_map] at hread
  unfold controlIn
  split
  · rcases hr : (f.responder.read setup).value with ⟨_ | bytes, r⟩
    all_goals
      rw [hr] at hread
      simp only [Recorded.value_bind, Recorded.entries_bind, hr]
      exact hread.congr (by simp)
  · exact Bus.Does.nothing _ rfl

theorem controlOut_does (setup : Setup) (data : List UInt8) (f : LoaderFunction board σ) :
    Bus.Does (if claims setup then deliverActs board f.responder.chunk setup data else [])
      f.responder.bus (f.controlOut setup data).value.2.responder.bus
      (f.controlOut setup data).entries := by
  have hdeliver := deliver_does setup data f.responder
  unfold controlOut
  split
  · rcases hr : (deliver setup data f.responder).value with ⟨answer, r⟩
    rw [hr] at hdeliver
    simp only [Recorded.value_bind, Recorded.entries_bind, hr]
    cases answer with
    | accepted => exact hdeliver.congr (by simp)
    | rejected => exact hdeliver.congr (by simp)
    -- The rest of a pending chunk is given up, and that makes no call.
    | pending => exact hdeliver.congr (by simp [Responder.discard, Chunk.calls_discard])
  · exact Bus.Does.nothing _ rfl

theorem step_does (op : Operation) (f : LoaderFunction board σ) :
    Bus.Does (acts op f) f.responder.bus (step op f).value.2.responder.bus (step op f).entries := by
  cases op with
  | control t =>
    rw [step, Recorded.value_map, Recorded.entries_map, acts, control]
    cases t.setup.direction with
    | toHost => simpa using controlIn_does t.setup f
    | toDevice => simpa using controlOut_does t.setup t.data f
  | busReset =>
    refine Bus.Does.nothing _ ?_
    simp [step, busReset, Responder.discard, Chunk.calls_discard]
  | resetTarget =>
    refine (Bus.Does.reset f.responder.bus).congr ?_
    simp [step, resetTarget, Responder.discard, Chunk.calls_discard]

/-- A loader function has one bus, and all its journal is about it. -/
def controller (board : Board) (σ : Type) [Target σ] :
    Bus.Controller (step : Operation → LoaderFunction board σ → _) board σ where
  bus f := f.responder.bus
  acts := acts
  share _ j := j
  does_step := step_does

theorem journal_controller (ops : List Operation) (f : LoaderFunction board σ) :
    (controller board σ).journal ops f = (run step ops f).entries :=
  (entries_run step ops f).symm

end LoaderFunction

end BitstreamUpload
