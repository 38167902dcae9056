import BitstreamUpload.Responder
import BitstreamUpload.Proofs.Chunk.Plan

/-!
# What a responder has its bus do

The plan of an operation of a responder: the answer, the chunk that is left, and what the bus is to
do. It depends on the chunk and on the board, and on nothing else that the responder holds, so the
target has no part in it. `step_follows` says that each operation follows its plan.
-/

namespace BitstreamUpload

open Journal

/-- The answer that tells what came of a chunk operation. -/
def Answer.of (outcome : Outcome) : Answer :=
  match outcome with
  | .ok p => if p.isComplete then accepted else pending
  | .error _ => rejected

@[simp] theorem Answer.value_ofOutcome (outcome : Outcome) :
    (ofOutcome outcome).value = of outcome := by
  cases outcome <;> rfl

@[simp] theorem Answer.calls_ofOutcome (outcome : Outcome) :
    calls (ofOutcome outcome).entries = [] := by
  cases outcome <;> rfl

namespace Responder

/-- An operation of a responder without its bus. -/
structure Plan where
  /-- The answer, if the operation is one that is answered so. -/
  answer : Option Answer
  /-- The chunk behind it. -/
  chunk : Chunk
  /-- What the bus is to do. -/
  acts : List Bus.Operation
deriving Repr

/-- The plan of a responder for an operation on its chunk. -/
def Plan.ofChunk (plan : Chunk.Plan) : Plan :=
  ⟨some (.of plan.outcome), plan.chunk, plan.acts⟩

/-- The plan for a command. Anything that is no command for this direction is rejected. -/
def commandPlan (board : Board) (chunk : Chunk) : Option Command → Plan
  | some .reset => ⟨some .accepted, { chunk with outstanding := 0 }, [.reset]⟩
  | some (.chunk size) => .ofChunk (chunk.announcePlan board size)
  | _ => ⟨some .rejected, chunk, []⟩

/-- The plan for an operation. -/
def plan (board : Board) (chunk : Chunk) : Operation → Plan
  | .read _ => ⟨none, chunk, []⟩
  | .command setup => commandPlan board chunk setup.command?
  | .receive batch => .ofChunk (chunk.receivePlan batch)
  | .discard => ⟨none, { chunk with outstanding := 0 }, []⟩

theorem answer_completePlan (chunk : Chunk) : Answer.of chunk.completePlan.outcome = .accepted := by
  unfold Chunk.completePlan
  split <;> rfl

/-- A command is always answered. -/
theorem answer_commandPlan (board : Board) (chunk : Chunk) (command : Option Command) :
    ∃ a, (commandPlan board chunk command).answer = some a := by
  unfold commandPlan
  split <;> exact ⟨_, rfl⟩

variable {board : Board} {σ : Type} [Target σ]

/-- A step does what the plan says, and nothing else to chunk and bus. -/
structure Follows (plan : Plan) (bus : Bus board σ) (r : Recorded (Response × Responder board σ)) :
    Prop where
  answer : ∀ a, plan.answer = some a → r.value.1 = .answer a
  chunk : r.value.2.chunk = plan.chunk
  does : Bus.Does plan.acts bus r.value.2.bus r.entries

theorem step_read (setup : Setup) (r : Responder board σ) :
    step (.read setup) r = (fun x => (.reply x.1, x.2)) <$> r.read setup := rfl

theorem step_command (setup : Setup) (r : Responder board σ) :
    step (.command setup) r = (fun x => (.answer x.1, x.2)) <$> r.command setup := rfl

theorem step_receive (batch : List UInt8) (r : Responder board σ) :
    step (.receive batch) r = (fun x => (.answer x.1, x.2)) <$> r.receive batch := rfl

theorem read_follows (setup : Setup) (r : Responder board σ) :
    Follows ⟨none, r.chunk, []⟩ r.bus (step (.read setup) r) := by
  have hread : (r.read setup).value.2.chunk = r.chunk ∧ (r.read setup).value.2.bus = r.bus
      ∧ calls (r.read setup).entries = [] := by
    unfold read
    split <;> exact ⟨rfl, rfl, rfl⟩
  obtain ⟨hchunk, hbus, hcalls⟩ := hread
  refine ⟨nofun, hchunk, hbus, ?_⟩
  rw [step, Recorded.entries_map, hcalls]
  rfl

theorem command_follows (setup : Setup) (r : Responder board σ) :
    Follows (commandPlan board r.chunk setup.command?) r.bus (step (.command setup) r) := by
  rw [step_command]
  have hrejected (cause : Note) :
      Follows ⟨some .rejected, r.chunk, []⟩ r.bus ((fun x => (Response.answer x.1, x.2)) <$>
        (do Recorded.note cause; return (Answer.rejected, r))) :=
    ⟨fun a ha => by cases ha; rfl, rfl, Bus.Does.nothing r.bus rfl⟩
  unfold command
  cases setup.command? with
  | none => exact hrejected _
  | some command =>
    cases command with
    | identity => exact hrejected _
    | status => exact hrejected _
    | reset =>
      refine ⟨fun a ha => by cases ha; rfl, rfl, ?_⟩
      refine (Bus.Does.reset r.bus).congr ?_
      simp [discard, Chunk.calls_discard]
    | chunk size =>
      obtain ⟨ho, hc, hd⟩ := Chunk.announce_follows size r.chunk r.bus
      refine ⟨fun a ha => ?_, hc, hd.congr ?_⟩
      · cases ha
        simp [ho]
      · simp

theorem answer_command (setup : Setup) (r : Responder board σ) :
    (commandPlan board r.chunk setup.command?).answer = some (r.command setup).value.1 := by
  obtain ⟨a, ha⟩ := answer_commandPlan board r.chunk setup.command?
  have hstep : Response.answer (r.command setup).value.1 = .answer a :=
    (command_follows setup r).answer a ha
  rw [ha, Response.answer.inj hstep]

theorem receive_follows (batch : List UInt8) (r : Responder board σ) :
    Follows (.ofChunk (r.chunk.receivePlan batch)) r.bus (step (.receive batch) r) := by
  obtain ⟨ho, hc, hd⟩ := Chunk.receive_follows batch r.chunk r.bus
  refine ⟨fun a ha => ?_, hc, hd.congr ?_⟩
  · cases ha
    simp [step, receive, ho]
  · simp only [step, receive, Recorded.entries_map, Recorded.entries_bind,
      Recorded.entries_exclusively, Recorded.entries_noteWhen, calls_append, calls_exclusively,
      calls_noteIf, Answer.calls_ofOutcome, Recorded.entries_pure, List.append_nil]

/-- Every operation follows its plan. -/
theorem step_follows (op : Operation) (r : Responder board σ) :
    Follows (plan board r.chunk op) r.bus (step op r) := by
  cases op with
  | read setup => exact read_follows setup r
  | command setup => exact command_follows setup r
  | receive batch => exact receive_follows batch r
  | discard =>
    refine ⟨nofun, rfl, Bus.Does.nothing r.bus ?_⟩
    simp [step, discard, Chunk.calls_discard]

end Responder

end BitstreamUpload
