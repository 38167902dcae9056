import BitstreamUpload.Proofs.Bus.Calls

/-!
# Systems that work a bus

Everything else in this library reaches the bus through its operations: a chunk, a responder, the
function on a device. `Bus.Does` says which operations were done between two states of a bus, and a
`Bus.Controller` is a system that can tell them of each of its own operations. A run of the system
is then a run of the bus (`Controller.does_run`), so what holds of every run of a bus holds of every
run of the system.
-/

namespace BitstreamUpload

open Journal

namespace Bus

variable {board : Board} {σ : Type} [Target σ]

/-- From `bus` to `bus'` these operations were done and no others, and `j` has their calls. Notes
and the marks of exclusive sections are left open. -/
structure Does (acts : List Operation) (bus bus' : Bus board σ) (j : Journal) : Prop where
  bus_eq : bus' = (run step acts bus).value
  calls_eq : j.calls = (run step acts bus).entries.calls

namespace Does

variable {acts acts' : List Operation} {bus bus' bus'' : Bus board σ} {j j' : Journal}

/-- Nothing was done if no call was made. -/
theorem nothing (bus : Bus board σ) (h : j.calls = []) : Does [] bus bus j :=
  ⟨rfl, h⟩

theorem append (h : Does acts bus bus' j) (h' : Does acts' bus' bus'' j') :
    Does (acts ++ acts') bus bus'' (j ++ j') where
  bus_eq := by
    rw [run_append, Recorded.value_bind, ← h.bus_eq]
    exact h'.bus_eq
  calls_eq := by
    rw [run_append, Recorded.entries_bind, ← h.bus_eq, calls_append, calls_append, h.calls_eq,
      h'.calls_eq]

/-- The journal may be another one with the same calls. -/
theorem congr (h : Does acts bus bus' j) (hj : j'.calls = j.calls) : Does acts bus bus' j' :=
  ⟨h.bus_eq, hj.trans h.calls_eq⟩

theorem reset (bus : Bus board σ) :
    Does [.reset] bus bus.reset.value bus.reset.entries := by
  constructor
  · rfl
  · simp [step]

theorem startUp (bus : Bus board σ) :
    Does [.startUp, .confirm] bus bus.startUp.value.confirm bus.startUp.entries := by
  constructor
  · rfl
  · simp [step]

theorem sendAll (bytes : List UInt8) (bus : Bus board σ) :
    Does (bytes.map .send) bus (bus.sendAll bytes).value (bus.sendAll bytes).entries := by
  induction bytes generalizing bus with
  | nil => exact nothing bus rfl
  | cons byte bytes ih =>
    have hone : Does [.send byte] bus (bus.send byte).value (bus.send byte).entries := by
      constructor
      · rfl
      · simp [step]
    rw [Bus.sendAll, Recorded.foldl_cons]
    exact hone.append (ih (bus.send byte).value)

end Does

/-- A system that works a bus by the operations of the bus. -/
structure Controller {ω α τ : Type} (sys : ω → τ → Recorded (α × τ)) (board : Board) (σ : Type)
    [Target σ] where
  bus : τ → Bus board σ
  /-- What an operation of the system has the bus do. -/
  acts : ω → τ → List Operation
  /-- The part of the journal of an operation that is about this bus. -/
  share : ω → Journal → Journal
  does_step : ∀ op s,
    Does (acts op s) (bus s) (bus (sys op s).value.2) (share op (sys op s).entries)

namespace Controller

variable {ω α τ : Type} {sys : ω → τ → Recorded (α × τ)} (c : Controller sys board σ)

/-- What a run of the system has the bus do. -/
def history : List ω → τ → List Operation
  | [], _ => []
  | op :: ops, s => c.acts op s ++ history ops (sys op s).value.2

theorem history_append (ops ops' : List ω) (s : τ) :
    c.history (ops ++ ops') s = c.history ops s ++ c.history ops' (run sys ops s).value := by
  induction ops generalizing s with
  | nil => rfl
  | cons op ops ih =>
    rw [List.cons_append, history, history, ih, List.append_assoc, run_cons, Recorded.value_bind]

theorem history_concat (ops : List ω) (op : ω) (s : τ) :
    c.history (ops ++ [op]) s = c.history ops s ++ c.acts op (run sys ops s).value := by
  rw [history_append]
  exact congrArg _ (List.append_nil _)

/-- The part of the journal of a run that is about this bus. -/
def journal (ops : List ω) (s : τ) : Journal :=
  (turns sys ops s).flatMap fun t => c.share t.operation t.entries

theorem does_run (ops : List ω) (s : τ) :
    Does (c.history ops s) (c.bus s) (c.bus (run sys ops s).value) (c.journal ops s) := by
  induction ops generalizing s with
  | nil => exact Does.nothing _ rfl
  | cons op ops ih =>
    rw [run_cons, Recorded.value_bind]
    exact (c.does_step op s).append (ih (sys op s).value.2)

end Controller

end Bus

end BitstreamUpload
