import BitstreamUpload.Chunk

/-!
# One chunk, several buses

Several buses can be fed through one chunk: an announcement or a batch of bytes is addressed to one
of them, and the chunk remembers what is outstanding across all. The board that a chunk was
announced on decides whether it is the last one; the bus that gets its last byte is started up.
-/

namespace BitstreamUpload

/-- A chunk and the buses it may go to. -/
structure Gang {ι : Type} (boards : ι → Board) (σ : ι → Type) where
  chunk : Chunk
  buses : (i : ι) → Bus (boards i) (σ i)

namespace Gang

variable {ι : Type} [DecidableEq ι] {boards : ι → Board} {σ : ι → Type}

/-- Puts another bus in the place of one. -/
def setBus (i : ι) (bus : Bus (boards i) (σ i)) (g : Gang boards σ) : Gang boards σ :=
  { g with buses := fun j => if h : j = i then h ▸ bus else g.buses j }

@[simp] theorem buses_setBus_self (i : ι) (bus : Bus (boards i) (σ i)) (g : Gang boards σ) :
    (g.setBus i bus).buses i = bus := by
  simp [setBus]

theorem buses_setBus_of_ne {i j : ι} (h : j ≠ i) (bus : Bus (boards i) (σ i))
    (g : Gang boards σ) : (g.setBus i bus).buses j = g.buses j := by
  simp [setBus, h]

/-- An operation on the chunk, addressed to a bus. -/
inductive Operation (ι : Type) where
  | announce (i : ι) (size : UInt16)
  | receive (i : ι) (batch : List UInt8)
  | discard
deriving Repr

/-- What an operation left behind goes back in its place. -/
def put (i : ι) (r : Chunk.Result (boards i) (σ i)) (g : Gang boards σ) :
    Option Outcome × Gang boards σ :=
  (some r.outcome, { g.setBus i r.bus with chunk := r.chunk })

/-- Does an operation. Giving up a chunk has no outcome. -/
def step [∀ i, Target (σ i)] (op : Operation ι) (g : Gang boards σ) :
    Recorded (Option Outcome × Gang boards σ) :=
  match op with
  | .announce i size => (g.put i ·) <$> g.chunk.announce size (g.buses i)
  | .receive i batch => (g.put i ·) <$> g.chunk.receive batch (g.buses i)
  | .discard => (fun chunk => (none, { g with chunk })) <$> g.chunk.discard

end Gang

end BitstreamUpload
