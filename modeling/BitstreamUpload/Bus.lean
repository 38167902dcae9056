import BitstreamUpload.Board
import BitstreamUpload.Recorded
import BitstreamUpload.Status
import BitstreamUpload.Target

/-!
# The driven configuration bus

A `Bus` is the near end of the configuration bus of a board: the target behind it, the levels it
drives on the control lines, and the status it keeps of every byte it sends.

* `Bus.reset` prepares the target for a bitstream. It holds `INIT_B` low while `PROGRAM_B` is
  pulsed, lets go of it and waits for the target to let it rise, for as many samples as the board
  allows. A target that stays low shows in the status, and is no error.
* `Bus.send` puts a byte on the data pins and pulses the clock.
* `Bus.startUp` runs the start-up clocks after the last byte.
-/

namespace BitstreamUpload

/-- The driven side of a board's configuration bus. -/
structure Bus (board : Board) (σ : Type) where
  /-- What hangs on the bus. -/
  target : σ
  /-- Levels last driven on the control lines. -/
  lines : Lines
  /-- What is known of the upload. -/
  status : Status
deriving Repr

namespace Bus

variable {board : Board} {σ : Type} [Target σ]

/-! ## Calls -/

/-- Makes a call. -/
def issue (call : BusCall) (bus : Bus board σ) : Recorded (Bus board σ) :=
  ⟨{ bus with target := Target.react bus.target call }, [.call call]⟩

/-- Drives the control lines. -/
def drive (lines : Lines) (bus : Bus board σ) : Recorded (Bus board σ) :=
  issue (.lines lines) { bus with lines }

/-- Samples `INIT_B`. -/
def sample (bus : Bus board σ) : Recorded (Bool × Bus board σ) := do
  let high := Target.initHigh bus.target
  let bus ← bus.issue (.sample high)
  return (high, bus)

/-- Takes over a target and drives the lines to their levels at rest. -/
def connect (target : σ) : Recorded (Bus board σ) :=
  drive .idle { target, lines := .idle, status := .initial board.bitOrder }

/-- One clock pulse. -/
def pulse (bus : Bus board σ) : Recorded (Bus board σ) := do
  let bus ← bus.drive { bus.lines with clock := true }
  bus.drive { bus.lines with clock := false }

/-! ## Bytes -/

/-- Clocks one byte into the target. -/
def send (byte : UInt8) (bus : Bus board σ) : Recorded (Bus board σ) := do
  let bus ← bus.issue (.data (board.bitOrder.apply byte))
  let bus ← bus.pulse
  return { bus with status := bus.status.countByte byte }

/-- Clocks bytes into the target, in order. -/
def sendAll (bytes : List UInt8) (bus : Bus board σ) : Recorded (Bus board σ) :=
  Recorded.foldl (fun bus byte => bus.send byte) bus bytes

/-! ## Reset and start-up -/

/-- Pulses `PROGRAM_B` and holds `INIT_B` low meanwhile, then lets go of it and selects the
interface. -/
def pulseProgram (bus : Bus board σ) : Recorded (Bus board σ) := do
  let bus ← bus.drive { bus.lines with selected := false, clock := false, program := false }
  let bus ← bus.drive { bus.lines with init := false }
  let bus ← bus.drive { bus.lines with program := true }
  let bus ← bus.issue (.wait board.pulseMicros)
  bus.drive { bus.lines with init := true, selected := true }

/-- Samples `INIT_B` until it is high, as often as the board allows. -/
def awaitInit (bus : Bus board σ) : Recorded (Recorded.Search (Bus board σ)) :=
  Recorded.search sample board.pollLimit bus

/-- Resets the target. Earlier bytes and checkpoints are forgotten. -/
def reset (bus : Bus board σ) : Recorded (Bus board σ) := do
  let bus ← bus.pulseProgram
  let ⟨high, samples, bus⟩ ← bus.awaitInit
  let bus := { bus with status := bus.status.clear.checkpoint .reset high }
  let bus ← bus.issue .enableOutput
  Recorded.note (if high then .resetHigh samples else .resetLow samples)
  return bus

/-- Runs the start-up clocks and deselects the interface. -/
def startUp (bus : Bus board σ) : Recorded (Bus board σ) := do
  let bus ← Recorded.iterate pulse board.startupClocks bus
  let (high, bus) ← bus.sample
  let bus := { bus with status := bus.status.checkpoint .startUp high }
  let bus ← bus.drive { bus.lines with selected := false }
  Recorded.note (.finished bus.status.count bus.status.checksum bus.status.diagnostic)
  return bus

/-- Takes down that a bitstream is complete. -/
def confirm (bus : Bus board σ) : Bus board σ :=
  { bus with status := bus.status.confirm }

/-! ## Operations -/

/-- Something to do on a bus. -/
inductive Operation where
  | reset
  | send (byte : UInt8)
  | startUp
  | confirm
deriving DecidableEq, Repr

/-- Does an operation. It answers nothing. -/
def step (op : Operation) (bus : Bus board σ) : Recorded (Unit × Bus board σ) :=
  match op with
  | .reset => ((), ·) <$> bus.reset
  | .send byte => ((), ·) <$> bus.send byte
  | .startUp => ((), ·) <$> bus.startUp
  | .confirm => pure ((), bus.confirm)

end Bus

end BitstreamUpload
