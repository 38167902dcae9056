import BitstreamUpload.Target

/-!
# A target on the bench

A simulated target. It latches the data pins at the first rising clock edge after each write, counts
what happens on the bus, and answers samples of `INIT_B` by a model that can be chosen.
-/

namespace BitstreamUpload

/-- How `INIT_B` behaves. -/
inductive InitModel where
  /-- Low for so many samples after `PROGRAM_B` was low, and while `PROGRAM_B` or `INIT_B` is driven
  low; high otherwise. -/
  | risesAfter (samples : Nat)
  | staysLow
  /-- These levels in turn, then the last one over and over. No levels are low ones. -/
  | script (levels : List Bool)
deriving DecidableEq, Repr

/-- A simulated target. -/
structure Bench where
  init : InitModel
  lines : Lines := .idle
  pins : UInt8 := 0
  /-- Whether the data pins were written since the last rising clock edge. -/
  fresh : Bool := false
  clocks : Nat := 0
  /-- The bytes that were latched, newest first. -/
  latched : List UInt8 := []
  samples : Nat := 0
  /-- How many samples count towards `INIT_B` rising. -/
  polls : Nat := 0
  outputEnabled : Bool := false
deriving DecidableEq, Repr

namespace Bench

/-- Whether `PROGRAM_B` or `INIT_B` is driven low. -/
def isHeld (b : Bench) : Bool :=
  !b.lines.init || !b.lines.program

def initHigh (b : Bench) : Bool :=
  match b.init with
  | .risesAfter n => !b.isHeld && n < b.polls + 1
  | .staysLow => false
  | .script levels => levels.headD false

def setLines (b : Bench) (lines : Lines) : Bench :=
  let b := if lines.program then b else { b with polls := 0 }
  let b :=
    if !b.lines.clock && lines.clock then
      let b := { b with clocks := b.clocks + 1 }
      if b.fresh then { b with latched := b.pins :: b.latched, fresh := false } else b
    else b
  { b with lines }

/-- Counts a sample and moves the model of `INIT_B` on. -/
def countSample (b : Bench) : Bench :=
  let b := { b with samples := b.samples + 1 }
  match b.init with
  | .risesAfter _ => if b.isHeld then b else { b with polls := b.polls + 1 }
  | .script (_ :: level :: levels) => { b with init := .script (level :: levels) }
  | _ => b

def react (b : Bench) : BusCall → Bench
  | .lines levels => b.setLines levels
  | .data pins => { b with pins, fresh := true }
  | .sample _ => b.countSample
  | .enableOutput => { b with outputEnabled := true }
  | .wait _ => b

instance : Target Bench where
  initHigh := initHigh
  react := react

end Bench

end BitstreamUpload
