/-!
# Control lines of the configuration bus

Four levels describe the control side of the bus: `PROGRAM_B`, `INIT_B` as the controller drives
it, the clock `CCLK`, and the group of `CSI_B` and `RDWR_B`, which are low together while the
interface is selected. A level is `true` when the line is electrically high; for the group, `true`
means selected.

`Lines.pattern` packs the levels into one byte of pins.
-/

namespace BitstreamUpload

/-- Levels of the control lines. -/
structure Lines where
  program : Bool
  /-- Level of `INIT_B` as driven; `true` leaves the line to the target. -/
  init : Bool
  clock : Bool
  /-- Whether `CSI_B` and `RDWR_B` are low. -/
  selected : Bool
deriving DecidableEq, Repr

namespace Lines

/-- Lines at rest: nothing asserted, clock low, interface not selected. -/
def idle : Lines where
  program := true
  init := true
  clock := false
  selected := false

/-! ## Pin pattern -/

def initPin : UInt8 := 0x01

def programPin : UInt8 := 0x02

/-- Pin of `RDWR_B`. -/
def writePin : UInt8 := 0x08

/-- Pin of the mode strap, high for slave-parallel configuration. -/
def modePin : UInt8 := 0x20

def clockPin : UInt8 := 0x40

/-- Pin of `CSI_B`. -/
def selectPin : UInt8 := 0x80

/-- The pins `mask` if `level` is high, none otherwise. -/
def pins (level : Bool) (mask : UInt8) : UInt8 :=
  if level then mask else 0

/-- The levels as one byte of pins. The mode strap is always high. -/
def pattern (l : Lines) : UInt8 :=
  modePin ||| pins l.init initPin ||| pins l.program programPin ||| pins l.clock clockPin
    ||| pins (!l.selected) (selectPin ||| writePin)

/-- No two settings of the lines look alike on the pins. -/
theorem pattern_injective {l l' : Lines} (h : l.pattern = l'.pattern) : l = l' := by
  obtain ⟨p, i, c, s⟩ := l
  obtain ⟨p', i', c', s'⟩ := l'
  revert h
  revert p i c s p' i' c' s'
  decide

end Lines

end BitstreamUpload
