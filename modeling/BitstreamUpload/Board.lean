import BitstreamUpload.BitOrder

/-!
# Boards

What is fixed when a board is built: how large a chunk its host sends, how long a reset may take,
how many clocks a start-up needs, and how the data pins are wired.
-/

namespace BitstreamUpload

/-- The fixed facts of a board. -/
structure Board where
  /-- Size of every chunk of a bitstream but the last. A chunk of any other size is the last one. -/
  chunkSize : UInt16 := 128
  /-- How often `INIT_B` is sampled at most after a reset. -/
  pollLimit : Nat := 65535
  /-- Clock pulses after the last byte that let the target start up. -/
  startupClocks : Nat := 20000
  /-- Microseconds for which `INIT_B` is held low during a reset. -/
  pulseMicros : Nat := 10000
  /-- How the data pins are wired. -/
  bitOrder : BitOrder := .straight
deriving DecidableEq, Repr

end BitstreamUpload
