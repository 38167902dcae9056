import BitstreamUpload.Hex
import BitstreamUpload.Outcome

/-!
# Notes

What the controller tells its log. A note is a fact with its numbers; `Note.level` says how serious
it is and `Note.text` words it.
-/

namespace BitstreamUpload

/-- A line for the log. -/
inductive Note where
  /-- A reset ended with `INIT_B` high at the last of so many samples. -/
  | resetHigh (samples : Nat)
  /-- A reset ended with `INIT_B` low at all of so many samples. -/
  | resetLow (samples : Nat)
  /-- The start-up clocks ended, and this is the status after them. -/
  | finished (count : UInt32) (checksum diagnostic : UInt8)
  | announced (size : UInt16) (isLast : Bool)
  /-- A chunk was announced while bytes of another are outstanding. -/
  | announcedEarly (size outstanding : UInt16)
  /-- So many bytes of a batch are past the end of the chunk. -/
  | excess (count : Nat)
  | discarded (outstanding : UInt16)
  | refused (cause : Refusal)
  | uploaded
  | readRejected (code : UInt8) (length : UInt16)
  | commandRejected (code : UInt8)
  /-- A data stage ended before its chunk did. -/
  | shortData (missing length : UInt16)
  /-- The bus was reset while bytes of a chunk are outstanding. -/
  | resetMidChunk
deriving DecidableEq, Repr

/-- How serious a note is. -/
inductive Level where
  | debug
  | info
  | warn
deriving DecidableEq, Repr

namespace Note

def level : Note → Level
  | resetHigh _ | announced _ _ | discarded _ | uploaded => .debug
  | finished _ _ _ => .info
  | resetLow _ | announcedEarly _ _ | excess _ | refused _ | readRejected _ _ | commandRejected _
  | shortData _ _ | resetMidChunk => .warn

def truth (b : Bool) : String :=
  if b then "true" else "false"

def text : Note → String
  | resetHigh n => s!"fpga reset, INIT_B high after {n} polls"
  | resetLow n => s!"fpga reset, INIT_B still low after {n} polls"
  | finished n sum diagnostic =>
    s!"bitstream finished: {n.toNat} bytes, checksum 0x{Hex.byte sum}, "
      ++ s!"diagnostic {diagnostic.toNat}"
  | announced size isLast => s!"chunk of {size.toNat} bytes, final: {truth isLast}"
  | announcedEarly size outstanding =>
    s!"chunk of {size.toNat} bytes announced with {outstanding.toNat} bytes outstanding"
  | excess n => s!"dropping {n} bytes past the end of chunk"
  | discarded outstanding => s!"discarding chunk with {outstanding.toNat} bytes outstanding"
  | refused cause => s!"chunk refused: {cause.word}"
  | uploaded => "bitstream upload complete"
  | readRejected code length =>
    s!"rejecting vendor IN request 0x{Hex.byte code}, length {length.toNat}"
  | commandRejected code => s!"rejecting vendor OUT request 0x{Hex.byte code}"
  | shortData missing length =>
    s!"short data stage, {missing.toNat} of {length.toNat} bytes missing"
  | resetMidChunk => "USB reset during chunk transfer"

end Note

end BitstreamUpload
