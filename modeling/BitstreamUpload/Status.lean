import BitstreamUpload.BitOrder

/-!
# Upload status

What the controller knows about the upload since the last reset of the target, and the nine bytes
in which a host reads it.

* `Status.clear` forgets the bytes and the checkpoints of earlier uploads, but not the last level
  of `INIT_B`: the next checkpoint overwrites it.
* `Status.countByte` adds a byte: the checksum wraps, the count stays at its greatest value.
* `Status.checkpoint` adds a code for a sample of `INIT_B`. A reset followed by one start-up, with
  `INIT_B` high at both, gives `200 + 22`.
* `Status.wire` is the record as it is sent. `Status.ofWire` reads it by position and gets back what
  was written (`ofWire_wire`).
-/

namespace BitstreamUpload

/-- State of an upload since the last reset of the target. -/
structure Status where
  /-- Whether no bitstream has been completed. -/
  unconfigured : Bool
  /-- Sum of the bytes, modulo 256. -/
  checksum : UInt8
  /-- Number of bytes, or the greatest value if there were more. -/
  count : UInt32
  /-- Sum of the checkpoint codes, modulo 256. -/
  diagnostic : UInt8
  /-- Level of `INIT_B` at the last checkpoint. -/
  initHigh : Bool
  bitOrder : BitOrder
deriving DecidableEq, Repr

namespace Status

/-- Status before anything happened. -/
def initial (order : BitOrder) : Status where
  unconfigured := true
  checksum := 0
  count := 0
  diagnostic := 0
  initHigh := false
  bitOrder := order

/-- Forgets the upload. The last level of `INIT_B` stays. -/
def clear (s : Status) : Status :=
  { s with unconfigured := true, checksum := 0, count := 0, diagnostic := 0 }

/-- Greatest number of bytes that is told apart. -/
def countLimit : UInt32 := 0xFFFFFFFF

/-- Adds a byte to the checksum and to the count. -/
def countByte (s : Status) (b : UInt8) : Status :=
  { s with
    checksum := s.checksum + b
    count := if s.count = countLimit then countLimit else s.count + 1 }

def confirm (s : Status) : Status :=
  { s with unconfigured := false }

/-! ## Checkpoints -/

/-- A moment at which `INIT_B` tells how the target is doing. -/
inductive Checkpoint where
  /-- After a reset: `INIT_B` rises once the target has cleared its memory. -/
  | reset
  /-- After the start-up clocks: `INIT_B` falls if the configuration failed. -/
  | startUp
deriving DecidableEq, Repr

/-- What a checkpoint adds to the diagnostic. -/
def Checkpoint.code : Checkpoint → Bool → UInt8
  | .reset, true => 200
  | .reset, false => 100
  | .startUp, true => 22
  | .startUp, false => 11

/-- Records the level of `INIT_B` at a checkpoint. -/
def checkpoint (s : Status) (c : Checkpoint) (high : Bool) : Status :=
  { s with initHigh := high, diagnostic := s.diagnostic + c.code high }

/-! ## Wire form -/

def flag (b : Bool) : UInt8 := if b then 1 else 0

abbrev wireSize : Nat := 9

/-- The record that a host reads. The count takes four bytes, the least significant first. -/
def wire (s : Status) : Vector UInt8 wireSize :=
  #v[flag s.unconfigured, s.checksum,
    s.count.toUInt8, (s.count >>> 8).toUInt8, (s.count >>> 16).toUInt8, (s.count >>> 24).toUInt8,
    s.diagnostic, flag s.initHigh, s.bitOrder.code]

/-- Reads a record by position. A flag is set if its byte is not zero. -/
def ofWire (w : Vector UInt8 wireSize) : Status where
  unconfigured := w[0] != 0
  checksum := w[1]
  count := UInt32.ofNat
    (w[2].toNat + 0x100 * w[3].toNat + 0x10000 * w[4].toNat + 0x1000000 * w[5].toNat)
  diagnostic := w[6]
  initHigh := w[7] != 0
  bitOrder := .ofCode w[8]

@[simp] theorem flag_ne_zero (b : Bool) : (flag b != 0) = b := by
  cases b <;> rfl

/-- The four bytes of a count, put together again. -/
theorem ofNat_bytes (n : UInt32) :
    UInt32.ofNat (n.toUInt8.toNat + 0x100 * (n >>> 8).toUInt8.toNat
      + 0x10000 * (n >>> 16).toUInt8.toNat + 0x1000000 * (n >>> 24).toUInt8.toNat) = n := by
  have hn : n.toNat < 2 ^ 32 := n.toNat_lt
  have h8 : (8 : UInt32).toNat % 32 = 8 := rfl
  have h16 : (16 : UInt32).toNat % 32 = 16 := rfl
  have h24 : (24 : UInt32).toNat % 32 = 24 := rfl
  refine UInt32.toNat_inj.mp ?_
  simp only [UInt32.toNat_ofNat', UInt32.toNat_toUInt8, UInt32.toNat_shiftRight,
    Nat.shiftRight_eq_div_pow, h8, h16, h24]
  omega

/-- Reading a record gives back what was written. -/
@[simp] theorem ofWire_wire (s : Status) : ofWire s.wire = s := by
  have hc := ofNat_bytes s.count
  have hu := flag_ne_zero s.unconfigured
  have hi := flag_ne_zero s.initHigh
  have ho := BitOrder.ofCode_code s.bitOrder
  cases s
  exact Status.mk.injEq .. |>.mpr ⟨hu, rfl, hc, rfl, hi, ho⟩

end Status

end BitstreamUpload
