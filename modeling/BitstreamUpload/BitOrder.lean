/-!
# Bit order of the data bus

A board wires the eight data pins either straight or in reverse. Nothing else of a byte depends on
the board.
-/

namespace BitstreamUpload

/-- How the bits of a byte reach the data pins. -/
inductive BitOrder where
  /-- Bit 7 of the byte is driven on pin 7. -/
  | straight
  /-- Bit 7 of the byte is driven on pin 0. -/
  | reversed
deriving DecidableEq, Repr

namespace BitOrder

/-- What is driven on the pins for a byte. -/
def apply : BitOrder → UInt8 → UInt8
  | straight, b => b
  | reversed, b => UInt8.ofBitVec b.toBitVec.reverse

/-- The number that stands for the order in a status record. -/
def code : BitOrder → UInt8
  | straight => 0
  | reversed => 1

/-- The order that a number stands for. Every number but zero means reversed pins. -/
def ofCode (c : UInt8) : BitOrder :=
  if c = 0 then straight else reversed

@[simp] theorem ofCode_code (o : BitOrder) : ofCode o.code = o := by
  cases o <;> rfl

/-- The pins undo what the board's order did, whichever order that is. -/
@[simp] theorem apply_apply (o : BitOrder) (b : UInt8) : o.apply (o.apply b) = b := by
  cases o with
  | straight => rfl
  | reversed => simp [apply, BitVec.reverse_reverse_eq]

end BitOrder

end BitstreamUpload
