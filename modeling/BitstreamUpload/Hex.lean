/-!
# Hexadecimal bytes

A byte is written as two lower-case digits, the high one first.
-/

namespace BitstreamUpload.Hex

/-- The digit of a value below sixteen. -/
def digit (n : Nat) : Char :=
  if n < 10 then Char.ofNat (0x30 + n) else Char.ofNat (0x61 + n - 10)

/-- The two digits of a byte. -/
def digits (b : UInt8) : List Char :=
  [digit (b.toNat / 16), digit (b.toNat % 16)]

/-- The text of a byte. -/
def byte (b : UInt8) : String :=
  String.ofList (digits b)

end BitstreamUpload.Hex
