import BitstreamUpload.Setup

/-!
# Control transfers
-/

namespace BitstreamUpload

/-- A control transfer as the host makes it. -/
structure Transfer where
  setup : Setup
  /-- What the host sends, nothing if the data goes to it. -/
  data : List UInt8 := []
deriving DecidableEq, Repr

namespace Transfer

/-- The greatest length that a setup packet can announce. -/
def maxLength : Nat := 0xFFFF

/-- A transfer whose setup packet announces the data it comes with, or as much of it as a setup
packet can announce. -/
def ofData (setup : Setup) (data : List UInt8) : Transfer where
  setup := { setup with length := UInt16.ofNat (min data.length maxLength) }
  data

/-- Whether the host sends exactly as many bytes as the setup packet says. -/
def IsWhole (t : Transfer) : Prop :=
  t.setup.direction = .toDevice → t.data.length = t.setup.length.toNat

instance (t : Transfer) : Decidable t.IsWhole :=
  inferInstanceAs (Decidable (_ → _))

theorem isWhole_ofData (setup : Setup) {data : List UInt8} (h : data.length ≤ maxLength) :
    (ofData setup data).IsWhole := by
  intro _
  have hlt : data.length < 2 ^ 16 := Nat.lt_succ_of_le h
  show data.length = (UInt16.ofNat (min data.length maxLength)).toNat
  rw [Nat.min_eq_left h, UInt16.toNat_ofNat', Nat.mod_eq_of_lt hlt]

end Transfer

end BitstreamUpload
