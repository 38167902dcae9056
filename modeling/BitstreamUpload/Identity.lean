/-!
# Identity of a device

A fixed record of forty bytes tells a host what it talks to. `Identity.wire` lays it out,
`Identity.ofWire` reads it by position and gets back what was written (`ofWire_wire`):

| Offset | Size | Field |
|--------|------|-------|
| 0      | 1    | size of the record, always 40 |
| 1      | 1    | version of the layout |
| 2      | 4    | vendor tag |
| 6      | 4    | product |
| 10     | 1    | firmware version |
| 11     | 1    | version of the vendor requests |
| 12     | 6    | capabilities |
| 18     | 12   | reserved |
| 30     | 10   | serial number |
-/

namespace BitstreamUpload

/-- What a device tells about itself. -/
structure Identity where
  version : UInt8
  /-- Vendor tag, usually four ASCII characters. -/
  vendorTag : Vector UInt8 4
  product : Vector UInt8 4
  firmwareVersion : UInt8
  /-- Version of the vendor requests. -/
  requestVersion : UInt8
  capabilities : Vector UInt8 6
  /-- Left to the board, sent as it is. -/
  reserved : Vector UInt8 12
  serial : Vector UInt8 10
deriving DecidableEq, Repr

namespace Identity

/-- Capability bit of the first byte: the device can configure a target. -/
def configures : UInt8 := 0x02

/-- Identity of a device that can configure a target, with first versions throughout. -/
def basic (vendorTag product : Vector UInt8 4) (serial : Vector UInt8 10) : Identity where
  version := 1
  vendorTag
  product
  firmwareVersion := 0
  requestVersion := 1
  capabilities := #v[configures, 0, 0, 0, 0, 0]
  reserved := .replicate 12 0
  serial

/-! ## Wire form -/

abbrev wireSize : Nat := 40

/-- The record that a host reads. -/
def wire (i : Identity) : Vector UInt8 wireSize :=
  #v[UInt8.ofNat wireSize, i.version] ++ i.vendorTag ++ i.product
    ++ #v[i.firmwareVersion, i.requestVersion] ++ i.capabilities ++ i.reserved ++ i.serial

/-- The `n` bytes of a record from `offset` on. -/
def field (w : Vector UInt8 wireSize) (offset n : Nat) (h : offset + n ≤ wireSize := by decide) :
    Vector UInt8 n :=
  .ofFn fun i => w[offset + i]

/-- Reads a record by position. -/
def ofWire (w : Vector UInt8 wireSize) : Identity where
  version := w[1]
  vendorTag := field w 2 4
  product := field w 6 4
  firmwareVersion := w[10]
  requestVersion := w[11]
  capabilities := field w 12 6
  reserved := field w 18 12
  serial := field w 30 10

/-- The fields follow each other in the order of the table. -/
theorem toList_wire (i : Identity) :
    i.wire.toList = [UInt8.ofNat wireSize, i.version] ++ i.vendorTag.toList ++ i.product.toList
      ++ [i.firmwareVersion, i.requestVersion] ++ i.capabilities.toList ++ i.reserved.toList
      ++ i.serial.toList := by
  unfold wire
  repeat rw [Vector.toList_append]
  rfl

theorem toList_field (w : Vector UInt8 wireSize) (offset n : Nat) (h : offset + n ≤ wireSize) :
    (field w offset n h).toList = (w.toList.drop offset).take n := by
  refine List.ext_getElem ?_ ?_
  · simp
    omega
  · intro i h1 h2
    simp [field]

theorem getElem_of_toList {w : Vector UInt8 wireSize} {k : Nat} {b : UInt8} (hk : k < wireSize)
    (h : w.toList[k]? = some b) : w[k] = b := by
  simpa [hk] using h

theorem field_of_toList {w : Vector UInt8 wireSize} {offset n : Nat} {v : Vector UInt8 n}
    (hn : offset + n ≤ wireSize) (h : (w.toList.drop offset).take n = v.toList) :
    field w offset n hn = v := by
  rw [← Vector.toList_inj, toList_field, h]

theorem drop_toList {n m : Nat} (v : Vector UInt8 n) (h : n ≤ m) : v.toList.drop m = [] :=
  List.drop_eq_nil_of_le (by simpa using h)

theorem take_toList {n : Nat} (v : Vector UInt8 n) : v.toList.take n = v.toList :=
  List.take_of_length_le (by simp)

/-- Reading a record gives back what was written. -/
@[simp] theorem ofWire_wire (i : Identity) : ofWire i.wire = i := by
  have h := toList_wire i
  obtain ⟨v, t, p, f, r, c, s, n⟩ := i
  simp only [ofWire, Identity.mk.injEq]
  refine ⟨getElem_of_toList _ ?_, field_of_toList _ ?_, field_of_toList _ ?_,
    getElem_of_toList _ ?_, getElem_of_toList _ ?_, field_of_toList _ ?_, field_of_toList _ ?_,
    field_of_toList _ ?_⟩
  · simp [h]
  · simp [h]
  · simp [h]
  · simp [h]
  · simp [h]
  · simp [h, List.drop_append, drop_toList]
  · simp [h, List.drop_append, drop_toList]
  · simp [h, List.drop_append, drop_toList, take_toList]

end Identity

end BitstreamUpload
