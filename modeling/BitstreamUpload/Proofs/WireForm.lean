import BitstreamUpload.Identity
import BitstreamUpload.Status
import Mathlib.Logic.Function.Basic

/-!
# The records that a host reads

A host reads a record by position. `Status.LaidOut` and `Identity.LaidOut` are the tables of the
positions: what stands where in a record of nine bytes and in one of forty. The wire form is laid
out as its table says, and no other record is (`Status.laidOut_iff`, `Identity.laidOut_iff`): every
byte has its place in the table, and no two fields share one. So nothing is lost on the way
(`wire_lossless`).
-/

namespace BitstreamUpload

/-! ## Status -/

namespace Status

/-- What stands where in the record of a status. -/
structure LaidOut (s : Status) (w : Vector UInt8 wireSize) : Prop where
  unconfigured : w[0] = if s.unconfigured then 1 else 0
  checksum : w[1] = s.checksum
  /-- The least significant byte comes first. -/
  count : w[2].toNat + 0x100 * w[3].toNat + 0x10000 * w[4].toNat + 0x1000000 * w[5].toNat
    = s.count.toNat
  diagnostic : w[6] = s.diagnostic
  initHigh : w[7] = if s.initHigh then 1 else 0
  bitOrder : w[8] = if s.bitOrder = .straight then 0 else 1

variable {s : Status} {w w' : Vector UInt8 wireSize}

theorem laidOut_wire (s : Status) : s.LaidOut s.wire where
  unconfigured := rfl
  checksum := rfl
  count := by
    have hbytes := congrArg UInt32.toNat (ofNat_bytes s.count)
    rw [UInt32.toNat_ofNat'] at hbytes
    have h2 : s.count.toUInt8.toNat < 256 := UInt8.toNat_lt _
    have h3 : (s.count >>> 8).toUInt8.toNat < 256 := UInt8.toNat_lt _
    have h4 : (s.count >>> 16).toUInt8.toNat < 256 := UInt8.toNat_lt _
    have h5 : (s.count >>> 24).toUInt8.toNat < 256 := UInt8.toNat_lt _
    show s.count.toUInt8.toNat + 0x100 * (s.count >>> 8).toUInt8.toNat
      + 0x10000 * (s.count >>> 16).toUInt8.toNat + 0x1000000 * (s.count >>> 24).toUInt8.toNat = _
    omega
  diagnostic := rfl
  initHigh := rfl
  bitOrder := by
    show s.bitOrder.code = _
    cases s.bitOrder <;> rfl

/-- Four bytes are told by the number that they make. -/
theorem bytes_inj {a b c d a' b' c' d' : UInt8}
    (h : a.toNat + 0x100 * b.toNat + 0x10000 * c.toNat + 0x1000000 * d.toNat
      = a'.toNat + 0x100 * b'.toNat + 0x10000 * c'.toNat + 0x1000000 * d'.toNat) :
    a = a' ∧ b = b' ∧ c = c' ∧ d = d' := by
  have ha := a.toNat_lt
  have hb := b.toNat_lt
  have hc := c.toNat_lt
  have ha' := a'.toNat_lt
  have hb' := b'.toNat_lt
  have hc' := c'.toNat_lt
  simp only [← UInt8.toNat_inj]
  omega

/-- The table leaves no byte of a record open. -/
theorem LaidOut.unique (h : s.LaidOut w) (h' : s.LaidOut w') : w = w' := by
  obtain ⟨h2, h3, h4, h5⟩ := bytes_inj (h.count.trans h'.count.symm)
  refine Vector.ext fun i hi => ?_
  match i with
  | 0 => exact h.unconfigured.trans h'.unconfigured.symm
  | 1 => exact h.checksum.trans h'.checksum.symm
  | 2 => exact h2
  | 3 => exact h3
  | 4 => exact h4
  | 5 => exact h5
  | 6 => exact h.diagnostic.trans h'.diagnostic.symm
  | 7 => exact h.initHigh.trans h'.initHigh.symm
  | 8 => exact h.bitOrder.trans h'.bitOrder.symm

theorem laidOut_iff : s.LaidOut w ↔ w = s.wire :=
  ⟨fun h => h.unique s.laidOut_wire, fun h => h ▸ s.laidOut_wire⟩

end Status

/-! ## Identity -/

namespace Identity

/-- What stands where in the record of an identity. -/
structure LaidOut (i : Identity) (w : Vector UInt8 wireSize) : Prop where
  size : w[0] = 40
  version : w[1] = i.version
  vendorTag : field w 2 4 = i.vendorTag
  product : field w 6 4 = i.product
  firmwareVersion : w[10] = i.firmwareVersion
  requestVersion : w[11] = i.requestVersion
  capabilities : field w 12 6 = i.capabilities
  reserved : field w 18 12 = i.reserved
  serial : field w 30 10 = i.serial

variable {i : Identity} {w : Vector UInt8 wireSize}

theorem laidOut_wire (i : Identity) : i.LaidOut i.wire := by
  have h := ofWire_wire i
  exact {
    size := getElem_of_toList (by decide) (by rw [toList_wire]; rfl)
    version := congrArg Identity.version h
    vendorTag := congrArg Identity.vendorTag h
    product := congrArg Identity.product h
    firmwareVersion := congrArg Identity.firmwareVersion h
    requestVersion := congrArg Identity.requestVersion h
    capabilities := congrArg Identity.capabilities h
    reserved := congrArg Identity.reserved h
    serial := congrArg Identity.serial h }

/-- The table of a record has the fields that are read from it. -/
theorem LaidOut.ofWire_eq (h : i.LaidOut w) : ofWire w = i := by
  obtain ⟨v, t, p, f, r, c, s, n⟩ := i
  exact Identity.mk.injEq .. |>.mpr ⟨h.version, h.vendorTag, h.product, h.firmwareVersion,
    h.requestVersion, h.capabilities, h.reserved, h.serial⟩

theorem toList_pair (w : Vector UInt8 wireSize) (offset : Nat) (h : offset + 1 < wireSize) :
    [w[offset], w[offset + 1]] = (w.toList.drop offset).take 2 := by
  have hlength : w.toList.length = wireSize := Vector.length_toList
  rw [List.drop_eq_getElem_cons (by omega), List.take_succ_cons,
    List.drop_eq_getElem_cons (by omega), List.take_succ_cons, List.take_zero]
  simp

/-- The fields of a record follow each other without a gap, from its size to its end. -/
theorem wire_ofWire (h : w[0] = 40) : (ofWire w).wire = w := by
  have hlength : w.toList.length = wireSize := Vector.length_toList
  have hsize : UInt8.ofNat wireSize = w[0] := h.symm
  rw [← Vector.toList_inj, toList_wire, hsize]
  simp only [ofWire, toList_field, toList_pair w 0 (by decide), toList_pair w 10 (by decide)]
  rw [List.drop_zero]
  simp only [← List.take_add]
  exact List.take_of_length_le (Nat.le_of_eq hlength)

theorem laidOut_iff : i.LaidOut w ↔ w = i.wire := by
  constructor
  · intro h
    rw [← wire_ofWire h.size, h.ofWire_eq]
  · rintro rfl
    exact i.laidOut_wire

end Identity

/-! ## Both records -/

/-- Nothing is lost in a record. The record of a status has nine bytes that stand where the table
says, and what is read from it by position is the status again; that of an identity has forty, the
first of which is forty, and gives back the identity. So a record is that of one status or of one
identity only, and no other record is laid out for it. -/
theorem wire_lossless :
    (∀ (s : Status) (w : Vector UInt8 9), s.LaidOut w ↔ w = s.wire)
      ∧ (∀ s : Status, Status.ofWire s.wire = s)
      ∧ Function.Injective Status.wire
      ∧ (∀ (i : Identity) (w : Vector UInt8 40), i.LaidOut w ↔ w = i.wire)
      ∧ (∀ i : Identity, i.wire.toList.length = 40 ∧ i.wire[0] = 40 ∧ Identity.ofWire i.wire = i)
      ∧ Function.Injective Identity.wire := by
  refine ⟨?_, Status.ofWire_wire, ?_, ?_, ?_, ?_⟩
  · exact fun s w => Status.laidOut_iff
  · exact Function.LeftInverse.injective Status.ofWire_wire
  · exact fun i w => Identity.laidOut_iff
  · exact fun i => ⟨Vector.length_toList, i.laidOut_wire.size, Identity.ofWire_wire i⟩
  · exact Function.LeftInverse.injective Identity.ofWire_wire

end BitstreamUpload
