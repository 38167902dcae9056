import BitstreamUpload.Proofs.Bus.Controller
import BitstreamUpload.Proofs.Bus.Summary

/-!
# A whole bitstream on a bus

What a bus does with a reset, the bytes of a bitstream and a start-up, in that order and from
whatever state it is in. `calls_bitstream` has the calls and `status_bitstream` the status behind
them.
-/

namespace BitstreamUpload

open Journal

namespace Status

/-- Many bytes are counted as one would expect: the checksum wraps, the count does not. -/
theorem foldl_countByte (bytes : List UInt8) (s : Status) :
    bytes.foldl countByte s = { s with
      checksum := s.checksum + UInt8.ofNat (bytes.map (·.toNat)).sum
      count := UInt32.ofNat (min (s.count.toNat + bytes.length) (2 ^ 32 - 1)) } := by
  induction bytes generalizing s with
  | nil =>
    -- A count is within its bound from the start.
    have hlt : s.count.toNat < 2 ^ 32 := s.count.toNat_lt
    have hcount : min (s.count.toNat + ([] : List UInt8).length) (2 ^ 32 - 1) = s.count.toNat :=
      Nat.min_eq_left (by rw [List.length_nil]; omega)
    rw [hcount, UInt32.ofNat_toNat]
    show s = { s with checksum := s.checksum + 0 }
    rw [UInt8.add_zero]
  | cons byte bytes ih =>
    have hchecksum : (s.countByte byte).checksum + UInt8.ofNat (bytes.map (·.toNat)).sum
        = s.checksum + UInt8.ofNat ((byte :: bytes).map (·.toNat)).sum := by
      rw [List.map_cons, List.sum_cons, UInt8.ofNat_add, UInt8.ofNat_toNat, ← UInt8.add_assoc]
      rfl
    have hcount : min ((s.countByte byte).count.toNat + bytes.length) (2 ^ 32 - 1)
        = min (s.count.toNat + (byte :: bytes).length) (2 ^ 32 - 1) := by
      rw [toNat_count_countByte, List.length_cons]
      omega
    rw [List.foldl_cons, ih, hchecksum, hcount]
    rfl

/-- The status behind a bitstream that was sent as a whole. -/
def delivered (order : BitOrder) (bytes : List UInt8) (resetHigh startUpHigh : Bool) : Status where
  unconfigured := false
  checksum := UInt8.ofNat (bytes.map (·.toNat)).sum
  count := UInt32.ofNat (min bytes.length (2 ^ 32 - 1))
  diagnostic := (if resetHigh then 200 else 100) + if startUpHigh then 22 else 11
  initHigh := startUpHigh
  bitOrder := order

end Status

namespace Bus

variable {board : Board} {σ : Type} [Target σ]

theorem status_sends (bytes : List UInt8) (bus : Bus board σ) :
    (run step (bytes.map .send) bus).value.status = bytes.foldl Status.countByte bus.status := by
  induction bytes generalizing bus with
  | nil => rfl
  | cons byte bytes ih =>
    rw [List.map_cons, run_cons, Recorded.value_bind, List.foldl_cons]
    exact ih (bus.send byte).value

theorem lines_sends (bytes : List UInt8) {bus : Bus board σ} (h : bus.lines.clock = false) :
    (run step (bytes.map .send) bus).value.lines = bus.lines := by
  induction bytes generalizing bus with
  | nil => rfl
  | cons byte bytes ih =>
    have hsend : (bus.send byte).value.lines = bus.lines := lines_pulse_of_low h
    rw [List.map_cons, run_cons, Recorded.value_bind]
    show (run step (bytes.map .send) (bus.send byte).value).value.lines = _
    rw [ih (by rw [hsend, h]), hsend]

theorem calls_sends (bytes : List UInt8) {bus : Bus board σ} (h : bus.lines.clock = false) :
    calls (run step (bytes.map .send) bus).entries = bytes.flatMap (byteCalls board bus.lines) := by
  induction bytes generalizing bus with
  | nil => rfl
  | cons byte bytes ih =>
    have hsend : (bus.send byte).value.lines = bus.lines := lines_pulse_of_low h
    rw [List.map_cons, run_cons, Recorded.entries_bind, calls_append, List.flatMap_cons, step,
      Recorded.entries_map, calls_send]
    show _ ++ calls (run step (bytes.map .send) (bus.send byte).value).entries = _
    rw [ih (by rw [hsend, h]), hsend]

/-- A reset, the bytes of a bitstream, a start-up, and the bitstream is confirmed. -/
def bitstreamOperations (bytes : List UInt8) : List Operation :=
  .reset :: bytes.map .send ++ [.startUp, .confirm]

/-- The bus when all bytes of a bitstream were sent after a reset. -/
def sentAfterReset (bytes : List UInt8) (bus : Bus board σ) : Bus board σ :=
  (run step (bytes.map .send) bus.reset.value).value

theorem lines_sentAfterReset (bytes : List UInt8) (bus : Bus board σ) :
    (bus.sentAfterReset bytes).lines = .ready := by
  have hready : bus.reset.value.lines = .ready := lines_reset bus
  rw [sentAfterReset, lines_sends bytes (by rw [hready]; rfl), hready]

theorem run_bitstream (bytes : List UInt8) (bus : Bus board σ) :
    let sent := bus.sentAfterReset bytes
    (run step (bitstreamOperations bytes) bus).value = sent.startUp.value.confirm
      ∧ calls (run step (bitstreamOperations bytes) bus).entries = calls bus.reset.entries
        ++ calls (run step (bytes.map .send) bus.reset.value).entries
        ++ calls sent.startUp.entries := by
  intro sent
  have hsends : Does (bytes.map .send) bus.reset.value sent
      (run step (bytes.map .send) bus.reset.value).entries := ⟨rfl, rfl⟩
  have hall := ((Does.reset bus).append hsends).append (Does.startUp sent)
  refine ⟨hall.bus_eq.symm, hall.calls_eq.symm.trans ?_⟩
  rw [calls_append, calls_append]

theorem calls_bitstream (bytes : List UInt8) (bus : Bus board σ) :
    calls (run step (bitstreamOperations bytes) bus).entries
      = calls bus.reset.entries ++ bytes.flatMap (byteCalls board .ready)
        ++ startUpCalls board .ready (bus.sentAfterReset bytes).startUpLevel := by
  have hready : bus.reset.value.lines = .ready := lines_reset bus
  have hsent := lines_sentAfterReset bytes bus
  rw [(run_bitstream bytes bus).2, calls_sends bytes (by rw [hready]; rfl), hready,
    calls_startUp (by rw [hsent]; rfl), hsent]

theorem lines_bitstream (bytes : List UInt8) (bus : Bus board σ) :
    (run step (bitstreamOperations bytes) bus).value.lines = .idle := by
  have hsent := lines_sentAfterReset bytes bus
  rw [(run_bitstream bytes bus).1]
  show (bus.sentAfterReset bytes).startUp.value.lines = _
  rw [lines_startUp (by rw [hsent]; rfl), hsent]
  rfl

/-- Whatever was sent before the reset is forgotten. -/
theorem status_bitstream (bytes : List UInt8) (bus : Bus board σ) :
    (run step (bitstreamOperations bytes) bus).value.status
      = .delivered bus.status.bitOrder bytes (sawHigh bus.reset.entries)
          (bus.sentAfterReset bytes).startUpLevel := by
  rw [(run_bitstream bytes bus).1]
  show (bus.sentAfterReset bytes).startUp.value.status.confirm = _
  have hsent : (bus.sentAfterReset bytes).status = bytes.foldl Status.countByte _ :=
    status_sends bytes bus.reset.value
  rw [status_startUp, hsent, status_reset, Status.foldl_countByte]
  generalize sawHigh bus.reset.entries = resetHigh
  generalize (bus.sentAfterReset bytes).startUpLevel = startUpHigh
  have hchecksum (n : UInt8) : 0 + n = n := UInt8.zero_add n
  have hcount : (0 : UInt32).toNat + bytes.length = bytes.length := Nat.zero_add _
  simp only [Status.checkpoint, Status.clear, Status.confirm, Status.delivered, hchecksum, hcount]
  cases resetHigh <;> cases startUpHigh <;> rfl

end Bus

end BitstreamUpload
