import BitstreamUpload.Proofs.Bus.Calls
import BitstreamUpload.Proofs.Turns
import Mathlib.Algebra.Ring.Nat

/-!
# The status as a summary of the history

A bus keeps six numbers and flags, and forgets the rest. `Summarizes h s` says what status `s` a
history `h` of bus operations leads to, field by field and from the history alone: which bytes were
sent since the last reset, how the checkpoints since then came out, and whether the bitstream was
confirmed.

`summarizes_run` is the law for all runs of a bus; one operation more is `Summarizes.concat`.
-/

namespace BitstreamUpload

open Journal

namespace Status

/-! ## Codes and steps -/

/-- The code of a reset, given whether it saw `INIT_B` high. -/
def resetCode (high : Bool) : Nat :=
  if high then 200 else 100

/-- The code of a start-up. -/
def startUpCode (high : Bool) : Nat :=
  if high then 22 else 11

/-- What an operation of a bus makes of the status, given whether it saw `INIT_B` high. -/
def after (s : Status) : Bus.Operation → Bool → Status
  | .reset, high => s.clear.checkpoint .reset high
  | .send byte, _ => s.countByte byte
  | .startUp, high => s.checkpoint .startUp high
  | .confirm, _ => s.confirm

theorem toNat_checksum_countByte (s : Status) (b : UInt8) :
    (s.countByte b).checksum.toNat = (s.checksum.toNat + b.toNat) % 256 :=
  UInt8.toNat_add _ _

/-- The count stays at its greatest value. -/
theorem toNat_count_countByte (s : Status) (b : UInt8) :
    (s.countByte b).count.toNat = min (s.count.toNat + 1) (2 ^ 32 - 1) := by
  have hlt : s.count.toNat < 2 ^ 32 := s.count.toNat_lt
  have hlimit : countLimit.toNat = 2 ^ 32 - 1 := rfl
  rw [countByte]
  split
  · next h => rw [hlimit, h, hlimit]; rfl
  · next h =>
    have hne : s.count.toNat ≠ 2 ^ 32 - 1 := by
      rw [← hlimit]
      exact fun he => h (UInt32.toNat_inj.mp he)
    have hone : (1 : UInt32).toNat = 1 := rfl
    rw [UInt32.toNat_add, hone]
    omega

theorem toNat_diagnostic_checkpoint (s : Status) (c : Checkpoint) (high : Bool) :
    (s.checkpoint c high).diagnostic.toNat = (s.diagnostic.toNat + (c.code high).toNat) % 256 :=
  UInt8.toNat_add _ _

theorem toNat_code_startUp (high : Bool) :
    (Checkpoint.startUp.code high).toNat = startUpCode high := by
  cases high <;> rfl

end Status

namespace Turn

variable {ω α τ : Type} {p : ω → Bool}

/-- The code for the outcome of the last reset, zero if there was none. The resets are the turns
whose operation satisfies `p`. -/
def resetCode (p : ω → Bool) (ts : List (Turn ω α τ)) : Nat :=
  match last? p ts with
  | some t => Status.resetCode t.entries.sawHigh
  | none => 0

theorem resetCode_concat_pos {t : Turn ω α τ} (h : p t.operation = true)
    (ts : List (Turn ω α τ)) : resetCode p (ts ++ [t]) = Status.resetCode t.entries.sawHigh := by
  rw [resetCode, last?_concat_pos h]

theorem resetCode_concat_neg {t : Turn ω α τ} (h : p t.operation = false)
    (ts : List (Turn ω α τ)) : resetCode p (ts ++ [t]) = resetCode p ts := by
  rw [resetCode, last?_concat_neg h, resetCode]

end Turn

namespace Bus

/-- What some operations did on a bus, in order. -/
abbrev History (board : Board) (σ : Type) := List (Turn Operation Unit (Bus board σ))

variable {board : Board} {σ : Type}

namespace History

/-- What was done since the last reset, or since the beginning if there was none. -/
def sinceReset (h : History board σ) : History board σ :=
  Turn.sinceLast Operation.isReset h

/-- The bytes that were sent since the last reset. -/
def bytes (h : History board σ) : List UInt8 :=
  h.sinceReset.filterMap (·.operation.byte?)

/-- The code for the outcome of a start-up, zero for any other turn. -/
def startUpCode (t : Turn Operation Unit (Bus board σ)) : Nat :=
  if t.operation = .startUp then Status.startUpCode t.entries.sawHigh else 0

/-- The codes for the last reset and for all start-ups since. -/
def codes (h : History board σ) : Nat :=
  Turn.resetCode Operation.isReset h + (h.sinceReset.map startUpCode).sum

/-- Whether `INIT_B` was high at the last checkpoint. -/
def lastLevel (h : History board σ) : Bool :=
  (Turn.last? Operation.isCheckpoint h).any (·.entries.sawHigh)

end History

/-- The status is what there is to tell about a history. -/
structure Summarizes (h : History board σ) (s : Status) : Prop where
  unconfigured : s.unconfigured = false ↔ ∃ t ∈ h.sinceReset, t.operation = .confirm
  checksum : s.checksum.toNat = (h.bytes.map (·.toNat)).sum % 256
  count : s.count.toNat = min h.bytes.length (2 ^ 32 - 1)
  diagnostic : s.diagnostic.toNat = h.codes % 256
  initHigh : s.initHigh = h.lastLevel
  bitOrder : s.bitOrder = board.bitOrder

/-! ## One operation more -/

namespace History

variable {h : History board σ} {t : Turn Operation Unit (Bus board σ)}

theorem isReset_of_ne {op : Operation} (hop : op ≠ .reset) : op.isReset = false := by
  cases op with
  | reset => exact absurd rfl hop
  | _ => rfl

theorem sinceReset_concat_reset (ht : t.operation = .reset) :
    sinceReset (h ++ [t]) = [] :=
  Turn.sinceLast_concat_pos (by rw [ht]; rfl) h

theorem sinceReset_concat (ht : t.operation ≠ .reset) :
    sinceReset (h ++ [t]) = h.sinceReset ++ [t] :=
  Turn.sinceLast_concat_neg (isReset_of_ne ht) h

/-- Operations without a reset are all since the last one. -/
theorem sinceReset_append [Target σ] {acts : List Operation} (hacts : .reset ∉ acts)
    (h : History board σ) (bus : Bus board σ) :
    sinceReset (h ++ turns step acts bus) = h.sinceReset ++ turns step acts bus := by
  refine Turn.sinceLast_append (fun t ht => isReset_of_ne fun hreset => hacts ?_) h
  rw [← map_operation_turns step acts bus, ← hreset]
  exact List.mem_map_of_mem ht

theorem codes_concat_reset (ht : t.operation = .reset) :
    codes (h ++ [t]) = Status.resetCode t.entries.sawHigh := by
  rw [codes, Turn.resetCode_concat_pos (by rw [ht]; rfl), sinceReset_concat_reset ht]
  rfl

theorem codes_concat (ht : t.operation ≠ .reset) :
    codes (h ++ [t]) = h.codes + startUpCode t := by
  rw [codes, codes, Turn.resetCode_concat_neg (isReset_of_ne ht), sinceReset_concat ht]
  simp [Nat.add_assoc]

theorem bytes_concat_reset (ht : t.operation = .reset) : bytes (h ++ [t]) = [] := by
  rw [bytes, sinceReset_concat_reset ht]
  rfl

theorem bytes_concat (ht : t.operation ≠ .reset) :
    bytes (h ++ [t]) = h.bytes ++ t.operation.byte?.toList := by
  rw [bytes, sinceReset_concat ht, List.filterMap_append, bytes]
  cases hb : t.operation.byte? <;> simp [hb]

theorem lastLevel_concat_checkpoint (ht : t.operation.isCheckpoint = true) :
    lastLevel (h ++ [t]) = t.entries.sawHigh := by
  rw [lastLevel, Turn.last?_concat_pos ht]
  rfl

theorem lastLevel_concat (ht : t.operation.isCheckpoint = false) :
    lastLevel (h ++ [t]) = h.lastLevel := by
  rw [lastLevel, Turn.last?_concat_neg ht, lastLevel]

end History

/-! ## Histories of runs -/

theorem Summarizes.initial : Summarizes ([] : History board σ) (.initial board.bitOrder) where
  unconfigured := by simp [Status.initial, History.sinceReset]
  checksum := rfl
  count := rfl
  diagnostic := rfl
  initHigh := rfl
  bitOrder := rfl

section

variable {h : History board σ} {s : Status} {t : Turn Operation Unit (Bus board σ)}

theorem Summarizes.concat_reset (hs : Summarizes h s) (ht : t.operation = .reset) :
    Summarizes (h ++ [t]) (s.after .reset t.entries.sawHigh) where
  unconfigured := by
    rw [History.sinceReset_concat_reset ht]
    simp [Status.after, Status.checkpoint, Status.clear]
  checksum := by
    rw [History.bytes_concat_reset ht]
    rfl
  count := by
    rw [History.bytes_concat_reset ht]
    rfl
  diagnostic := by
    rw [History.codes_concat_reset ht, Status.after, Status.toNat_diagnostic_checkpoint]
    cases t.entries.sawHigh <;> rfl
  initHigh := by
    rw [History.lastLevel_concat_checkpoint (by rw [ht]; rfl)]
    rfl
  bitOrder := hs.bitOrder

theorem Summarizes.concat_send (hs : Summarizes h s) {byte : UInt8}
    (ht : t.operation = .send byte) :
    Summarizes (h ++ [t]) (s.after (.send byte) t.entries.sawHigh) := by
  have hne : t.operation ≠ .reset := by rw [ht]; exact nofun
  have hbytes : History.bytes (h ++ [t]) = h.bytes ++ [byte] := by
    rw [History.bytes_concat hne, ht]
    rfl
  constructor
  case unconfigured =>
    rw [History.sinceReset_concat hne]
    simpa [ht, Status.after, Status.countByte] using hs.unconfigured
  case checksum =>
    rw [hbytes, Status.after, Status.toNat_checksum_countByte, hs.checksum, List.map_append,
      List.sum_append]
    simp
  case count =>
    rw [hbytes, Status.after, Status.toNat_count_countByte, hs.count, List.length_append]
    simp only [List.length_singleton]
    omega
  case diagnostic =>
    rw [History.codes_concat hne, History.startUpCode, if_neg (by rw [ht]; exact nofun)]
    exact hs.diagnostic
  case initHigh =>
    rw [History.lastLevel_concat (by rw [ht]; rfl)]
    exact hs.initHigh
  case bitOrder => exact hs.bitOrder

theorem Summarizes.concat_startUp (hs : Summarizes h s) (ht : t.operation = .startUp) :
    Summarizes (h ++ [t]) (s.after .startUp t.entries.sawHigh) := by
  have hne : t.operation ≠ .reset := by rw [ht]; exact nofun
  have hbytes : History.bytes (h ++ [t]) = h.bytes := by
    rw [History.bytes_concat hne, ht]
    exact List.append_nil _
  constructor
  case unconfigured =>
    rw [History.sinceReset_concat hne]
    simpa [ht, Status.after, Status.checkpoint] using hs.unconfigured
  case checksum => rw [hbytes]; exact hs.checksum
  case count => rw [hbytes]; exact hs.count
  case diagnostic =>
    rw [History.codes_concat hne, History.startUpCode, if_pos ht, Status.after,
      Status.toNat_diagnostic_checkpoint, Status.toNat_code_startUp, hs.diagnostic]
    omega
  case initHigh =>
    rw [History.lastLevel_concat_checkpoint (by rw [ht]; rfl)]
    rfl
  case bitOrder => exact hs.bitOrder

theorem Summarizes.concat_confirm (hs : Summarizes h s) (ht : t.operation = .confirm) :
    Summarizes (h ++ [t]) (s.after .confirm t.entries.sawHigh) := by
  have hne : t.operation ≠ .reset := by rw [ht]; exact nofun
  have hbytes : History.bytes (h ++ [t]) = h.bytes := by
    rw [History.bytes_concat hne, ht]
    exact List.append_nil _
  constructor
  case unconfigured =>
    rw [History.sinceReset_concat hne]
    simp [Status.after, Status.confirm, ht]
  case checksum => rw [hbytes]; exact hs.checksum
  case count => rw [hbytes]; exact hs.count
  case diagnostic =>
    rw [History.codes_concat hne, History.startUpCode, if_neg (by rw [ht]; exact nofun)]
    exact hs.diagnostic
  case initHigh =>
    rw [History.lastLevel_concat (by rw [ht]; rfl)]
    exact hs.initHigh
  case bitOrder => exact hs.bitOrder

/-- A status that summarizes a history goes on to do so. -/
theorem Summarizes.concat (hs : Summarizes h s) (t : Turn Operation Unit (Bus board σ)) :
    Summarizes (h ++ [t]) (s.after t.operation t.entries.sawHigh) := by
  cases ht : t.operation with
  | reset => exact hs.concat_reset ht
  | send byte => exact hs.concat_send ht
  | startUp => exact hs.concat_startUp ht
  | confirm => exact hs.concat_confirm ht

end

variable [Target σ]

theorem status_step (op : Operation) (bus : Bus board σ) :
    (step op bus).value.2.status = bus.status.after op (sawHigh (step op bus).entries) := by
  cases op with
  | reset =>
    show bus.reset.value.status = _
    rw [status_reset, step, Recorded.entries_map]
    rfl
  | send byte => rfl
  | startUp =>
    show bus.startUp.value.status = _
    rw [status_startUp, step, Recorded.entries_map, sawHigh, samples_startUp]
    simp [Status.after]
  | confirm => rfl

/-- The status of a bus is the summary of all that was done on it. -/
theorem summarizes_run (target : σ) (ops : List Operation) :
    let bus := (connect target : Recorded (Bus board σ)).value
    Summarizes (turns step ops bus) (run step ops bus).value.status := by
  intro bus
  -- A history grows at its end, so that is where the run is taken apart.
  induction ops using List.reverseRecOn with
  | nil => exact Summarizes.initial
  | append_singleton ops op ih =>
    rw [turns_concat, value_run_concat, status_step]
    exact ih.concat (turn step op (run step ops bus).value)

end Bus

end BitstreamUpload
