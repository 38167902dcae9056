import BitstreamUpload.Bus
import BitstreamUpload.Run
import BitstreamUpload.Proofs.Journal

/-!
# What the operations of a bus do

For each operation of a bus: the calls it makes, the levels it leaves on the control lines, what
becomes of the status, and what is noted. The calls are named by what they are for (`pulseCalls`,
`byteCalls`, `resetCalls`, `startUpCalls`).

Some laws about lines and calls ask for a low clock, which is how every operation leaves it.
-/

namespace BitstreamUpload

open Journal

/-- Lines while a bitstream is sent: `PROGRAM_B` high, `INIT_B` left to the target, clock low,
interface selected. -/
def Lines.ready : Lines where
  program := true
  init := true
  clock := false
  selected := true

namespace Bus

variable {board : Board} {σ : Type} [Target σ]

/-! ## Samples -/

@[simp] theorem high_sample (bus : Bus board σ) :
    bus.sample.value.1 = Target.initHigh bus.target := rfl

@[simp] theorem lines_sample (bus : Bus board σ) : bus.sample.value.2.lines = bus.lines := rfl

@[simp] theorem status_sample (bus : Bus board σ) : bus.sample.value.2.status = bus.status := rfl

@[simp] theorem entries_sample (bus : Bus board σ) :
    bus.sample.entries = [.call (.sample (Target.initHigh bus.target))] := rfl

/-! ## Clock pulses -/

/-- The calls of a clock pulse, the other lines being at these levels. -/
def pulseCalls (l : Lines) : List BusCall :=
  [.lines { l with clock := true }, .lines { l with clock := false }]

@[simp] theorem lines_pulse (bus : Bus board σ) :
    bus.pulse.value.lines = { bus.lines with clock := false } := rfl

@[simp] theorem status_pulse (bus : Bus board σ) : bus.pulse.value.status = bus.status := rfl

@[simp] theorem calls_pulse (bus : Bus board σ) :
    calls bus.pulse.entries = pulseCalls bus.lines := rfl

/-- A low clock is low again after a pulse. -/
theorem lines_pulse_of_low {bus : Bus board σ} (h : bus.lines.clock = false) :
    bus.pulse.value.lines = bus.lines := by
  rw [lines_pulse, ← h]

theorem status_pulses (n : Nat) (bus : Bus board σ) :
    (Recorded.iterate pulse n bus).value.status = bus.status := by
  induction n generalizing bus with
  | zero => rfl
  | succ n ih =>
    rw [Recorded.iterate_succ, Recorded.value_bind, ih]
    exact status_pulse bus

/-- Clock pulses drive the control lines and do nothing else. -/
theorem isLines_of_mem_pulses (n : Nat) (bus : Bus board σ) :
    ∀ c ∈ calls (Recorded.iterate pulse n bus).entries, ∃ l, c = .lines l := by
  induction n generalizing bus with
  | zero => intro c hc; cases hc
  | succ n ih =>
    intro c hc
    rw [Recorded.iterate_succ, Recorded.entries_bind, calls_append, List.mem_append] at hc
    rcases hc with hc | hc
    · simp only [calls_pulse, pulseCalls, List.mem_cons, List.not_mem_nil, or_false] at hc
      rcases hc with rfl | rfl
      · exact ⟨_, rfl⟩
      · exact ⟨_, rfl⟩
    · exact ih _ c hc

theorem samples_pulses (n : Nat) (bus : Bus board σ) :
    samples (Recorded.iterate pulse n bus).entries = [] := by
  rw [samples_eq_calls, List.filterMap_eq_nil_iff]
  intro c hc
  obtain ⟨l, rfl⟩ := isLines_of_mem_pulses n bus c hc
  rfl

theorem written_pulses (n : Nat) (bus : Bus board σ) :
    written (Recorded.iterate pulse n bus).entries = [] := by
  rw [written, List.filterMap_eq_nil_iff]
  intro c hc
  obtain ⟨l, rfl⟩ := isLines_of_mem_pulses n bus c hc
  rfl

theorem lines_pulses (n : Nat) {bus : Bus board σ} (h : bus.lines.clock = false) :
    (Recorded.iterate pulse n bus).value.lines = bus.lines := by
  induction n generalizing bus with
  | zero => rfl
  | succ n ih =>
    have hp : bus.pulse.value.lines = bus.lines := lines_pulse_of_low h
    rw [Recorded.iterate_succ, Recorded.value_bind, ih (by rw [hp, h]), hp]

theorem calls_pulses (n : Nat) {bus : Bus board σ} (h : bus.lines.clock = false) :
    calls (Recorded.iterate pulse n bus).entries
      = (List.replicate n (pulseCalls bus.lines)).flatten := by
  induction n generalizing bus with
  | zero => rfl
  | succ n ih =>
    have hp : bus.pulse.value.lines = bus.lines := lines_pulse_of_low h
    rw [Recorded.iterate_succ, Recorded.entries_bind, calls_append, calls_pulse,
      ih (by rw [hp, h]), hp, List.replicate_succ, List.flatten_cons]

/-! ## Bytes -/

/-- The calls that clock a byte into the target. -/
def byteCalls (board : Board) (l : Lines) (byte : UInt8) : List BusCall :=
  .data (board.bitOrder.apply byte) :: pulseCalls l

@[simp] theorem calls_send (byte : UInt8) (bus : Bus board σ) :
    calls (bus.send byte).entries = byteCalls board bus.lines byte := rfl

@[simp] theorem written_send (byte : UInt8) (bus : Bus board σ) :
    written (bus.send byte).entries = [board.bitOrder.apply byte] := rfl

/-! ## Start-up -/

/-- The level of `INIT_B` that a start-up samples after its clock pulses. -/
def startUpLevel (bus : Bus board σ) : Bool :=
  Target.initHigh (Recorded.iterate pulse board.startupClocks bus).value.target

/-- The calls of a start-up: clock pulses, one sample, and the interface is deselected. -/
def startUpCalls (board : Board) (l : Lines) (high : Bool) : List BusCall :=
  (List.replicate board.startupClocks (pulseCalls l)).flatten
    ++ [.sample high, .lines { l with selected := false }]

theorem status_startUp (bus : Bus board σ) :
    bus.startUp.value.status = bus.status.checkpoint .startUp bus.startUpLevel := by
  rw [← status_pulses board.startupClocks bus]
  rfl

theorem samples_startUp (bus : Bus board σ) :
    samples bus.startUp.entries = [bus.startUpLevel] := by
  show samples ((Recorded.iterate pulse board.startupClocks bus).entries ++ _) = _
  rw [samples_append, samples_pulses]
  rfl

theorem written_startUp (bus : Bus board σ) : written bus.startUp.entries = [] := by
  show written ((Recorded.iterate pulse board.startupClocks bus).entries ++ _) = _
  rw [written_append, written_pulses]
  rfl

theorem lines_startUp {bus : Bus board σ} (h : bus.lines.clock = false) :
    bus.startUp.value.lines = { bus.lines with selected := false } := by
  rw [← lines_pulses board.startupClocks h]
  rfl

theorem calls_startUp {bus : Bus board σ} (h : bus.lines.clock = false) :
    calls bus.startUp.entries = startUpCalls board bus.lines bus.startUpLevel := by
  show calls ((Recorded.iterate pulse board.startupClocks bus).entries ++ _) = _
  rw [calls_append, calls_pulses _ h, startUpCalls, ← lines_pulses board.startupClocks h]
  rfl

/-! ## Reset -/

/-- The calls of a reset that takes these samples. `PROGRAM_B` goes low, then `INIT_B` too, both
come back while the target clears its memory, and the data pins are switched to output. -/
def resetCalls (board : Board) (l : Lines) (levels : List Bool) : List BusCall :=
  [.lines { l with program := false, clock := false, selected := false },
    .lines { program := false, init := false, clock := false, selected := false },
    .lines { program := true, init := false, clock := false, selected := false },
    .wait board.pulseMicros, .lines .ready]
    ++ levels.map .sample ++ [.enableOutput]

@[simp] theorem lines_pulseProgram (bus : Bus board σ) :
    bus.pulseProgram.value.lines = .ready := rfl

@[simp] theorem status_pulseProgram (bus : Bus board σ) :
    bus.pulseProgram.value.status = bus.status := rfl

@[simp] theorem samples_pulseProgram (bus : Bus board σ) :
    samples bus.pulseProgram.entries = [] := rfl

/-- Sampling goes on until a sample is high, and changes neither lines nor status. -/
theorem search_sample (limit : Nat) (bus : Bus board σ) :
    let found := Recorded.search sample limit bus
    found.value.found = sawHigh found.entries
      ∧ found.value.state.lines = bus.lines ∧ found.value.state.status = bus.status
      ∧ calls found.entries = (samples found.entries).map .sample := by
  induction limit generalizing bus with
  | zero => exact ⟨rfl, rfl, rfl, rfl⟩
  | succ limit ih =>
    obtain ⟨hf, hl, hs, hc⟩ := ih bus.sample.value.2
    simp only [Recorded.search_succ]
    cases h : Target.initHigh bus.target with
    | true => simp [h, sawHigh, samples, calls, Entry.sample?, Entry.call?]
    | false =>
      -- The search goes on from the bus behind the sample, which has the same lines and status.
      have hsamples (j : Journal) : samples (.call (.sample false) :: j) = false :: samples j := rfl
      have hcalls (j : Journal) : calls (.call (.sample false) :: j) = .sample false :: calls j :=
        rfl
      simp only [lines_sample, status_sample] at hl hs
      simp [h, hf, hl, hs, hc, sawHigh, hsamples, hcalls]

/-- No more samples are taken than the search allows. -/
theorem length_samples_search (limit : Nat) (bus : Bus board σ) :
    (samples (Recorded.search sample limit bus).entries).length ≤ limit := by
  induction limit generalizing bus with
  | zero => exact Nat.le_refl 0
  | succ limit ih =>
    have hone (level : Bool) : (samples [.call (.sample level)]).length = 1 := rfl
    rw [Recorded.search_succ, Recorded.entries_bind, samples_append, List.length_append,
      entries_sample, hone]
    cases h : Target.initHigh bus.target with
    | true => simp [h]
    | false =>
      have hrest := ih bus.sample.value.2
      simp only [high_sample, h, Bool.false_eq_true, if_false, Recorded.entries_bind,
        Recorded.entries_pure, List.append_nil]
      show 1 + (samples (Recorded.search sample limit bus.sample.value.2).entries).length ≤ _
      omega

theorem lines_reset (bus : Bus board σ) : bus.reset.value.lines = .ready :=
  (search_sample board.pollLimit bus.pulseProgram.value).2.1

/-- What a reset writes: its line updates and the wait, the samples, and then how they ended. -/
theorem entries_reset (bus : Bus board σ) :
    let found := bus.pulseProgram.value.awaitInit
    bus.reset.entries = bus.pulseProgram.entries ++ (found.entries ++ [.call .enableOutput,
      .note (if found.value.found then .resetHigh found.value.tries
        else .resetLow found.value.tries)]) := rfl

/-- All samples of a reset are taken while it waits for `INIT_B`. -/
theorem samples_reset (bus : Bus board σ) :
    samples bus.reset.entries = samples bus.pulseProgram.value.awaitInit.entries := by
  rw [entries_reset, samples_append, samples_append, samples_pulseProgram, List.nil_append]
  exact List.append_nil _

theorem length_samples_reset (bus : Bus board σ) :
    (samples bus.reset.entries).length ≤ board.pollLimit := by
  rw [samples_reset]
  exact length_samples_search board.pollLimit bus.pulseProgram.value

theorem status_reset (bus : Bus board σ) :
    bus.reset.value.status = bus.status.clear.checkpoint .reset (sawHigh bus.reset.entries) := by
  obtain ⟨hfound, -, hstatus, -⟩ := search_sample board.pollLimit bus.pulseProgram.value
  have hsaw : sawHigh bus.reset.entries = bus.pulseProgram.value.awaitInit.value.found := by
    rw [sawHigh, samples_reset]
    exact hfound.symm
  rw [hsaw, ← status_pulseProgram bus, ← hstatus]
  rfl

theorem calls_reset (bus : Bus board σ) :
    calls bus.reset.entries = resetCalls board bus.lines (samples bus.reset.entries) := by
  obtain ⟨-, -, -, hcalls⟩ := search_sample board.pollLimit bus.pulseProgram.value
  rw [samples_reset, entries_reset, calls_append, calls_append, resetCalls, List.append_assoc]
  congr 1
  exact congrArg (· ++ [BusCall.enableOutput]) hcalls

/-- The calls of a reset put nothing on the data pins. -/
theorem data_resetCalls (board : Board) (l : Lines) (levels : List Bool) :
    (resetCalls board l levels).filterMap BusCall.data? = [] := by
  have hsamples : (levels.map BusCall.sample).filterMap BusCall.data? = [] := by
    rw [List.filterMap_map, List.filterMap_eq_nil_iff]
    exact fun _ _ => rfl
  rw [resetCalls, List.filterMap_append, List.filterMap_append, hsamples]
  rfl

theorem written_reset (bus : Bus board σ) : written bus.reset.entries = [] := by
  rw [written, calls_reset, data_resetCalls]

/-! ## Notes -/

theorem notes_pulses (n : Nat) (bus : Bus board σ) :
    notes (Recorded.iterate pulse n bus).entries = [] := by
  induction n generalizing bus with
  | zero => rfl
  | succ n ih =>
    rw [Recorded.iterate_succ, Recorded.entries_bind, notes_append, ih]
    rfl

theorem notes_sendAll (bytes : List UInt8) (bus : Bus board σ) :
    notes (bus.sendAll bytes).entries = [] := by
  induction bytes generalizing bus with
  | nil => rfl
  | cons byte bytes ih =>
    have hrest := ih (bus.send byte).value
    rw [sendAll] at hrest
    rw [sendAll, Recorded.foldl_cons, Recorded.entries_bind, notes_append, hrest]
    rfl

/-- A start-up notes the status that it leaves. -/
theorem notes_startUp (bus : Bus board σ) :
    let status := bus.startUp.value.status
    notes bus.startUp.entries = [.finished status.count status.checksum status.diagnostic] := by
  intro status
  show notes ((Recorded.iterate pulse board.startupClocks bus).entries ++ _) = _
  rw [notes_append, notes_pulses]
  rfl

theorem notes_search (limit : Nat) (bus : Bus board σ) :
    notes (Recorded.search sample limit bus).entries = [] := by
  induction limit generalizing bus with
  | zero => rfl
  | succ limit ih =>
    rw [Recorded.search_succ, Recorded.entries_bind, notes_append]
    cases h : Target.initHigh bus.target with
    | true => simp [h, notes, Entry.note?]
    | false =>
      have hrest := ih bus.sample.value.2
      simp only [high_sample, h, Bool.false_eq_true, if_false, Recorded.entries_bind,
        Recorded.entries_pure, List.append_nil]
      exact hrest

/-- A reset notes how its samples ended. -/
theorem notes_reset (bus : Bus board σ) :
    let found := bus.pulseProgram.value.awaitInit.value
    notes bus.reset.entries
      = [if found.found then .resetHigh found.tries else .resetLow found.tries] := by
  intro found
  have hsearch : notes bus.pulseProgram.value.awaitInit.entries = [] :=
    notes_search board.pollLimit bus.pulseProgram.value
  rw [entries_reset, notes_append, notes_append, hsearch]
  rfl

/-! ## Operations -/

/-- Whether an operation is a reset. -/
def Operation.isReset : Operation → Bool
  | reset => true
  | _ => false

/-- Whether an operation ends with a checkpoint. -/
def Operation.isCheckpoint : Operation → Bool
  | reset | startUp => true
  | _ => false

/-- The byte that an operation sends, if it sends one. -/
def Operation.byte? : Operation → Option UInt8
  | send byte => some byte
  | _ => none

theorem filterMap_byte?_sends (bytes : List UInt8) :
    (bytes.map Operation.send).filterMap (·.byte?) = bytes := by
  rw [List.filterMap_map]
  exact List.filterMap_some

/-- What a run puts on the data pins: the bytes it sends, in the board's bit order. -/
theorem written_run (ops : List Operation) (bus : Bus board σ) :
    written (run step ops bus).entries = (ops.filterMap (·.byte?)).map board.bitOrder.apply := by
  induction ops generalizing bus with
  | nil => rfl
  | cons op ops ih =>
    rw [run_cons, Recorded.entries_bind, written_append, ih]
    cases op with
    | reset => simp [step, written_reset, Operation.byte?]
    | send byte => simp [step, Operation.byte?]
    | startUp => simp [step, written_startUp, Operation.byte?]
    | confirm => simp [step, Operation.byte?]

end Bus

end BitstreamUpload
