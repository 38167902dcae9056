import BitstreamUpload.Proofs.Bus.Waveform
import BitstreamUpload.Proofs.Responder.Diagnostic

/-!
# Which bytes reach a target that listens

A target listens to a byte if the interface is selected when the byte is clocked in, and if the data
pins were switched to output before (`TargetListens`). A reset makes a target listen, and a start-up
ends it. A responder takes chunks without a reset and after a start-up as well: their bytes are
clocked and counted like any others, and the last of them confirms the upload. So a status that is
no longer unconfigured says nothing of a reset (`configured_without_reset`).

`counted_bytes_heard` has what holds of every run: which bytes a status counts, and which of these
the target listened to.
-/

namespace BitstreamUpload

open Journal

/-- The data pins that are driven between these calls reach a target that listens: they are outputs
by then, and with the next call the clock rises while the interface is selected. -/
def TargetListens (before after : List BusCall) : Prop :=
  .enableOutput ∈ before
    ∧ ∃ l rest, after = .lines l :: rest ∧ l.clock = true ∧ l.selected = true

namespace Bus

/-! ## Cycles without a reset -/

/-- Calls that leave the data pins alone lie before the ones that drive them. -/
theorem exists_append_of_data {first second before after : List BusCall} {pins : UInt8}
    (hfirst : first.filterMap BusCall.data? = [])
    (h : first ++ second = before ++ .data pins :: after) :
    ∃ between, before = first ++ between ∧ second = between ++ .data pins :: after := by
  rcases exists_of_append h with ⟨rest, hamong, -⟩ | between
  · -- The pins would be driven among the first calls.
    rw [hamong, List.filterMap_append] at hfirst
    exact absurd (List.append_eq_nil_iff.mp hfirst).2 (by simp [BusCall.data?])
  · exact between

/-- Each byte is clocked at once, with the interface selected if it is so at the beginning and no
start-up lies before the byte. -/
theorem Cycle.clocked_of_trace {board : Board} {cycles : List Cycle}
    (hreset : ∀ sampled, .reset sampled ∉ cycles) {selected : Bool}
    {before after : List BusCall} {pins : UInt8}
    (h : trace board selected cycles = before ++ .data pins :: after) :
    ∃ l rest, after = .lines l :: rest ∧ l.clock = true
      ∧ (l.selected = true ↔ selected = true ∧ before.filterMap BusCall.sample? = []) := by
  induction cycles generalizing selected before with
  | nil => exact absurd h (by simp [trace])
  | cons c cycles ih =>
    have hrest : ∀ sampled, .reset sampled ∉ cycles :=
      fun sampled hmem => hreset sampled (List.mem_cons_of_mem c hmem)
    rw [trace] at h
    cases c with
    | reset sampled => exact absurd List.mem_cons_self (hreset sampled)
    | byte value =>
      rw [calls, byteCalls, List.cons_append] at h
      rcases List.cons_eq_append_iff.mp h with ⟨rfl, hdata⟩ | ⟨between, rfl, hbetween⟩
      · -- It is this byte, and its clock pulse comes next.
        obtain ⟨-, rfl⟩ := List.cons.inj hdata
        exact ⟨_, _, rfl, rfl, by simp [Lines.resting]⟩
      · obtain ⟨later, rfl, hlater⟩ := exists_append_of_data (by rfl) hbetween
        obtain ⟨l, rest, hafter, hclock, hselected⟩ := ih hrest hlater
        exact ⟨l, rest, hafter, hclock, hselected⟩
    | startUp high =>
      obtain ⟨later, rfl, hlater⟩ := exists_append_of_data (data_calls board selected _) h
      obtain ⟨l, rest, hafter, hclock, hselected⟩ := ih hrest hlater
      refine ⟨l, rest, hafter, hclock, ?_⟩
      -- The interface was deselected, and the sample tells of it.
      have hsample : (calls board selected (startUp high)).filterMap BusCall.sample? ≠ [] := by
        simp [calls, startUpCalls, BusCall.sample?]
      simp [hselected, operation, Operation.selects, hsample]

variable {board : Board} {σ : Type} [Target σ]

/-- Without a reset, `INIT_B` is sampled at start-ups only. -/
theorem samples_run_ne_nil_iff {ops : List Operation} (hreset : .reset ∉ ops) (bus : Bus board σ) :
    samples (run step ops bus).entries ≠ [] ↔ .startUp ∈ ops := by
  have hmem : .startUp ∈ ops ↔ ∃ t ∈ turns step ops bus, t.operation = .startUp := by
    rw [← List.mem_map, map_operation_turns]
  rw [samples_run hreset, ne_eq, List.map_eq_nil_iff, List.filter_eq_nil_iff, hmem]
  simp

end Bus

namespace Responder

/-! ## Resets and start-ups of a responder -/

theorem confirm_mem_plan_iff (board : Board) (chunk : Chunk) (op : Operation) :
    .confirm ∈ (plan board chunk op).acts ↔ .startUp ∈ (plan board chunk op).acts := by
  cases op with
  | read setup => simp [plan]
  | discard => simp [plan]
  | receive batch => exact Chunk.confirm_mem_receivePlan_iff batch chunk
  | command setup =>
    rw [plan]
    unfold commandPlan
    split
    · simp
    · exact Chunk.confirm_mem_announcePlan_iff board _ chunk
    · simp

variable {board : Board} {σ : Type} [Target σ]

theorem confirm_mem_history_iff (ops : List Operation) (r : Responder board σ) :
    .confirm ∈ (controller board σ).history ops r
      ↔ .startUp ∈ (controller board σ).history ops r := by
  induction ops generalizing r with
  | nil => simp [Bus.Controller.history]
  | cons op ops ih =>
    rw [Bus.Controller.history, List.mem_append, List.mem_append, ih]
    exact or_congr_left (confirm_mem_plan_iff board r.chunk op)

theorem reset_notMem_history {ops : List Operation} (hops : ∀ op ∈ ops, op.isReset = false)
    (r : Responder board σ) : .reset ∉ (controller board σ).history ops r := by
  induction ops generalizing r with
  | nil => exact List.not_mem_nil
  | cons op ops ih =>
    rw [Bus.Controller.history, List.mem_append, not_or]
    exact ⟨reset_notMem_plan (hops op List.mem_cons_self) board r.chunk,
      ih (fun op' hop' => hops op' (List.mem_cons_of_mem op hop')) _⟩

/-- A reset selects the interface and switches the data pins to output. -/
theorem step_reset_facts {op : Operation} (hop : op.isReset = true) (r : Responder board σ) :
    (step op r).value.2.bus.lines = .ready ∧ .enableOutput ∈ (step op r).entries.calls := by
  obtain ⟨-, -, hbus, hcalls⟩ := step_follows op r
  rw [acts_plan_reset hop] at hbus hcalls
  refine ⟨?_, ?_⟩
  · rw [hbus]
    exact Bus.lines_reset r.bus
  · rw [hcalls, run_cons, Recorded.entries_bind, calls_append]
    simp [Bus.step, Bus.calls_reset, Bus.resetCalls]

namespace History

/-- What was done since the last reset, or since the beginning if there was none. -/
def sinceReset (h : History board σ) : History board σ :=
  Turn.sinceLast Operation.isReset h

/-- What was done up to the last reset. -/
def untilReset (h : History board σ) : History board σ :=
  Turn.untilLast Operation.isReset h

end History

/-! ## The status since the last reset -/

/-- Behind a reset or at the beginning, operations without a reset make up the history that
counts. -/
theorem sinceReset_turns_bus {acts acts' : List Bus.Operation}
    (hacts : acts = [] ∨ ∃ before, acts = before ++ [.reset]) (hacts' : .reset ∉ acts')
    (bus : Bus board σ) :
    Bus.History.sinceReset (turns Bus.step (acts ++ acts') bus)
      = turns Bus.step acts' (run Bus.step acts bus).value := by
  rw [turns_append, Bus.History.sinceReset_append hacts']
  rcases hacts with rfl | ⟨before, rfl⟩
  · rfl
  · rw [turns_concat, Bus.History.sinceReset_concat_reset (by rfl)]
    rfl

/-- The bytes of a history are those that were sent since its last reset. -/
theorem bytes_of_sinceReset {past : Bus.History board σ} {acts : List Bus.Operation}
    {bus : Bus board σ} (hpast : past.sinceReset = turns Bus.step acts bus) :
    past.bytes = acts.filterMap (·.byte?) := by
  rw [Bus.History.bytes, hpast]
  conv_rhs => rw [← map_operation_turns Bus.step acts bus, List.filterMap_map]
  rfl

/-- How a run stands to its last reset, or to its beginning if there was none: `bus` is the bus as
it was then, and `acts` is what it has done since. -/
structure BehindReset (start : Recorded (Responder board σ)) (ops : List Operation)
    (bus : Bus board σ) (acts : List Bus.Operation) : Prop where
  /-- Whether there was a reset is all that the lines tell of the past. -/
  lines : bus.lines
    = .resting (History.lastReset? (turns step ops start.value)).isSome
  output : History.lastReset? (turns step ops start.value) ≠ none → .enableOutput ∈
    (start.entries ++ Turn.journal (History.untilReset (turns step ops start.value))).calls
  calls : (Turn.journal (History.sinceReset (turns step ops start.value))).calls
    = (run Bus.step acts bus).entries.calls
  reset : .reset ∉ acts
  confirm : .confirm ∈ acts ↔ .startUp ∈ acts
  /-- The status is the summary of a history that ends with `acts`, behind a reset if there was
  one. -/
  summary : ∃ past : Bus.History board σ,
    Bus.Summarizes past (run step ops start.value).value.bus.status
      ∧ past.sinceReset = turns Bus.step acts bus

theorem exists_behindReset (target : σ) (identity : Identity) (ops : List Operation) :
    let start : Recorded (Responder board σ) := connect target identity
    ∃ bus acts, BehindReset start ops bus acts := by
  intro start
  let c := controller board σ
  obtain ⟨earlier, since, hops, hsince, huntil, hlater, hlast⟩ :=
    Turn.exists_cut (p := Operation.isReset) step ops start.value
  let r := (run step earlier start.value).value
  have hpast : r.bus = (run Bus.step (c.history earlier start.value) start.value.bus).value :=
    (c.does_run earlier start.value).bus_eq
  have hreset : .reset ∉ c.history since r := reset_notMem_history hsince r
  refine ⟨r.bus, c.history since r, ?lines, ?output, ?calls, hreset,
    confirm_mem_history_iff since r, ?summary⟩
  case lines =>
    rw [History.lastReset?]
    rcases hlast with ⟨rfl, hlast⟩ | ⟨before, op, rfl, hop, hlast⟩
    · rw [hlast]
      rfl
    · rw [hlast]
      show (run step (before ++ [op]) start.value).value.bus.lines = _
      rw [value_run_concat]
      exact (step_reset_facts hop _).1
  case output =>
    rw [History.lastReset?, History.untilReset, huntil, ← entries_run]
    rcases hlast with ⟨rfl, hlast⟩ | ⟨before, op, rfl, hop, hlast⟩
    · exact fun h => absurd hlast h
    · intro _
      have houtput := (step_reset_facts hop (run step before start.value).value).2
      rw [run_append, Recorded.entries_bind, run_cons, Recorded.entries_bind, calls_append,
        calls_append, calls_append]
      simp [houtput]
  case calls =>
    have hcalls := (c.does_run since r).calls_eq
    rw [journal_controller] at hcalls
    rw [History.sinceReset, hlater, ← entries_run]
    exact hcalls
  case summary =>
    have hall : (run step ops start.value).value.bus
        = (run Bus.step (c.history earlier start.value ++ c.history since r)
          start.value.bus).value := by
      have hdoes := (c.does_run ops start.value).bus_eq
      rw [hops, Bus.Controller.history_append, ← hops] at hdoes
      exact hdoes
    refine ⟨turns Bus.step (c.history earlier start.value ++ c.history since r) start.value.bus,
      ?_, ?_⟩
    · rw [hall]
      exact Bus.summarizes_run target _
    · have hends : c.history earlier start.value = []
          ∨ ∃ before, c.history earlier start.value = before ++ [.reset] := by
        rcases hlast with ⟨rfl, -⟩ | ⟨before, op, rfl, hop, -⟩
        · exact .inl rfl
        · refine .inr ⟨c.history before start.value, ?_⟩
          rw [Bus.Controller.history_concat]
          exact congrArg _ (acts_plan_reset hop board _)
      rw [hpast]
      exact sinceReset_turns_bus hends hreset start.value.bus

namespace BehindReset

variable {start : Recorded (Responder board σ)} {ops : List Operation} {bus : Bus board σ}
  {acts : List Bus.Operation}

/-- The bytes that were put on the data pins are those that the bus sent. -/
theorem data_eq (h : BehindReset start ops bus acts) :
    ((Turn.journal (History.sinceReset (turns step ops start.value))).calls.filterMap
      BusCall.data?).map board.bitOrder.apply = acts.filterMap (·.byte?) := by
  rw [h.calls]
  show (written (run Bus.step acts bus).entries).map board.bitOrder.apply = _
  rw [Bus.written_run, List.map_map]
  simp [Function.comp_def]

theorem startUpLevels_ne_nil_iff (h : BehindReset start ops bus acts) :
    History.startUpLevels (turns step ops start.value) ≠ [] ↔ .startUp ∈ acts := by
  have hsamples : History.startUpLevels (turns step ops start.value)
      = samples (run Bus.step acts bus).entries := by
    rw [← samples_congr h.calls, Turn.samples_journal]
    rfl
  rw [hsamples, Bus.samples_run_ne_nil_iff h.reset]

theorem unconfigured_iff (h : BehindReset start ops bus acts) :
    (run step ops start.value).value.bus.status.unconfigured = false ↔ .startUp ∈ acts := by
  obtain ⟨past, hsum, hpast⟩ := h.summary
  have hops := map_operation_turns Bus.step acts bus
  rw [hsum.unconfigured, hpast, ← h.confirm]
  constructor
  · rintro ⟨t, ht, hconfirm⟩
    rw [← hops, ← hconfirm]
    exact List.mem_map_of_mem ht
  · intro hmem
    rw [← hops] at hmem
    exact List.mem_map.mp hmem

/-- A byte is clocked in with the interface selected if there was a reset and no start-up since. -/
theorem clocked (h : BehindReset start ops bus acts) {before after : List BusCall} {pins : UInt8}
    (hsplit : (Turn.journal (History.sinceReset (turns step ops start.value))).calls
      = before ++ .data pins :: after) :
    ∃ l rest, after = .lines l :: rest ∧ l.clock = true
      ∧ (l.selected = true ↔ History.lastReset? (turns step ops start.value) ≠ none
        ∧ before.filterMap BusCall.sample? = []) := by
  obtain ⟨cycles, hops, -, hcalls, -⟩ := Bus.exists_cycles_run acts h.lines
  have hreset : ∀ sampled, .reset sampled ∉ cycles := by
    intro sampled hmem
    have hop : .reset ∈ acts.filter (· ≠ .confirm) := by
      rw [← hops]
      exact List.mem_map_of_mem hmem
    exact h.reset (List.mem_of_mem_filter hop)
  rw [h.calls, hcalls] at hsplit
  obtain ⟨l, rest, hafter, hclock, hselected⟩ := Bus.Cycle.clocked_of_trace hreset hsplit
  rw [Option.isSome_iff_ne_none] at hselected
  exact ⟨l, rest, hafter, hclock, hselected⟩

end BehindReset

/-- The status counts the bytes that were put on the data pins since the last reset, or since the
beginning if there was none. It is no longer unconfigured if there was a start-up since then, with
or without a reset. The target listened to a byte if there was a reset, and if no start-up lies
between it and the byte; since a reset, only start-ups sample `INIT_B`. -/
theorem counted_bytes_heard {board : Board} {σ : Type} [Target σ] (target : σ)
    (identity : Identity) (ops : List Operation) :
    let start : Recorded (Responder board σ) := connect target identity
    let h : History board σ := turns step ops start.value
    let status := (run step ops start.value).value.bus.status
    let earlier := (start.entries ++ Turn.journal h.untilReset).calls
    let counted := (Turn.journal h.sinceReset).calls
    let bytes := (counted.filterMap BusCall.data?).map board.bitOrder.apply
    (status.unconfigured = false ↔ h.startUpLevels ≠ [])
      ∧ status.count.toNat = min bytes.length (2 ^ 32 - 1)
      ∧ status.checksum.toNat = (bytes.map (·.toNat)).sum % 256
      ∧ ∀ before pins after, counted = before ++ .data pins :: after →
        (TargetListens (earlier ++ before) after
          ↔ h.lastReset? ≠ none ∧ before.filterMap BusCall.sample? = []) := by
  intro start h status earlier counted bytes
  have hexists : ∃ bus acts, BehindReset start ops bus acts :=
    exists_behindReset target identity ops
  obtain ⟨bus, acts, hbehind⟩ := hexists
  obtain ⟨past, hsum, hpast⟩ := hbehind.summary
  have hbytes : past.bytes = bytes := (bytes_of_sinceReset hpast).trans hbehind.data_eq.symm
  refine ⟨?_, ?_, ?_, ?_⟩
  · rw [hbehind.unconfigured_iff, hbehind.startUpLevels_ne_nil_iff]
  · rw [← hbytes]
    exact hsum.count
  · rw [← hbytes]
    exact hsum.checksum
  · intro before pins after hsplit
    obtain ⟨l, rest, hafter, hclock, hselected⟩ := hbehind.clocked hsplit
    constructor
    · rintro ⟨-, l', rest', hafter', -, hselected'⟩
      obtain ⟨hl, -⟩ := List.cons.inj (hafter.symm.trans hafter')
      obtain rfl := BusCall.lines.inj hl
      exact hselected.mp hselected'
    · intro hlistens
      have houtput := hbehind.output hlistens.1
      exact ⟨List.mem_append_left before houtput, l, rest, hafter, hclock, hselected.mpr hlistens⟩

/-- A chunk of one byte is taken without any reset. Its byte is clocked in while the interface is not
selected, and counted, and the status is no longer unconfigured. -/
theorem configured_without_reset :
    let board : Board := { chunkSize := 4, pollLimit := 5, startupClocks := 3 }
    let bench : Bench := { init := .risesAfter 3 }
    let identity := Identity.basic (.replicate 4 0) (.replicate 4 0) (.replicate 10 0)
    let start : Recorded (Responder board Bench) := connect bench identity
    let ops := [.command (.sending Command.chunkCode 1), .receive [7]]
    let h : History board Bench := turns step ops start.value
    let status := (run step ops start.value).value.bus.status
    status.unconfigured = false ∧ status.count = 1 ∧ status.checksum = 7
      ∧ h.lastReset? = none
      ∧ ∃ before after, (start >>= run step ops).entries.calls = before ++ .data 7 :: after
        ∧ ¬TargetListens before after := by
  intro board bench identity start ops h status
  have hstatus : status = ⟨false, 7, 1, 11, false, .straight⟩ := by decide +kernel
  have hreset : h.lastReset? = none := (Turn.last?_eq_none_iff step ops _).mpr (by decide)
  have hcalls : (start >>= run step ops).entries.calls = [.lines .idle]
      ++ .data 7 :: (Bus.pulseCalls .idle ++ Bus.startUpCalls board .idle false) := by
    decide +kernel
  refine ⟨by rw [hstatus], by rw [hstatus], by rw [hstatus], hreset, [.lines .idle], _, hcalls, ?_⟩
  rintro ⟨houtput, -⟩
  simp at houtput

end Responder

end BitstreamUpload
