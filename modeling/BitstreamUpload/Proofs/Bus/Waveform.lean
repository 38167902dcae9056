import BitstreamUpload.Proofs.Target.Latching

/-!
# The waveform on the bus

Whatever is done on a bus, its calls are a row of cycles, one for each operation that makes calls. A
bus keeps a record of the lines and changes it in place, and each operation counts on what the one
before has left there. `disciplined_run` says that this goes well in every run, and what it means for
the target.
-/

namespace BitstreamUpload

open Journal

namespace Bus

/-- Whether the interface is selected when some operations were done: there was a reset, and no
start-up since. -/
theorem selects_iff (ops : List Operation) :
    ops.foldl Operation.selects false = true
      ↔ ∃ earlier since, ops = earlier ++ .reset :: since ∧ .startUp ∉ since := by
  induction ops using List.reverseRecOn with
  | nil =>
    constructor
    · exact nofun
    · rintro ⟨earlier, since, h, -⟩
      exact absurd h.symm (by simp)
  | append_singleton ops op ih =>
    rw [List.foldl_append]
    constructor
    · intro h
      cases op with
      | reset => exact ⟨ops, [], rfl, List.not_mem_nil⟩
      | startUp => exact absurd h Bool.false_ne_true
      | send value =>
        obtain ⟨earlier, since, rfl, hsince⟩ := ih.mp h
        exact ⟨earlier, since ++ [.send value], by simp, by simp [hsince]⟩
      | confirm =>
        obtain ⟨earlier, since, rfl, hsince⟩ := ih.mp h
        exact ⟨earlier, since ++ [.confirm], by simp, by simp [hsince]⟩
    · rintro ⟨earlier, since, h, hsince⟩
      -- The operation is the reset itself, or one of those since.
      rcases List.eq_nil_or_concat since with rfl | ⟨since, last, rfl⟩
      · obtain ⟨-, rfl⟩ := List.append_inj' h rfl |>.imp_right List.singleton_inj.mp
        rfl
      · rw [List.concat_eq_append, ← List.cons_append, ← List.append_assoc] at h
        obtain ⟨rfl, hlast⟩ := List.append_inj' h rfl
        obtain rfl := List.singleton_inj.mp hlast
        simp only [List.concat_eq_append, List.mem_append, List.mem_singleton, not_or] at hsince
        have hbefore := ih.mpr ⟨earlier, since, rfl, hsince.1⟩
        cases op with
        | reset => rfl
        | startUp => exact absurd rfl hsince.2
        | send value => exact hbefore
        | confirm => exact hbefore

variable {board : Board} {σ : Type} [Target σ]

/-- An operation that makes calls does one cycle. -/
theorem exists_cycle_step {op : Operation} (hop : op ≠ .confirm) {bus : Bus board σ}
    {selected : Bool} (h : bus.lines = .resting selected) :
    ∃ c : Cycle, c.operation = op
      ∧ (∀ sampled, c = .reset sampled → sampled.length ≤ board.pollLimit)
      ∧ calls (step op bus).entries = c.calls board selected
      ∧ (step op bus).value.2.lines = .resting (op.selects selected) := by
  have hlow : bus.lines.clock = false := by rw [h]; rfl
  cases op with
  | confirm => exact absurd rfl hop
  | reset =>
    refine ⟨.reset (samples bus.reset.entries), rfl, ?_, ?_, lines_reset bus⟩
    · rintro sampled ⟨rfl⟩
      exact length_samples_reset bus
    · rw [step, Recorded.entries_map, calls_reset, h]
      rfl
  | send value =>
    refine ⟨.byte value, rfl, ?_, ?_, ?_⟩
    · rintro sampled ⟨⟩
    · rw [step, Recorded.entries_map, calls_send, h]
      rfl
    · exact (lines_pulse_of_low hlow).trans h
  | startUp =>
    refine ⟨.startUp bus.startUpLevel, rfl, ?_, ?_, ?_⟩
    · rintro sampled ⟨⟩
    · rw [step, Recorded.entries_map, calls_startUp hlow, h]
      rfl
    · exact (lines_startUp hlow).trans (by rw [h]; rfl)

/-- A run from resting lines is a row of cycles, one for each operation that makes calls. -/
theorem exists_cycles_run (ops : List Operation) {bus : Bus board σ} {selected : Bool}
    (h : bus.lines = .resting selected) :
    ∃ cycles : List Cycle, cycles.map (·.operation) = ops.filter (· ≠ .confirm)
      ∧ (∀ sampled, .reset sampled ∈ cycles → sampled.length ≤ board.pollLimit)
      ∧ calls (run step ops bus).entries = Cycle.trace board selected cycles
      ∧ (run step ops bus).value.lines = .resting (ops.foldl Operation.selects selected) := by
  induction ops generalizing bus selected with
  | nil => exact ⟨[], rfl, nofun, rfl, h⟩
  | cons op ops ih =>
    rw [run_cons, Recorded.entries_bind, calls_append, Recorded.value_bind, List.foldl_cons]
    by_cases hop : op = .confirm
    · -- Confirming makes no call and leaves the lines alone.
      subst hop
      have hconfirm : bus.confirm.lines = .resting selected := h
      exact ih hconfirm
    · obtain ⟨c, hc, hclimit, hccalls, hclines⟩ := exists_cycle_step hop h
      obtain ⟨cycles, hops, hlimit, hcalls, hlines⟩ := ih hclines
      refine ⟨c :: cycles, ?_, ?_, ?_, hlines⟩
      · rw [List.map_cons, hops, hc, List.filter_cons_of_pos (by simpa using hop)]
      · intro sampled hmem
        rcases List.mem_cons.mp hmem with hmem | hmem
        · exact hclimit sampled hmem.symm
        · exact hlimit sampled hmem
      · rw [hccalls, hcalls, Cycle.trace, hc]

/-- The calls that were made on a bus since it was connected are as they should be, `ops` being the
operations that were done and `lines` the levels that the bus keeps. -/
structure Disciplined (board : Board) (ops : List Operation) (calls : List BusCall)
    (lines : Lines) : Prop where
  /-- The lines are driven to rest, then comes a cycle for each operation, with no more samples in a
  reset than the board allows. -/
  cycles : ∃ cycles : List Cycle, cycles.map (·.operation) = ops.filter (· ≠ .confirm)
    ∧ (∀ sampled, .reset sampled ∈ cycles → sampled.length ≤ board.pollLimit)
    ∧ calls = .lines .idle :: Cycle.trace board false cycles
  /-- The levels that the bus keeps are those that it drove last. -/
  last : (levels calls).getLast? = some lines
  resting : lines.clock = false ∧ lines.program = true ∧ lines.init = true
  /-- The interface is selected from a reset to the start-up behind it. -/
  selected : lines.selected = true ↔ ∃ earlier since, ops = earlier ++ .reset :: since
    ∧ .startUp ∉ since
  /-- Whatever its model of `INIT_B`, a target that latches the data pins at the first rising clock
  edge after each write latches all that is written, once and in order. -/
  latched : ∀ init, (calls.foldl Bench.react { init }).latched.reverse
    = calls.filterMap BusCall.data?
  /-- The clock rises once for each byte and `startupClocks` times for each start-up. -/
  clocks : ∀ init, (calls.foldl Bench.react { init }).clocks
    = (calls.filterMap BusCall.data?).length + board.startupClocks * ops.count .startUp
  /-- The clock stays as it is while `PROGRAM_B` or `INIT_B` is low. -/
  edges : (levels calls).IsChain Lines.EdgeAllowed

/-- Confirming makes no call, so it does not matter here. -/
theorem foldl_selects_filter (ops : List Operation) (selected : Bool) :
    (ops.filter (· ≠ .confirm)).foldl Operation.selects selected
      = ops.foldl Operation.selects selected := by
  induction ops generalizing selected with
  | nil => rfl
  | cons op ops ih =>
    by_cases hop : op = .confirm
    · subst hop
      exact ih selected
    · rw [List.filter_cons_of_pos (by simpa using hop)]
      exact ih _

/-- Whatever is done on a bus is disciplined. -/
theorem disciplined_run (target : σ) (ops : List Operation) :
    let after : Recorded (Bus board σ) := connect target >>= run step ops
    Disciplined board ops (calls after.entries) after.value.lines := by
  intro after
  have hidle : (connect target : Recorded (Bus board σ)).value.lines = .resting false := rfl
  obtain ⟨cycles, hops, hlimit, hcalls, hlines⟩ := exists_cycles_run ops hidle
  have hall : calls after.entries = .lines (.resting false) :: Cycle.trace board false cycles :=
    congrArg (BusCall.lines Lines.idle :: ·) hcalls
  have hend : after.value.lines = .resting (ops.foldl Operation.selects false) := hlines
  have hdata : (calls after.entries).filterMap BusCall.data? = cycles.flatMap (Cycle.pins board) :=
    (congrArg (List.filterMap BusCall.data?) hall).trans (Cycle.data_trace board cycles false)
  -- The first line update makes no edge, and the rest is a row of cycles.
  have htook (init : InitModel) : ({ init } : Bench).Took (calls after.entries)
      (cycles.flatMap (Cycle.pins board)) (cycles.map (Cycle.edges board)).sum := by
    have hquiet : Bench.IsQuiet (.lines (.resting false)) := rfl
    have hfirst := Bench.took_quiet_call hquiet (b := { init }) ⟨rfl, rfl⟩
    have hboth := hfirst.append (Bench.took_trace board cycles false hfirst.settled)
    rw [Nat.zero_add] at hboth
    rw [hall]
    exact hboth
  constructor
  case cycles => exact ⟨cycles, hops, hlimit, hall⟩
  case last =>
    have hlast := Cycle.getLast?_levels_trace board cycles false
    rw [hops, foldl_selects_filter] at hlast
    rw [hall, hend]
    exact hlast
  case resting => rw [hend]; exact ⟨rfl, rfl, rfl⟩
  case selected => rw [hend, ← selects_iff]; rfl
  case latched =>
    intro init
    rw [(htook init).latched, hdata, List.append_nil, List.reverse_reverse]
  case clocks =>
    intro init
    have hstartUps : (cycles.map (·.operation)).count .startUp = ops.count .startUp := by
      rw [hops]
      exact List.count_filter rfl
    rw [(htook init).clocks, hdata, Cycle.sum_edges, hstartUps]
    exact Nat.zero_add _
  case edges => rw [hall]; exact Cycle.isChain_levels_trace board cycles false

end Bus

end BitstreamUpload
