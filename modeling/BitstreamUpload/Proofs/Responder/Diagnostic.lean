import BitstreamUpload.Proofs.Bus.Summary
import BitstreamUpload.Proofs.Controllers
import BitstreamUpload.Proofs.Responder.Upload
import BitstreamUpload.Target.Bench
import Mathlib.Data.Bool.Count

/-!
# What a diagnostic of 222 tells

The diagnostic adds up codes: 200 or 100 for a reset and 22 or 11 for each start-up since, modulo
256. A reset and a start-up that both find `INIT_B` high give 222. So do other histories, two failed
start-ups after a reset for one, and `diagnostic_eq_222_iff` has all of them. The shortest one
without a good reset takes 45 start-ups.

Start-ups are counted by the levels they found. Each start-up since the last reset has one, and no
level comes from anything else (`startUpLevels_eq`, `length_startUpLevels`).
-/

namespace BitstreamUpload

open Journal

/-! ## Weights of start-ups -/

/-- A start-up counts twice if it found `INIT_B` high. -/
def startUpWeight (levels : List Bool) : Nat :=
  2 * levels.count true + levels.count false

theorem sum_startUpCode (levels : List Bool) :
    (levels.map Status.startUpCode).sum = 11 * startUpWeight levels := by
  unfold startUpWeight
  induction levels with
  | nil => rfl
  | cons high levels ih =>
    rw [List.map_cons, List.sum_cons, ih]
    cases high with
    | true => simp [Status.startUpCode]; omega
    | false => simp [Status.startUpCode]; omega

theorem startUpWeight_bounds (levels : List Bool) :
    levels.length ≤ startUpWeight levels ∧ startUpWeight levels ≤ 2 * levels.length := by
  have hlength := List.count_true_add_count_false levels
  unfold startUpWeight
  omega

/-- A weight of two is one start-up that found `INIT_B` high or two that found it low. -/
theorem startUpWeight_eq_two {levels : List Bool} (h : startUpWeight levels = 2) :
    levels = [true] ∨ levels = [false, false] := by
  obtain ⟨hlow, hhigh⟩ := startUpWeight_bounds levels
  unfold startUpWeight at h
  rcases levels with _ | ⟨a, _ | ⟨b, _ | ⟨c, levels⟩⟩⟩
  · simp at h
  · cases a <;> simp at h ⊢
  · cases a <;> cases b <;> simp at h ⊢
  · simp only [List.length_cons] at hlow
    rw [startUpWeight, h] at hlow
    omega

namespace Bus

variable {board : Board} {σ : Type} [Target σ]

theorem diagnostic_step {op : Operation} (hop : op ≠ .reset) (bus : Bus board σ) :
    (step op bus).value.2.status.diagnostic.toNat
      = (bus.status.diagnostic.toNat
        + ((step op bus).entries.samples.map Status.startUpCode).sum) % 256 := by
  have hlt : bus.status.diagnostic.toNat < 256 := bus.status.diagnostic.toNat_lt
  cases op with
  | reset => exact absurd rfl hop
  | send byte => exact (Nat.mod_eq_of_lt hlt).symm
  | confirm => exact (Nat.mod_eq_of_lt hlt).symm
  | startUp =>
    show bus.startUp.value.status.diagnostic.toNat = _
    rw [status_startUp, Status.toNat_diagnostic_checkpoint, Status.toNat_code_startUp, step,
      Recorded.entries_map, samples_startUp]
    rfl

/-- Without a reset, the diagnostic grows by the codes of the samples that are taken. -/
theorem diagnostic_run {acts : List Operation} (hacts : .reset ∉ acts) (bus : Bus board σ) :
    (run step acts bus).value.status.diagnostic.toNat
      = (bus.status.diagnostic.toNat
        + ((run step acts bus).entries.samples.map Status.startUpCode).sum) % 256 := by
  induction acts generalizing bus with
  | nil => exact (Nat.mod_eq_of_lt bus.status.diagnostic.toNat_lt).symm
  | cons op acts ih =>
    rw [List.mem_cons, not_or] at hacts
    rw [run_cons, Recorded.value_bind, Recorded.entries_bind, ih hacts.2,
      diagnostic_step (Ne.symm hacts.1), samples_append, List.map_append, List.sum_append]
    omega

theorem diagnostic_reset (bus : Bus board σ) :
    bus.reset.value.status.diagnostic.toNat = Status.resetCode bus.reset.entries.sawHigh := by
  rw [status_reset]
  cases sawHigh bus.reset.entries <;> rfl

/-- A start-up samples `INIT_B` once. Otherwise only a reset samples it. -/
theorem samples_step {op : Operation} (hop : op ≠ .reset) (bus : Bus board σ) :
    samples (step op bus).entries
      = if op = .startUp then [(step op bus).entries.sawHigh] else [] := by
  cases op with
  | reset => exact absurd rfl hop
  | send byte => rfl
  | confirm => rfl
  | startUp =>
    have hone : samples (step .startUp bus).entries = [bus.startUpLevel] := by
      rw [step, Recorded.entries_map, samples_startUp]
    rw [if_pos rfl, sawHigh, hone]
    simp

/-- Without a reset there is one sample for each start-up. -/
theorem samples_run {acts : List Operation} (hacts : .reset ∉ acts) (bus : Bus board σ) :
    samples (run step acts bus).entries
      = ((turns step acts bus).filter (·.operation = .startUp)).map (·.entries.sawHigh) := by
  induction acts generalizing bus with
  | nil => rfl
  | cons op acts ih =>
    rw [List.mem_cons, not_or] at hacts
    have hcons : turns step (op :: acts) bus
        = turn step op bus :: turns step acts (step op bus).value.2 := rfl
    rw [run_cons, Recorded.entries_bind, samples_append, samples_step (Ne.symm hacts.1),
      ih hacts.2, hcons]
    by_cases hop : op = .startUp
    · rw [if_pos hop, List.filter_cons_of_pos (by exact decide_eq_true hop)]
      rfl
    · rw [if_neg hop, List.filter_cons_of_neg (by exact mt of_decide_eq_true hop)]
      rfl

end Bus

namespace Responder

/-! ## What a responder did since the last reset -/

/-- Whether an operation is a command to reset the target. -/
def Operation.isReset : Operation → Bool
  | command setup => setup.command? = some .reset
  | _ => false

/-- What some operations did on a responder, in order. -/
abbrev History (board : Board) (σ : Type) := List (Turn Operation Response (Responder board σ))

namespace History

variable {board : Board} {σ : Type}

/-- The last reset. -/
def lastReset? (h : History board σ) : Option (Turn Operation Response (Responder board σ)) :=
  Turn.last? Operation.isReset h

/-- The levels of `INIT_B` at the start-ups since the last reset, or since the beginning if there
was none. Nothing else samples `INIT_B`. -/
def startUpLevels (h : History board σ) : List Bool :=
  (Turn.sinceLast Operation.isReset h).flatMap (·.entries.samples)

/-- There was a reset, and the last one found `INIT_B` high, or low. -/
def ResetFound (h : History board σ) (high : Bool) : Prop :=
  ∃ t, h.lastReset? = some t ∧ t.entries.sawHigh = high

/-- The code for the outcome of the last reset, zero if there was none. -/
def resetCode (h : History board σ) : Nat :=
  Turn.resetCode Operation.isReset h

variable {h : History board σ} {t : Turn Operation Response (Responder board σ)}

theorem resetCode_of_found {high : Bool} (hfound : h.ResetFound high) :
    h.resetCode = Status.resetCode high := by
  obtain ⟨t, hlast, hsaw⟩ := hfound
  rw [lastReset?] at hlast
  rw [resetCode, Turn.resetCode, hlast]
  exact congrArg Status.resetCode hsaw

theorem resetCode_of_none (hnone : h.lastReset? = none) : h.resetCode = 0 := by
  rw [lastReset?] at hnone
  rw [resetCode, Turn.resetCode, hnone]

theorem resetFound_or_none (h : History board σ) :
    h.ResetFound true ∨ h.ResetFound false ∨ h.lastReset? = none := by
  rcases hlast : h.lastReset? with _ | t
  · exact .inr (.inr rfl)
  · cases hsaw : t.entries.sawHigh with
    | true => exact .inl ⟨t, hlast, hsaw⟩
    | false => exact .inr (.inl ⟨t, hlast, hsaw⟩)

theorem startUpLevels_concat_reset (ht : t.operation.isReset = true) :
    startUpLevels (h ++ [t]) = [] := by
  rw [startUpLevels, Turn.sinceLast_concat_pos ht]
  rfl

theorem startUpLevels_concat (ht : t.operation.isReset = false) :
    startUpLevels (h ++ [t]) = h.startUpLevels ++ t.entries.samples := by
  rw [startUpLevels, Turn.sinceLast_concat_neg ht, List.flatMap_append, List.flatMap_singleton,
    startUpLevels]

end History

/-- The codes add up to 222 in three cases, by what the last reset found. As 11 is odd, each fixes
the weight of the start-ups modulo 256. -/
theorem History.codes_eq_222_iff {board : Board} {σ : Type} (h : History board σ) :
    (h.resetCode + 11 * startUpWeight h.startUpLevels) % 256 = 222 ↔
      h.ResetFound true ∧ startUpWeight h.startUpLevels % 256 = 2
        ∨ h.ResetFound false ∧ startUpWeight h.startUpLevels % 256 = 174
        ∨ h.lastReset? = none ∧ startUpWeight h.startUpLevels % 256 = 90 := by
  have hhigh : Status.resetCode true = 200 := rfl
  have hlow : Status.resetCode false = 100 := rfl
  constructor
  · intro hcode
    -- What is left for 11 times the weight is 22, 122 or 222, modulo 256.
    rcases h.resetFound_or_none with hfound | hfound | hnone
    · rw [resetCode_of_found hfound, hhigh] at hcode
      exact .inl ⟨hfound, by omega⟩
    · rw [resetCode_of_found hfound, hlow] at hcode
      exact .inr (.inl ⟨hfound, by omega⟩)
    · rw [resetCode_of_none hnone] at hcode
      exact .inr (.inr ⟨hnone, by omega⟩)
  · rintro (⟨hfound, hweight⟩ | ⟨hfound, hweight⟩ | ⟨hnone, hweight⟩)
    · rw [resetCode_of_found hfound, hhigh]
      omega
    · rw [resetCode_of_found hfound, hlow]
      omega
    · rw [resetCode_of_none hnone]
      omega

/-! ## Resets in a plan -/

/-- Nothing but a command to reset has the bus do a reset. -/
theorem reset_notMem_plan {op : Operation} (hop : op.isReset = false) (board : Board)
    (chunk : Chunk) : Bus.Operation.reset ∉ (plan board chunk op).acts := by
  cases op with
  | read setup => exact List.not_mem_nil
  | discard => exact List.not_mem_nil
  | receive batch => exact Chunk.reset_notMem_receivePlan batch chunk
  | command setup =>
    have hne : setup.command? ≠ some .reset := of_decide_eq_false hop
    rw [plan]
    unfold commandPlan
    split
    · next h => exact absurd h hne
    · exact Chunk.reset_notMem_announcePlan board _ chunk
    · exact List.not_mem_nil

theorem acts_plan_reset {op : Operation} (hop : op.isReset = true) (board : Board)
    (chunk : Chunk) : (plan board chunk op).acts = [.reset] := by
  cases op with
  | command setup =>
    have hreset : setup.command? = some .reset := of_decide_eq_true hop
    rw [plan, hreset]
    rfl
  | _ => exact absurd hop Bool.false_ne_true

variable {board : Board} {σ : Type} [Target σ]

/-! ## Levels and start-ups -/

/-- The levels since the last reset are those of the start-ups that the bus has done since, each of
which found one. -/
theorem startUpLevels_eq (ops : List Operation) (r : Responder board σ) :
    let acts := (controller board σ).history ops r
    History.startUpLevels (turns step ops r)
      = ((Bus.History.sinceReset (turns Bus.step acts r.bus)).filter
          (·.operation = .startUp)).map (·.entries.sawHigh) := by
  intro acts
  let c := controller board σ
  induction ops using List.reverseRecOn with
  | nil => rfl
  | append_singleton ops op ih =>
    let r' := (run step ops r).value
    have hacts : acts = c.history ops r ++ (plan board r'.chunk op).acts :=
      c.history_concat ops op r
    have hbus : (run Bus.step (c.history ops r) r.bus).value = r'.bus :=
      (c.does_run ops r).bus_eq.symm
    rw [turns_concat, hacts, turns_append, hbus]
    cases hop : op.isReset with
    | true =>
      -- Both histories begin anew.
      have hreset : turns Bus.step (plan board r'.chunk op).acts r'.bus
          = [turn Bus.step .reset r'.bus] := by
        rw [acts_plan_reset hop]
        rfl
      rw [History.startUpLevels_concat_reset hop, hreset,
        Bus.History.sinceReset_concat_reset (by rfl)]
      rfl
    | false =>
      -- The bus does no reset either, and each sample of it is that of a start-up.
      have hnone := reset_notMem_plan hop board r'.chunk
      have hsamples : samples (step op r').entries
          = samples (run Bus.step (plan board r'.chunk op).acts r'.bus).entries :=
        samples_congr (step_follows op r').does.calls_eq
      rw [History.startUpLevels_concat hop, ih, Bus.History.sinceReset_append hnone,
        List.filter_append, List.map_append, ← Bus.samples_run hnone]
      exact congrArg _ hsamples

/-- There are as many levels as the bus has done start-ups since the last reset. -/
theorem length_startUpLevels (ops : List Operation) (r : Responder board σ) :
    (History.startUpLevels (turns step ops r)).length
      = (((controller board σ).history ops r).rtakeWhile (!·.isReset)).count .startUp := by
  let acts := (controller board σ).history ops r
  have hacts : acts.rtakeWhile (!·.isReset)
      = (Bus.History.sinceReset (turns Bus.step acts r.bus)).map (·.operation) := by
    rw [Bus.History.sinceReset, Turn.map_operation_sinceLast, map_operation_turns]
  rw [startUpLevels_eq, List.length_map, ← List.countP_eq_length_filter, hacts, List.count,
    List.countP_map]
  rfl

/-! ## The diagnostic of a run -/

theorem diagnostic_step {op : Operation} (hop : op.isReset = false) (r : Responder board σ) :
    (step op r).value.2.bus.status.diagnostic.toNat
      = (r.bus.status.diagnostic.toNat
        + ((step op r).entries.samples.map Status.startUpCode).sum) % 256 := by
  obtain ⟨-, -, hbus, hcalls⟩ := step_follows op r
  rw [hbus, samples_congr hcalls]
  exact Bus.diagnostic_run (reset_notMem_plan hop board r.chunk) r.bus

theorem diagnostic_step_reset {op : Operation} (hop : op.isReset = true) (r : Responder board σ) :
    (step op r).value.2.bus.status.diagnostic.toNat
      = Status.resetCode (step op r).entries.sawHigh := by
  obtain ⟨-, -, hbus, hcalls⟩ := step_follows op r
  rw [acts_plan_reset hop] at hbus hcalls
  have hsaw : (step op r).entries.sawHigh = r.bus.reset.entries.sawHigh := by
    rw [sawHigh, sawHigh, samples_congr hcalls, run_cons, Recorded.entries_bind]
    simp [Bus.step]
  rw [hbus, hsaw]
  exact Bus.diagnostic_reset r.bus

/-- The diagnostic is the code of the last reset and of all start-ups since, modulo 256. -/
theorem diagnostic_run (target : σ) (identity : Identity) (ops : List Operation) :
    let start : Responder board σ := (connect target identity).value
    let h : History board σ := turns step ops start
    (run step ops start).value.bus.status.diagnostic.toNat
      = (h.resetCode + 11 * startUpWeight h.startUpLevels) % 256 := by
  intro start h
  rw [← sum_startUpCode]
  induction ops using List.reverseRecOn with
  | nil => rfl
  | append_singleton ops op ih =>
    rw [value_run_concat]
    have hturns := turns_concat step ops op start
    simp only [h, hturns]
    cases hop : op.isReset with
    | true =>
      rw [diagnostic_step_reset hop, History.resetCode, Turn.resetCode_concat_pos hop,
        History.startUpLevels_concat_reset hop]
      have hsmall (high : Bool) : Status.resetCode high = (Status.resetCode high + 0) % 256 := by
        cases high <;> rfl
      exact hsmall _
    | false =>
      rw [diagnostic_step hop, ih, History.resetCode, History.resetCode,
        Turn.resetCode_concat_neg hop, History.startUpLevels_concat hop, List.map_append,
        List.sum_append]
      show _ = (_ + (_ + ((step op (run step ops start).value).entries.samples.map _).sum)) % 256
      omega

/-- A diagnostic of 222 goes by the last reset and the weight of the start-ups since. With fewer
than 45 start-ups there are two ways to it: a good reset and a good start-up, or a good reset and
two failed start-ups. -/
theorem diagnostic_eq_222_iff {board : Board} {σ : Type} [Target σ] (target : σ)
    (identity : Identity) (ops : List Operation) :
    let start : Responder board σ := (connect target identity).value
    let h : History board σ := turns step ops start
    let diagnostic := (run step ops start).value.bus.status.diagnostic
    (diagnostic = 222 ↔
        h.ResetFound true ∧ startUpWeight h.startUpLevels % 256 = 2
          ∨ h.ResetFound false ∧ startUpWeight h.startUpLevels % 256 = 174
          ∨ h.lastReset? = none ∧ startUpWeight h.startUpLevels % 256 = 90)
      ∧ (diagnostic = 222 → h.startUpLevels.length < 45 →
        h.ResetFound true ∧ (h.startUpLevels = [true] ∨ h.startUpLevels = [false, false])) := by
  intro start h diagnostic
  have hrun : diagnostic.toNat = (h.resetCode + 11 * startUpWeight h.startUpLevels) % 256 :=
    diagnostic_run target identity ops
  have h222 : diagnostic = 222 ↔ diagnostic.toNat = 222 := UInt8.toNat_inj.symm
  rw [h222, hrun, h.codes_eq_222_iff]
  refine ⟨Iff.rfl, ?_⟩
  intro hcases hfew
  -- So few start-ups have a weight below 90, too little for the last two cases.
  obtain ⟨-, hbound⟩ := startUpWeight_bounds h.startUpLevels
  have hsmall : startUpWeight h.startUpLevels % 256 = startUpWeight h.startUpLevels :=
    Nat.mod_eq_of_lt (by omega)
  rw [hsmall] at hcases
  rcases hcases with ⟨hfound, hweight⟩ | ⟨-, hweight⟩ | ⟨-, hweight⟩
  · exact ⟨hfound, startUpWeight_eq_two hweight⟩
  · omega
  · omega

theorem diagnostic_eq_222_after_good_startUp :
    let board : Board := { chunkSize := 4, pollLimit := 5, startupClocks := 3 }
    let bench : Bench := { init := .script [true] }
    let identity := Identity.basic (.replicate 4 0) (.replicate 4 0) (.replicate 10 0)
    let start : Responder board Bench := (connect bench identity).value
    let ops := [.command (.sending Command.resetCode 0), .command (.sending Command.chunkCode 0)]
    let h : History board Bench := turns step ops start
    (run step ops start).value.bus.status.diagnostic = 222 ∧ h.startUpLevels.length < 45
      ∧ h.ResetFound true ∧ h.startUpLevels = [true] := by
  intro board bench identity start ops h
  have hlevels : h.startUpLevels = [true] := by rfl
  have hreset : h.resetCode = 200 := by rfl
  have hrun : (run step ops start).value.bus.status.diagnostic.toNat
      = (h.resetCode + 11 * startUpWeight h.startUpLevels) % 256 :=
    diagnostic_run bench identity ops
  rw [hlevels, hreset] at hrun
  have hdiagnostic : (run step ops start).value.bus.status.diagnostic = 222 :=
    UInt8.toNat_inj.mp hrun
  have hfew : h.startUpLevels.length < 45 := by rw [hlevels]; decide
  have hlaw := (diagnostic_eq_222_iff bench identity ops).2 hdiagnostic hfew
  exact ⟨hdiagnostic, hfew, hlaw.1, hlevels⟩

/-- Two failed start-ups after a good reset give 222. -/
theorem diagnostic_eq_222_after_failed_startUps :
    let board : Board := { chunkSize := 4, pollLimit := 5, startupClocks := 3 }
    let bench : Bench := { init := .script [true, false, false] }
    let identity := Identity.basic (.replicate 4 0) (.replicate 4 0) (.replicate 10 0)
    let start : Responder board Bench := (connect bench identity).value
    let ops := [.command (.sending Command.resetCode 0), .command (.sending Command.chunkCode 0),
      .command (.sending Command.chunkCode 0)]
    let h : History board Bench := turns step ops start
    (run step ops start).value.bus.status.diagnostic = 222
      ∧ ¬(h.ResetFound true ∧ h.startUpLevels.getLast? = some true) := by
  intro board bench identity start ops h
  have hlevels : h.startUpLevels = [false, false] := by decide +kernel
  have hreset : h.resetCode = 200 := by rfl
  have hrun : (run step ops start).value.bus.status.diagnostic.toNat
      = (h.resetCode + 11 * startUpWeight h.startUpLevels) % 256 :=
    diagnostic_run bench identity ops
  rw [hlevels, hreset] at hrun
  refine ⟨UInt8.toNat_inj.mp hrun, ?_⟩
  rintro ⟨-, hlast⟩
  rw [hlevels] at hlast
  cases hlast

end Responder

end BitstreamUpload
