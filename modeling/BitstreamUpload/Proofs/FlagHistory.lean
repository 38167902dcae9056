import BitstreamUpload.Flag
import BitstreamUpload.Proofs.Turns
import Mathlib.Data.List.Perm.Subperm

/-!
# What the history of a flag says about it

A flag keeps one bit of its history. If it was made down, it is up just if it `WasRaised`, that is,
if some raise came after the last take (`isRaised_run_lowered`). What a stretch of operations can
report is bounded by what it raises and by whether the flag is up before it (`reports_add_le`), so a
burst of raises is reported by the take behind it and by no later one (`reports_burst`).

Several flags are led back to one. Each of them does what it would do if the operations on it were
the only ones (`turnsOn_turns`), so what is said of one flag is said of each of several
(`take_reports_raises`).
-/

namespace BitstreamUpload

namespace Flag

/-! ## Since the last take -/

/-- The operations behind the last take, which are all of them if there is none. -/
def sinceTake (ops : List Operation) : List Operation :=
  ops.rtakeWhile (· ≠ .take)

/-- A flag was raised, and it was not taken since. -/
def WasRaised (ops : List Operation) : Prop :=
  .raise ∈ sinceTake ops

instance (ops : List Operation) : Decidable (WasRaised ops) :=
  inferInstanceAs (Decidable (_ ∈ _))

/-- A flag stays raised until it is taken. -/
theorem wasRaised_concat (ops : List Operation) (op : Operation) :
    WasRaised (ops ++ [op]) ↔ op = .raise ∨ op ≠ .take ∧ WasRaised ops := by
  unfold WasRaised sinceTake
  cases op with
  | raise => simp [List.rtakeWhile_concat_pos]
  | take => simp [List.rtakeWhile_concat_neg]
  | look => simp [List.rtakeWhile_concat_pos]

/-- What was raised before the take does not count, but what was raised behind it does. -/
example : WasRaised [.raise, .look, .take, .raise, .raise] := by decide

theorem wasRaised_of_not_taken {ops : List Operation} (hraise : .raise ∈ ops)
    (htake : .take ∉ ops) : WasRaised ops := by
  have hall : sinceTake ops = ops :=
    List.rtakeWhile_eq_self_iff.mpr fun op hop =>
      decide_eq_true fun h => htake (h ▸ hop)
  rw [WasRaised, hall]
  exact hraise

/-! ## One flag -/

theorem isRaised_step (op : Operation) (f : Flag) :
    (step op f).value.2.isRaised = true ↔ op = .raise ∨ op ≠ .take ∧ f.isRaised = true := by
  cases op with
  | raise => exact ⟨fun _ => .inl rfl, fun _ => rfl⟩
  | take => exact ⟨nofun, fun h => absurd rfl (h.resolve_left nofun).1⟩
  | look => exact ⟨fun h => .inr ⟨nofun, h⟩, fun h => (h.resolve_left nofun).2⟩

/-- A flag is up if it was raised and not taken since, or if it was up from the beginning and never
taken. -/
theorem isRaised_run (ops : List Operation) (f : Flag) :
    (run step ops f).value.isRaised = true
      ↔ WasRaised ops ∨ .take ∉ ops ∧ f.isRaised = true := by
  -- From the end, since it is the last take that counts.
  induction ops using List.reverseRecOn with
  | nil => exact ⟨fun h => .inr ⟨nofun, h⟩, fun h => (h.resolve_left nofun).2⟩
  | append_singleton ops op ih =>
    have htake : .take ∉ ops ++ [op] ↔ op ≠ .take ∧ .take ∉ ops := by
      rw [List.mem_append, List.mem_singleton, not_or, and_comm, ne_comm]
    rw [value_run_concat, isRaised_step, ih, wasRaised_concat, htake, or_assoc, and_assoc,
      ← and_or_left]

theorem isRaised_run_lowered (ops : List Operation) :
    (run step ops lowered).value.isRaised = decide (WasRaised ops) := by
  rw [Bool.eq_iff_iff, isRaised_run, decide_eq_true_iff]
  exact or_iff_left fun h => Bool.false_ne_true h.2

/-- Whether a turn is a take that tells that the flag was up. -/
def isReport (t : Turn Operation (Option Bool) Flag) : Bool :=
  t.operation = .take ∧ t.answer = some true

/-- How often a flag was reported as raised. -/
def reports (ts : List (Turn Operation (Option Bool) Flag)) : Nat :=
  ts.countP isReport

theorem reports_append (ts ts' : List (Turn Operation (Option Bool) Flag)) :
    reports (ts ++ ts') = reports ts + reports ts' :=
  List.countP_append

theorem report_add_le (op : Operation) (f : Flag) :
    reports [turn step op f] + (turn step op f).after.isRaised.toNat
      ≤ [op].count .raise + f.isRaised.toNat := by
  obtain ⟨isRaised⟩ := f
  cases op <;> cases isRaised <;> decide

/-- A report uses up a raise, or the flag being up at the beginning. So does the flag being up at
the end. -/
theorem reports_add_le (ops : List Operation) (f : Flag) :
    reports (turns step ops f) + (run step ops f).value.isRaised.toNat
      ≤ ops.count .raise + f.isRaised.toNat := by
  induction ops using List.reverseRecOn with
  | nil => exact Nat.le_refl _
  | append_singleton ops op ih =>
    have hop := report_add_le op (run step ops f).value
    rw [turns_concat, reports_append, value_run_concat, List.count_append]
    change _ + (step op _).value.2.isRaised.toNat ≤ _ at hop
    omega

theorem reports_eq_zero {ops : List Operation} (h : .take ∉ ops) (f : Flag) :
    reports (turns step ops f) = 0 := by
  refine List.countP_eq_zero.mpr fun t ht hreport => h ?_
  have htake : t.operation = .take := (of_decide_eq_true hreport).1
  rw [← map_operation_turns step ops f, ← htake]
  exact List.mem_map_of_mem ht

/-- A burst of raises is reported by the take behind it and by no later one, as long as the flag is
not raised again. -/
theorem reports_burst {burst quiet : List Operation} (hraise : .raise ∈ burst)
    (htake : .take ∉ burst) (hquiet : .raise ∉ quiet) (f : Flag) :
    reports (turns step (burst ++ .take :: quiet) f) = 1 := by
  -- Nothing is reported before the take, and nothing is left to report behind it.
  have hup : (run step burst f).value.isRaised = true :=
    (isRaised_run burst f).mpr (.inl (wasRaised_of_not_taken hraise htake))
  have hreport : reports [turn step .take (run step burst f).value] = 1 := by
    rw [reports, List.countP_singleton, isReport]
    simp [turn, step, take, hup]
  have hlater : reports (turns step quiet lowered) = 0 := by
    have hbound := reports_add_le quiet lowered
    rw [List.count_eq_zero.mpr hquiet] at hbound
    exact Nat.eq_zero_of_le_zero (Nat.le_trans (Nat.le_add_right _ _) hbound)
  rw [List.append_cons, turns_append, turns_concat, value_run_concat, reports_append,
    reports_append, reports_eq_zero htake, hreport]
  exact congrArg (1 + ·) hlater

/-! ## Several flags -/

variable {ι : Type}

/-- The flags that were reported as raised, each of them as often as it was. -/
def reported (ts : List (Turn (ι × Operation) (Option Bool) (ι → Flag))) : List ι :=
  (ts.filter fun t => t.operation.2 = .take ∧ t.answer = some true).map (·.operation.1)

/-- The flags that are raised, each of them as often as it is. -/
def raised (ops : List (ι × Operation)) : List ι :=
  (ops.filter fun op => op.2 = .raise).map (·.1)

variable [DecidableEq ι]

/-- The operations on one of several flags. -/
def operationsOn (i : ι) (ops : List (ι × Operation)) : List Operation :=
  ops.filterMap fun op => if op.1 = i then some op.2 else none

/-- What the turns of several flags are to one of them. -/
def turnsOn (i : ι) (ts : List (Turn (ι × Operation) (Option Bool) (ι → Flag))) :
    List (Turn Operation (Option Bool) Flag) :=
  ts.filterMap fun t =>
    if t.operation.1 = i then some ⟨t.operation.2, t.answer, t.entries, t.after i⟩ else none

theorem operationsOn_append (i : ι) (ops ops' : List (ι × Operation)) :
    operationsOn i (ops ++ ops') = operationsOn i ops ++ operationsOn i ops' :=
  List.filterMap_append

theorem operationsOn_cons_self (i : ι) (op : Operation) (ops : List (ι × Operation)) :
    operationsOn i ((i, op) :: ops) = op :: operationsOn i ops :=
  List.filterMap_cons_some (if_pos rfl)

theorem operationsOn_cons_other {i j : ι} (h : j ≠ i) (op : Operation)
    (ops : List (ι × Operation)) : operationsOn i ((j, op) :: ops) = operationsOn i ops :=
  List.filterMap_cons_none (if_neg h)

theorem mem_operationsOn {i : ι} {op : Operation} {ops : List (ι × Operation)} :
    op ∈ operationsOn i ops ↔ (i, op) ∈ ops := by
  simp [operationsOn]

theorem turnsOn_cons_self (i : ι) (op : Operation) (flags : ι → Flag)
    (ts : List (Turn (ι × Operation) (Option Bool) (ι → Flag))) :
    turnsOn i (turn stepAt (i, op) flags :: ts) = turn step op (flags i) :: turnsOn i ts := by
  refine List.filterMap_cons_some ((if_pos rfl).trans ?_)
  simp [turn, stepAt]

theorem turnsOn_cons_other {i j : ι} (h : j ≠ i) (op : Operation) (flags : ι → Flag)
    (ts : List (Turn (ι × Operation) (Option Bool) (ι → Flag))) :
    turnsOn i (turn stepAt (j, op) flags :: ts) = turnsOn i ts :=
  List.filterMap_cons_none (if_neg h)

/-- A flag does what it would do if the operations on it were the only ones. -/
theorem turnsOn_turns (i : ι) (ops : List (ι × Operation)) (flags : ι → Flag) :
    turnsOn i (turns stepAt ops flags) = turns step (operationsOn i ops) (flags i)
      ∧ (run stepAt ops flags).value i = (run step (operationsOn i ops) (flags i)).value := by
  induction ops generalizing flags with
  | nil => exact ⟨rfl, rfl⟩
  | cons op ops ih =>
    obtain ⟨j, op⟩ := op
    let t := turn stepAt (j, op) flags
    obtain ⟨hturns, hvalue⟩ := ih t.after
    have hcons : turns stepAt ((j, op) :: ops) flags = t :: turns stepAt ops t.after := rfl
    have hrun : (run stepAt ((j, op) :: ops) flags).value = (run stepAt ops t.after).value := by
      rw [run_cons]
      rfl
    rw [hcons, hrun]
    by_cases h : j = i
    · subst h
      have hafter : t.after j = (step op (flags j)).value.2 := if_pos rfl
      rw [turnsOn_cons_self, operationsOn_cons_self, hturns, hvalue, hafter, run_cons]
      exact ⟨rfl, rfl⟩
    · have hafter : t.after i = flags i := if_neg (Ne.symm h)
      rw [turnsOn_cons_other h, operationsOn_cons_other h, hturns, hvalue, hafter]
      exact ⟨rfl, rfl⟩

theorem count_reported (i : ι) (ts : List (Turn (ι × Operation) (Option Bool) (ι → Flag))) :
    (reported ts).count i = reports (turnsOn i ts) := by
  rw [reported, List.count, List.countP_map, List.countP_filter, reports, turnsOn,
    List.countP_filterMap]
  refine List.countP_congr fun t _ => ?_
  by_cases hi : t.operation.1 = i
  · simp [hi, isReport]
  · simp [hi]

theorem count_raised (i : ι) (ops : List (ι × Operation)) :
    (raised ops).count i = (operationsOn i ops).count .raise := by
  rw [raised, List.count, List.countP_map, List.countP_filter, List.count, operationsOn,
    List.countP_filterMap]
  refine List.countP_congr fun op _ => ?_
  by_cases hi : op.1 = i
  · simp [hi]
  · simp [hi]

/-- No flag is reported more often than it is raised, so there are not more reports than raises in
all. -/
theorem reported_subperm {flags : ι → Flag} (hdown : ∀ i, flags i = lowered)
    (ops : List (ι × Operation)) : (reported (turns stepAt ops flags)).Subperm (raised ops) := by
  refine List.subperm_ext_iff.mpr fun i _ => ?_
  have hbound := reports_add_le (operationsOn i ops) lowered
  rw [count_reported, (turnsOn_turns i ops flags).1, hdown, count_raised]
  exact Nat.le_trans (Nat.le_add_right _ _) hbound

/-- Flags are made down, and `ops` is what was done with them so far. A take of one of them now
tells whether that flag was raised since it was last taken, and it tells so inside an exclusive
section. A look tells what a take would tell and leaves all flags as they are. A burst of raises
from now on is reported once. There were no more reports than raises, and what one flag did does not
depend on the operations on the others. -/
theorem take_reports_raises {ι : Type} [DecidableEq ι] (byDefault : ι → Bool)
    (ops : List (ι × Operation)) :
    let made : ι → Flag := fun i => if byDefault i then default else lowered
    let now := (run stepAt ops made).value
    let ts := turns stepAt ops made
    (∀ i, let t := turn stepAt (i, .take) now
      t.answer = some (decide (WasRaised (operationsOn i ops))) ∧ t.entries = [.enter, .leave])
    ∧ (∀ i, let t := turn stepAt (i, .look) now
      t.answer = (turn stepAt (i, .take) now).answer ∧ t.after = now)
    ∧ (∀ i burst quiet, (i, .raise) ∈ burst → (i, .take) ∉ burst → (i, .raise) ∉ quiet →
      (reported (turns stepAt (burst ++ (i, .take) :: quiet) now)).count i = 1)
    ∧ (∀ i, (reported ts).count i ≤ (raised ops).count i)
    ∧ (reported ts).length ≤ (raised ops).length
    ∧ ∀ i, turnsOn i ts = turns step (operationsOn i ops) (made i)
      ∧ now i = (run step (operationsOn i ops) (made i)).value := by
  intro made now ts
  have hdown (i : ι) : made i = lowered := ite_self lowered
  have hnow (i : ι) : (now i).isRaised = decide (WasRaised (operationsOn i ops)) := by
    rw [← isRaised_run_lowered, ← hdown i, ← (turnsOn_turns i ops made).2]
  have hreported : (reported ts).Subperm (raised ops) := reported_subperm hdown ops
  refine ⟨?_, ?_, ?_, hreported.count_le, hreported.length_le, fun i => turnsOn_turns i ops made⟩
  · intro i
    exact ⟨congrArg some (hnow i), rfl⟩
  · intro i
    refine ⟨rfl, funext fun j => ?_⟩
    show (if j = i then now i else now j) = now j
    split
    case isTrue h => rw [h]
    case isFalse => rfl
  · intro i burst quiet hraise htake hquiet
    rw [count_reported, (turnsOn_turns _ _ _).1, operationsOn_append, operationsOn_cons_self]
    exact reports_burst (mem_operationsOn.mpr hraise) (mt mem_operationsOn.mp htake)
      (mt mem_operationsOn.mp hquiet) _

end Flag

end BitstreamUpload
