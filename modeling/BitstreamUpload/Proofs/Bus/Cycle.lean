import BitstreamUpload.Proofs.Bus.Calls
import Mathlib.Algebra.Ring.Nat
import Mathlib.Data.List.Chain

/-!
# Cycles of the bus

A reset, a byte and a start-up are each a cycle of calls that begins and ends with the lines at rest.
So a cycle depends on nothing that went before but on whether the interface is selected, and a row of
cycles (`Cycle.trace`) is told by what each of them is.

* `Cycle.getLast?_levels_trace` — the lines stay as the last cycle left them
* `Cycle.isChain_levels_trace` — the clock stays as it is while `PROGRAM_B` or `INIT_B` is low
* `Cycle.data_trace` — what is put on the data pins
-/

namespace BitstreamUpload

/-! ## Levels -/

namespace Lines

/-- Lines between two operations: nothing is asserted and the clock is low. -/
def resting (selected : Bool) : Lines where
  program := true
  init := true
  clock := false
  selected

/-- The clock may only move while `PROGRAM_B` and `INIT_B` are high, before and after. -/
def EdgeAllowed (l l' : Lines) : Prop :=
  l.clock ≠ l'.clock → l.program = true ∧ l.init = true ∧ l'.program = true ∧ l'.init = true

instance (l l' : Lines) : Decidable (EdgeAllowed l l') :=
  inferInstanceAs (Decidable (_ → _))

/-- Levels with `PROGRAM_B` and `INIT_B` high may follow each other in any way. -/
theorem isChain_of_high {levels : List Lines}
    (h : ∀ l ∈ levels, l.program = true ∧ l.init = true) : levels.IsChain EdgeAllowed := by
  refine (List.pairwise_of_forall_mem_list fun l hl l' hl' _ => ?_).isChain
  exact ⟨(h l hl).1, (h l hl).2, (h l' hl').1, (h l' hl').2⟩

end Lines

/-- The levels of a call that drives the control lines. -/
def BusCall.lines? : BusCall → Option Lines
  | lines levels => some levels
  | _ => none

/-- All levels that some calls drive on the control lines, in order. -/
def levels (calls : List BusCall) : List Lines :=
  calls.filterMap BusCall.lines?

theorem levels_append (calls calls' : List BusCall) :
    levels (calls ++ calls') = levels calls ++ levels calls' :=
  List.filterMap_append

theorem levels_samples (sampled : List Bool) : levels (sampled.map BusCall.sample) = [] := by
  rw [levels, List.filterMap_map, List.filterMap_eq_nil_iff]
  exact fun _ _ => rfl

namespace Bus

/-- Whether the interface is selected behind an operation, given whether it was before. -/
def Operation.selects (selected : Bool) : Operation → Bool
  | reset => true
  | startUp => false
  | send _ | confirm => selected

/-! ## Cycles -/

/-- What an operation does on the bus, with the levels of `INIT_B` that it reads. -/
inductive Cycle where
  | reset (sampled : List Bool)
  | byte (value : UInt8)
  | startUp (high : Bool)
deriving DecidableEq, Repr

namespace Cycle

/-- The operation that a cycle is done for. -/
def operation : Cycle → Operation
  | reset _ => .reset
  | byte value => .send value
  | startUp _ => .startUp

/-- The calls of a cycle that begins with the interface selected or not. -/
def calls (board : Board) (selected : Bool) : Cycle → List BusCall
  | reset sampled => resetCalls board (.resting selected) sampled
  | byte value => byteCalls board (.resting selected) value
  | startUp high => startUpCalls board (.resting selected) high

/-- The calls of a row of cycles. -/
def trace (board : Board) : Bool → List Cycle → List BusCall
  | _, [] => []
  | selected, c :: cycles =>
    c.calls board selected ++ trace board (c.operation.selects selected) cycles

/-- What a cycle puts on the data pins. -/
def pins (board : Board) : Cycle → List UInt8
  | byte value => [board.bitOrder.apply value]
  | reset _ | startUp _ => []

/-- How often the clock rises in a cycle. -/
def edges (board : Board) : Cycle → Nat
  | reset _ => 0
  | byte _ => 1
  | startUp _ => board.startupClocks

end Cycle

/-! ## Levels of a cycle -/

theorem levels_pulses (n : Nat) (l : Lines) :
    levels (List.replicate n (pulseCalls l)).flatten
      = (List.replicate n [{ l with clock := true }, { l with clock := false }]).flatten := by
  induction n with
  | zero => rfl
  | succ n ih =>
    rw [List.replicate_succ, List.flatten_cons, levels_append, ih]
    rfl

/-- A cycle ends with the lines at rest, and moves the clock only where it may. -/
theorem Cycle.levels_calls (board : Board) (selected : Bool) (c : Cycle) :
    ∃ early, levels (c.calls board selected) = early ++ [.resting (c.operation.selects selected)]
      ∧ (.resting selected :: (early ++ [.resting (c.operation.selects selected)])).IsChain
        Lines.EdgeAllowed := by
  cases c with
  | reset sampled =>
    -- The clock is low from the first to the last line update.
    let early : List Lines := [⟨false, true, false, false⟩, ⟨false, false, false, false⟩,
      ⟨true, false, false, false⟩]
    refine ⟨early, ?_, ?_⟩
    · rw [calls, resetCalls, levels_append, levels_append, levels_samples]
      rfl
    · show (.resting selected :: (early ++ [.resting true])).IsChain Lines.EdgeAllowed
      cases selected <;> decide
  | byte value =>
    refine ⟨[{ Lines.resting selected with clock := true }], rfl, ?_⟩
    show [.resting selected, { Lines.resting selected with clock := true },
      .resting selected].IsChain Lines.EdgeAllowed
    cases selected <;> decide
  | startUp high =>
    -- `PROGRAM_B` and `INIT_B` are high from the first to the last line update.
    refine ⟨_, by rw [calls, startUpCalls, levels_append, levels_pulses]; rfl, ?_⟩
    refine Lines.isChain_of_high fun l hl => ?_
    simp only [List.mem_cons, List.mem_append, List.mem_flatten, List.mem_replicate] at hl
    rcases hl with rfl | ⟨_, ⟨-, rfl⟩, hl⟩ | rfl | hl
    · exact ⟨rfl, rfl⟩
    · simp only [List.mem_cons, List.not_mem_nil, or_false] at hl
      rcases hl with rfl | rfl <;> exact ⟨rfl, rfl⟩
    · exact ⟨rfl, rfl⟩
    · cases hl

theorem Cycle.isChain_levels_trace (board : Board) (cycles : List Cycle) (selected : Bool) :
    (.resting selected :: levels (trace board selected cycles)).IsChain Lines.EdgeAllowed := by
  induction cycles generalizing selected with
  | nil => exact List.IsChain.singleton _
  | cons c cycles ih =>
    obtain ⟨early, hlevels, hchain⟩ := c.levels_calls board selected
    rw [trace, levels_append, hlevels, List.append_assoc, ← List.cons_append]
    exact List.isChain_split.mpr ⟨hchain, ih _⟩

/-- The lines stay as the last cycle left them. -/
theorem Cycle.getLast?_levels_trace (board : Board) (cycles : List Cycle) (selected : Bool) :
    (.resting selected :: levels (trace board selected cycles)).getLast?
      = some (.resting ((cycles.map operation).foldl Operation.selects selected)) := by
  induction cycles generalizing selected with
  | nil => rfl
  | cons c cycles ih =>
    obtain ⟨early, hlevels, -⟩ := c.levels_calls board selected
    rw [trace, levels_append, hlevels, List.append_assoc, ← List.cons_append,
      List.getLast?_append, List.singleton_append, ih]
    rfl

theorem data_pulses (n : Nat) (l : Lines) :
    (List.replicate n (pulseCalls l)).flatten.filterMap BusCall.data? = [] := by
  rw [List.filterMap_eq_nil_iff]
  intro c hc
  simp only [pulseCalls, List.mem_flatten, List.mem_replicate] at hc
  obtain ⟨_, ⟨-, rfl⟩, hc⟩ := hc
  simp only [List.mem_cons, List.not_mem_nil, or_false] at hc
  rcases hc with rfl | rfl <;> rfl

theorem Cycle.data_calls (board : Board) (selected : Bool) (c : Cycle) :
    (c.calls board selected).filterMap BusCall.data? = c.pins board := by
  cases c with
  | reset sampled => exact data_resetCalls board (.resting selected) sampled
  | byte value => rfl
  | startUp high =>
    rw [calls, startUpCalls, List.filterMap_append, data_pulses]
    rfl

theorem Cycle.data_trace (board : Board) (cycles : List Cycle) (selected : Bool) :
    (trace board selected cycles).filterMap BusCall.data? = cycles.flatMap (pins board) := by
  induction cycles generalizing selected with
  | nil => rfl
  | cons c cycles ih => rw [trace, List.filterMap_append, data_calls, ih, List.flatMap_cons]

/-- A clock edge belongs to a byte or to a start-up. -/
theorem Cycle.sum_edges (board : Board) (cycles : List Cycle) :
    (cycles.map (edges board)).sum = (cycles.flatMap (pins board)).length
      + board.startupClocks * (cycles.map operation).count .startUp := by
  induction cycles with
  | nil => rfl
  | cons c cycles ih =>
    rw [List.map_cons, List.sum_cons, ih, List.flatMap_cons, List.length_append, List.map_cons,
      List.count_cons]
    cases c with
    | reset sampled => simp [edges, pins, operation]
    | byte value => simp [edges, pins, operation]; omega
    | startUp high => simp [edges, pins, operation, Nat.mul_add]; omega

end Bus

end BitstreamUpload
