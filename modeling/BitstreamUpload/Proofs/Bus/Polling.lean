import BitstreamUpload.Proofs.Bus.Calls

/-!
# Waiting for `INIT_B`

How often a reset samples `INIT_B` is up to the target and to the board. `Target.levels` has the
levels that samples in a row read, and `Polled` says how polling ends that reads them: with the
first high one, or at the limit. `Bus.search_polled` is the law for the search, by induction on its
limit, and `Bus.reset_polls` tells of a whole reset what it does around and after its samples.
-/

namespace BitstreamUpload

open Journal

/-- The levels of `INIT_B` that samples in a row read, with nothing else done in between. -/
def Target.levels {σ : Type} [Target σ] (target : σ) : Nat → Bool
  | 0 => initHigh target
  | k + 1 => levels (react target (.sample (initHigh target))) k

/-- How polling ends that reads these levels, the first of them at zero: whether the last sample was
high, and how many samples there were. -/
inductive Polled (levels : Nat → Bool) (limit : Nat) : Bool → Nat → Prop
  /-- The first high level is read within the limit, and nothing is read after it. -/
  | high {k : Nat} (hlimit : k < limit) (hhigh : levels k = true)
      (hlow : ∀ j < k, levels j = false) : Polled levels limit true (k + 1)
  /-- All levels within the limit are read, and all are low. -/
  | low (hlow : ∀ j < limit, levels j = false) : Polled levels limit false limit

namespace Polled

variable {levels : Nat → Bool} {limit n : Nat} {high : Bool}

theorem zero : Polled levels 0 false 0 :=
  low fun _ hj => absurd hj (Nat.not_lt_zero _)

/-- The first sample is enough if it is high. -/
theorem first (h : levels 0 = true) : Polled levels (limit + 1) true 1 :=
  high (Nat.succ_pos limit) h fun _ hj => absurd hj (Nat.not_lt_zero _)

/-- A low sample comes before those that follow it. -/
theorem after_low (h : levels 0 = false) (hrest : Polled (fun k => levels (k + 1)) limit high n) :
    Polled levels (limit + 1) high (n + 1) := by
  have shift {m : Nat} (hlow : ∀ j < m, levels (j + 1) = false) :
      ∀ j < m + 1, levels j = false := by
    intro j hj
    cases j with
    | zero => exact h
    | succ j => exact hlow j (Nat.lt_of_succ_lt_succ hj)
  cases hrest with
  | high hlimit hhigh hlow => exact .high (Nat.succ_lt_succ hlimit) hhigh (shift hlow)
  | low hlow => exact .low (shift hlow)

end Polled

namespace Bus

variable {board : Board} {σ : Type} [Target σ]

/-- A search for a high level reads the levels of its target and ends as polling does. -/
theorem search_polled (limit : Nat) (bus : Bus board σ) :
    let levels := Target.levels bus.target
    let found := Recorded.search sample limit bus
    Polled levels limit found.value.found found.value.tries
      ∧ samples found.entries = (List.range found.value.tries).map levels := by
  induction limit generalizing bus with
  | zero => exact ⟨.zero, rfl⟩
  | succ limit ih =>
    have hsample (j : Journal) (high : Bool) :
        samples (.call (.sample high) :: j) = high :: samples j := rfl
    simp only [Recorded.search_succ]
    cases h : Target.initHigh bus.target with
    | true =>
      simp only [Recorded.value_bind, Recorded.entries_bind, high_sample, h, if_pos,
        Recorded.value_pure, Recorded.entries_pure, entries_sample]
      exact ⟨.first h, congrArg (fun level => [level]) h.symm⟩
    | false =>
      -- The search goes on from the target behind the sample, whose levels are the later ones.
      obtain ⟨hpolled, hsamples⟩ := ih bus.sample.value.2
      simp only [Recorded.value_bind, Recorded.entries_bind, high_sample, h, Bool.false_eq_true,
        if_false, Recorded.value_pure, Recorded.entries_pure, entries_sample, List.append_nil,
        List.singleton_append, hsample]
      refine ⟨.after_low h hpolled, ?_⟩
      rw [hsamples, List.range_succ_eq_map, List.map_cons, List.map_map]
      exact congrArg (· :: _) h.symm

/-- A reset lets go of `INIT_B` and selects the interface, then polls `INIT_B`, and then switches
the data pins to output. It reads the levels that its target has for samples in a row, up to the
first high one, and no more of them than the board allows. What it leaves in the status and in the
log depends on the samples alone, and the lines are ready for a bitstream, whatever was done
before. -/
theorem reset_polls {board : Board} {σ : Type} [Target σ] (bus : Bus board σ) :
    let levels := Target.levels bus.pulseProgram.value.target
    let after := bus.reset
    ∃ high n, Polled levels board.pollLimit high n
      ∧ after.entries.calls =
        [.lines { bus.lines with program := false, clock := false, selected := false },
          .lines { program := false, init := false, clock := false, selected := false },
          .lines { program := true, init := false, clock := false, selected := false },
          .wait board.pulseMicros,
          .lines { program := true, init := true, clock := false, selected := true }]
        ++ (List.range n).map (fun k => .sample (levels k)) ++ [.enableOutput]
      ∧ after.value.status = {
          unconfigured := true
          checksum := 0
          count := 0
          diagnostic := if high then 200 else 100
          initHigh := high
          bitOrder := bus.status.bitOrder }
      ∧ after.entries.notes.map (fun note => (note.level, note.text))
        = [if high then (.debug, s!"fpga reset, INIT_B high after {n} polls")
            else (.warn, s!"fpga reset, INIT_B still low after {n} polls")]
      ∧ after.value.lines
        = { program := true, init := true, clock := false, selected := true } := by
  intro levels after
  let found := bus.pulseProgram.value.awaitInit
  obtain ⟨hpolled, hsamples⟩ := search_polled board.pollLimit bus.pulseProgram.value
  obtain ⟨hfound, -⟩ := search_sample board.pollLimit bus.pulseProgram.value
  refine ⟨found.value.found, found.value.tries, hpolled, ?_, ?_, ?_, lines_reset bus⟩
  · have htaken : samples after.entries = (List.range found.value.tries).map levels :=
      (samples_reset bus).trans hsamples
    rw [calls_reset, htaken, resetCalls, List.map_map]
    rfl
  · have hsaw : sawHigh after.entries = found.value.found := by
      rw [sawHigh, samples_reset]
      exact hfound.symm
    rw [status_reset, hsaw]
    cases found.value.found <;> rfl
  · rw [notes_reset]
    show [_] = _
    cases found.value.found <;> rfl

end Bus

end BitstreamUpload
