import BitstreamUpload.Proofs.Bus.Cycle
import BitstreamUpload.Target.Bench

/-!
# What a target latches

A bench latches the data pins at the first rising clock edge after each write. `Bench.Took` puts down
what it makes of a stretch of calls, and goes through concatenation. So `Bench.took_trace`, the law
for a row of cycles, is put together from the law for one cycle, and that from clock pulses and from
calls that make no edge.
-/

namespace BitstreamUpload

namespace Bench

/-- Nothing waits to be latched, and the clock is low. -/
structure Settled (b : Bench) : Prop where
  fresh : b.fresh = false
  clock : b.lines.clock = false

/-- With these calls the bench latches `pins`, the first one first, and sees the clock rise so
often. Nothing is left to be latched. -/
structure Took (b : Bench) (calls : List BusCall) (pins : List UInt8) (edges : Nat) : Prop where
  settled : (calls.foldl react b).Settled
  latched : (calls.foldl react b).latched = pins.reverse ++ b.latched
  clocks : (calls.foldl react b).clocks = b.clocks + edges

theorem Took.nil {b : Bench} (hb : b.Settled) : b.Took [] [] 0 :=
  ⟨hb, rfl, rfl⟩

theorem Took.append {b : Bench} {calls calls' : List BusCall} {pins pins' : List UInt8}
    {edges edges' : Nat} (h : b.Took calls pins edges)
    (h' : (calls.foldl react b).Took calls' pins' edges') :
    b.Took (calls ++ calls') (pins ++ pins') (edges + edges') where
  settled := by
    rw [List.foldl_append]
    exact h'.settled
  latched := by
    rw [List.foldl_append, h'.latched, h.latched, List.reverse_append, List.append_assoc]
  clocks := by
    rw [List.foldl_append, h'.clocks, h.clocks, Nat.add_assoc]

/-- Calls that neither write the data pins nor raise the clock. -/
def IsQuiet : BusCall → Prop
  | .lines levels => levels.clock = false
  | .data _ => False
  | .sample _ | .enableOutput | .wait _ => True

/-- What a line update means to the bench, by whether the clock rises with it. -/
theorem setLines_facts (b : Bench) (l : Lines) :
    let rises := !b.lines.clock && l.clock
    (b.setLines l).lines = l ∧ (b.setLines l).fresh = (b.fresh && !rises)
      ∧ (b.setLines l).latched = (if rises && b.fresh then [b.pins] else []) ++ b.latched
      ∧ (b.setLines l).clocks = b.clocks + rises.toNat := by
  intro rises
  unfold setLines
  cases l.program <;> cases hb : b.lines.clock <;> cases hl : l.clock <;> cases hf : b.fresh <;>
    simp [rises, hb, hl, hf]

theorem took_quiet_call {c : BusCall} (hc : IsQuiet c) {b : Bench} (hb : b.Settled) :
    b.Took [c] [] 0 := by
  obtain ⟨hfresh, hclock⟩ := hb
  cases c with
  | data pins => exact hc.elim
  | enableOutput => exact ⟨⟨hfresh, hclock⟩, rfl, rfl⟩
  | wait micros => exact ⟨⟨hfresh, hclock⟩, rfl, rfl⟩
  | sample high =>
    -- A sample moves the model of `INIT_B` on and nothing else that counts here.
    have hcount : b.countSample.Settled ∧ b.countSample.latched = b.latched
        ∧ b.countSample.clocks = b.clocks := by
      unfold countSample
      dsimp only
      split
      · split <;> exact ⟨⟨hfresh, hclock⟩, rfl, rfl⟩
      · exact ⟨⟨hfresh, hclock⟩, rfl, rfl⟩
      · exact ⟨⟨hfresh, hclock⟩, rfl, rfl⟩
    exact ⟨hcount.1, hcount.2.1, hcount.2.2⟩
  | lines l =>
    have hlow : l.clock = false := hc
    obtain ⟨hl, hf, hlatched, hclocks⟩ := b.setLines_facts l
    rw [hlow, Bool.and_false] at hf hlatched hclocks
    exact ⟨⟨by rw [hfresh] at hf; exact hf, by rw [← hlow, ← hl]; rfl⟩, hlatched, hclocks⟩

theorem took_quiet {calls : List BusCall} (hcalls : ∀ c ∈ calls, IsQuiet c) {b : Bench}
    (hb : b.Settled) : b.Took calls [] 0 := by
  induction calls generalizing b with
  | nil => exact Took.nil hb
  | cons c calls ih =>
    have hone := took_quiet_call (hcalls c List.mem_cons_self) hb
    exact hone.append (ih (fun c' hc' => hcalls c' (List.mem_cons_of_mem c hc')) hone.settled)

/-- A clock pulse latches the data pins if they were written. -/
theorem pulse_facts (l : Lines) {b : Bench} (hclock : b.lines.clock = false) :
    let after := (Bus.pulseCalls l).foldl react b
    after.Settled ∧ after.latched = (if b.fresh then [b.pins] else []) ++ b.latched
      ∧ after.clocks = b.clocks + 1 := by
  intro after
  obtain ⟨hl, hf, hlatched, hclocks⟩ := b.setLines_facts { l with clock := true }
  obtain ⟨hl', hf', hlatched', hclocks'⟩ :=
    (b.setLines { l with clock := true }).setLines_facts { l with clock := false }
  simp only [hclock] at hf hlatched hclocks
  simp only [hl, hf, hlatched, hclocks] at hf' hlatched' hclocks'
  refine ⟨⟨?_, congrArg Lines.clock hl'⟩, ?_, hclocks'⟩
  · exact hf'.trans (by cases b.fresh <;> rfl)
  · exact hlatched'.trans (by cases b.fresh <;> rfl)

theorem took_pulse (l : Lines) {b : Bench} (hb : b.Settled) : b.Took (Bus.pulseCalls l) [] 1 := by
  obtain ⟨hsettled, hlatched, hclocks⟩ := pulse_facts l hb.clock
  rw [hb.fresh] at hlatched
  exact ⟨hsettled, hlatched, hclocks⟩

theorem took_pulses (n : Nat) (l : Lines) {b : Bench} (hb : b.Settled) :
    b.Took (List.replicate n (Bus.pulseCalls l)).flatten [] n := by
  induction n generalizing b with
  | zero => exact Took.nil hb
  | succ n ih =>
    have hone := took_pulse l hb
    rw [List.replicate_succ, List.flatten_cons, Nat.add_comm n 1]
    exact hone.append (ih hone.settled)

/-- A byte is latched by the clock pulse that comes with it. -/
theorem took_byte (board : Board) (l : Lines) (value : UInt8) {b : Bench} (hb : b.Settled) :
    b.Took (Bus.byteCalls board l value) [board.bitOrder.apply value] 1 := by
  have hwritten : (b.react (.data (board.bitOrder.apply value))).lines.clock = false := hb.clock
  obtain ⟨hsettled, hlatched, hclocks⟩ := pulse_facts l hwritten
  exact ⟨hsettled, hlatched, hclocks⟩

theorem took_cycle (board : Board) (selected : Bool) (c : Bus.Cycle) {b : Bench}
    (hb : b.Settled) : b.Took (c.calls board selected) (c.pins board) (c.edges board) := by
  cases c with
  | reset sampled =>
    refine took_quiet (fun c hc => ?_) hb
    simp only [Bus.Cycle.calls, Bus.resetCalls, List.mem_append, List.mem_cons, List.mem_map,
      List.not_mem_nil, or_false] at hc
    rcases hc with ((rfl | rfl | rfl | rfl | rfl) | ⟨_, -, rfl⟩) | rfl
    all_goals trivial
  | byte value => exact took_byte board (.resting selected) value hb
  | startUp high =>
    have hpulses := took_pulses board.startupClocks (.resting selected) hb
    refine hpulses.append (took_quiet (fun c hc => ?_) hpulses.settled)
    simp only [List.mem_cons, List.not_mem_nil, or_false] at hc
    rcases hc with rfl | rfl
    · exact trivial
    · exact rfl

/-- In a row of cycles, all that is put on the data pins is latched, once and in order, and the clock
rises for that and for start-ups. -/
theorem took_trace (board : Board) (cycles : List Bus.Cycle) (selected : Bool) {b : Bench}
    (hb : b.Settled) :
    b.Took (Bus.Cycle.trace board selected cycles) (cycles.flatMap (Bus.Cycle.pins board))
      (cycles.map (Bus.Cycle.edges board)).sum := by
  induction cycles generalizing selected b with
  | nil => exact Took.nil hb
  | cons c cycles ih =>
    have hone := took_cycle board selected c hb
    rw [Bus.Cycle.trace, List.flatMap_cons, List.map_cons, List.sum_cons]
    exact hone.append (ih _ hone.settled)

end Bench

end BitstreamUpload
