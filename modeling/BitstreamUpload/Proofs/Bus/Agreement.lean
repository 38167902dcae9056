import BitstreamUpload.Bus
import BitstreamUpload.Proofs.Agreement

/-!
# Two buses side by side

Two buses `Match` if they drive the same levels and keep the same status, whatever hangs on them.
Each operation of a bus agrees with itself on buses that match. A reset asks for far less: that both
leave `INIT_B` alike beforehand and have the same bit order (`agrees_reset`). It is what makes buses
match that had nothing to do with each other.

The clock, the lines and the samples do not touch the status, so their lemmas leave open how the two
status are related.
-/

namespace BitstreamUpload

open Recorded

namespace Bus

variable {board : Board} {σ τ : Type}

/-- Buses that drive the same levels, with status that are related by `S`. -/
structure Match (S : Status → Status → Prop) (bus : Bus board σ) (bus' : Bus board τ) : Prop where
  lines : bus.lines = bus'.lines
  status : S bus.status bus'.status

variable {S : Status → Status → Prop} {bus : Bus board σ} {bus' : Bus board τ}

theorem match_confirm (h : Match Eq bus bus') : Match Eq bus.confirm bus'.confirm :=
  ⟨h.lines, congrArg Status.confirm h.status⟩

variable [Target σ] [Target τ]

theorem agrees_issue (h : Match S bus bus') (call : BusCall) :
    Agrees (Match S) (bus.issue call) (bus'.issue call) :=
  fun _ _ _ => ⟨rfl, h.lines, h.status⟩

/-- What the levels were before does not matter. -/
theorem agrees_drive {lines lines' : Lines} (hlines : lines = lines')
    (h : S bus.status bus'.status) :
    Agrees (Match S) (bus.drive lines) (bus'.drive lines') := by
  subst hlines
  exact fun _ _ _ => ⟨rfl, rfl, h⟩

/-- Two samples that read the same level are the same. -/
theorem agrees_sample (h : Match S bus bus') :
    Agrees (SameAnswer (Match S)) bus.sample bus'.sample := by
  intro levels hreads hreads'
  have hlevel : Target.initHigh bus.target = Target.initHigh bus'.target :=
    (Journal.reads_sample hreads).trans (Journal.reads_sample hreads').symm
  refine ⟨?_, hlevel, h.lines, h.status⟩
  show [Entry.call (.sample (Target.initHigh bus.target))] = _
  rw [hlevel]
  rfl

theorem agrees_pulse (h : Match S bus bus') : Agrees (Match S) bus.pulse bus'.pulse := by
  unfold pulse
  refine (agrees_drive (congrArg (fun l => { l with clock := true }) h.lines) h.status).bind ?_
  intro bus bus' h
  exact agrees_drive (congrArg (fun l => { l with clock := false }) h.lines) h.status

theorem agrees_send (h : Match Eq bus bus') (byte : UInt8) :
    Agrees (Match Eq) (bus.send byte) (bus'.send byte) := by
  unfold send
  refine (agrees_issue h _).bind fun bus bus' h => ?_
  refine (agrees_pulse h).bind fun bus bus' h => ?_
  exact Agrees.pure ⟨h.lines, congrArg (·.countByte byte) h.status⟩

theorem agrees_sendAll (h : Match Eq bus bus') (bytes : List UInt8) :
    Agrees (Match Eq) (bus.sendAll bytes) (bus'.sendAll bytes) :=
  Agrees.foldl (fun byte _ _ h => agrees_send h byte) bytes h

theorem agrees_startUp (h : Match Eq bus bus') :
    Agrees (Match Eq) bus.startUp bus'.startUp := by
  unfold startUp
  have hpulses : Agrees (Match Eq) (Recorded.iterate pulse board.startupClocks bus)
      (Recorded.iterate pulse board.startupClocks bus') :=
    Agrees.iterate (fun _ _ h => agrees_pulse h) _ h
  refine hpulses.bind fun bus bus' h => ?_
  refine (agrees_sample h).bind ?_
  rintro ⟨high, bus⟩ ⟨high', bus'⟩ ⟨hhigh, h⟩
  simp only at hhigh h
  subst hhigh
  have hsampled : Match Eq ({ bus with status := bus.status.checkpoint .startUp high } : Bus board σ)
      ({ bus' with status := bus'.status.checkpoint .startUp high } : Bus board τ) :=
    ⟨h.lines, congrArg (·.checkpoint .startUp high) h.status⟩
  refine (agrees_drive (congrArg (fun l => { l with selected := false }) hsampled.lines)
    hsampled.status).bind ?_
  intro bus bus' h
  rw [h.status]
  exact Agrees.noted _ h

/-- Once the lines are driven anew, all that counts of the earlier levels is how `INIT_B` was
driven. -/
theorem agrees_pulseProgram (hinit : bus.lines.init = bus'.lines.init)
    (hstatus : S bus.status bus'.status) :
    Agrees (Match S) bus.pulseProgram bus'.pulseProgram := by
  unfold pulseProgram
  refine (agrees_drive (congrArg (fun init => ⟨false, init, false, false⟩) hinit) hstatus).bind ?_
  intro bus bus' h
  refine (agrees_drive (congrArg (fun l => { l with init := false }) h.lines) h.status).bind ?_
  intro bus bus' h
  refine (agrees_drive (congrArg (fun l => { l with program := true }) h.lines) h.status).bind ?_
  intro bus bus' h
  refine (agrees_issue h _).bind fun bus bus' h => ?_
  exact agrees_drive (congrArg (fun l => { l with init := true, selected := true }) h.lines)
    h.status

/-- A checkpoint overwrites what clearing leaves of a status, but for the bit order. -/
theorem checkpoint_clear_congr {s s' : Status} (h : s.bitOrder = s'.bitOrder)
    (c : Status.Checkpoint) (high : Bool) :
    s.clear.checkpoint c high = s'.clear.checkpoint c high := by
  simp only [Status.clear, Status.checkpoint, h]

/-- Buses match behind a reset, whatever was done on them before. -/
theorem agrees_reset (hinit : bus.lines.init = bus'.lines.init)
    (horder : bus.status.bitOrder = bus'.status.bitOrder) :
    Agrees (Match Eq) bus.reset bus'.reset := by
  unfold reset awaitInit
  refine (agrees_pulseProgram (S := fun s s' => s.bitOrder = s'.bitOrder) hinit horder).bind ?_
  intro bus bus' h
  refine (Agrees.search (fun _ _ h => agrees_sample h) board.pollLimit h).bind ?_
  rintro ⟨high, samples, bus⟩ ⟨high', samples', bus'⟩ ⟨hhigh, hsamples, h⟩
  simp only at hhigh hsamples h
  subst hhigh hsamples
  have hcleared : bus.status.clear.checkpoint .reset high
      = bus'.status.clear.checkpoint .reset high := checkpoint_clear_congr h.status _ _
  refine Agrees.bind (R := Match Eq) (fun _ _ _ => ⟨rfl, h.lines, hcleared⟩) fun bus bus' h => ?_
  exact Agrees.noted _ h

theorem agrees_step (h : Match Eq bus bus') (op : Operation) :
    Agrees (SameAnswer (Match Eq)) (step op bus) (step op bus') := by
  cases op with
  | reset =>
    have hreset := agrees_reset (congrArg Lines.init h.lines) (congrArg Status.bitOrder h.status)
    exact hreset.map fun _ _ h => ⟨rfl, h⟩
  | send byte => exact (agrees_send h byte).map fun _ _ h => ⟨rfl, h⟩
  | startUp => exact (agrees_startUp h).map fun _ _ h => ⟨rfl, h⟩
  | confirm => exact Agrees.pure ⟨rfl, match_confirm h⟩

end Bus

end BitstreamUpload
