import BitstreamUpload.Proofs.Bus.Bitstream
import BitstreamUpload.Proofs.BusDiscipline
import BitstreamUpload.Proofs.LoaderFunction.Delivery
import BitstreamUpload.Proofs.Responder.Upload
import BitstreamUpload.Target.Bench

/-!
# No chunk outlives its transfer

Behind each transfer no bytes of a chunk are outstanding, so the next chunk is taken like the first
one. Every operation of a function keeps it idle (`keepsIdle_step`), hence so does a whole run
(`keepsIdle_run`). `takes_every_chunk` has what follows for the chunks that reach a function.
-/

namespace BitstreamUpload

open Journal

namespace LoaderFunction

open Responder

variable {board : Board} {σ : Type}

/-! ## Operations -/

/-- Whether an operation brings all its bytes along. A reset has none. -/
def Operation.IsWhole : Operation → Prop
  | .control t => t.IsWhole
  | .busReset | .resetTarget => True

instance (op : Operation) : Decidable op.IsWhole :=
  match op with
  | .control t => inferInstanceAs (Decidable t.IsWhole)
  | .busReset | .resetTarget => inferInstanceAs (Decidable True)

variable {f : LoaderFunction board σ}

/-- A USB bus reset finds nothing to give up. -/
theorem busReset_of_idle (hidle : f.responder.isReceiving = false) : f.busReset = pure f := by
  unfold busReset
  rw [hidle, discard_of_idle hidle]
  rfl

/-- An operation leaves the function idle and notes no mishap. -/
structure KeepsIdle {α : Type} (x : Recorded (α × LoaderFunction board σ)) : Prop where
  idle : x.value.2.responder.isReceiving = false
  smooth : x.entries.IsSmooth

theorem keepsIdle_controlIn (hidle : f.responder.isReceiving = false) (setup : Setup) :
    KeepsIdle (f.controlIn setup) := by
  have hread : (f.responder.read setup).value.2.isReceiving = false := by
    rw [isReceiving_read]
    exact hidle
  have hsmooth := isSmooth_read setup f.responder
  unfold controlIn
  split
  · generalize f.responder.read setup = x at hread hsmooth ⊢
    obtain ⟨⟨reply, r⟩, j⟩ := x
    cases reply with
    | some bytes => exact ⟨hread, isSmooth_append.mpr ⟨hsmooth, isSmooth_nil⟩⟩
    | none => exact ⟨hread, isSmooth_append.mpr ⟨hsmooth, isSmooth_nil⟩⟩
  · exact ⟨hidle, isSmooth_nil⟩

variable [Target σ]

theorem step_control (t : Transfer) (f : LoaderFunction board σ) :
    step (.control t) f = (fun x => (some x.1, x.2)) <$> f.control t := rfl

theorem control_eq_controlIn {t : Transfer} (h : t.setup.direction = .toHost)
    (f : LoaderFunction board σ) : f.control t = f.controlIn t.setup := by
  rw [control, h]

theorem control_eq_controlOut {t : Transfer} (h : t.setup.direction = .toDevice)
    (f : LoaderFunction board σ) : f.control t = f.controlOut t.setup t.data := by
  rw [control, h]

/-- What is done with a request, by the answer to it. -/
def handlingOf : Answer → Handling
  | .accepted => .acknowledged
  | _ => .stalled

/-- An answer that is not pending is passed on as it is. -/
theorem controlOut_of_answered {setup : Setup} {data : List UInt8}
    (hclaims : claims setup = true)
    (hanswer : (deliver setup data f.responder).value.1 ≠ .pending) :
    f.controlOut setup data
      = (fun d => (handlingOf d.1, { f with responder := d.2 }))
        <$> deliver setup data f.responder := by
  unfold controlOut
  rw [if_pos hclaims, ← bind_pure_comp]
  generalize deliver setup data f.responder = d at hanswer ⊢
  obtain ⟨⟨a, r⟩, j⟩ := d
  cases a with
  | pending => exact absurd rfl hanswer
  | accepted => rfl
  | rejected => rfl

theorem wholeAnswer_ne_pending (command : Option Command) : wholeAnswer command ≠ .pending := by
  unfold wholeAnswer
  split <;> exact nofun

/-- A whole transfer to an idle function. -/
theorem controlOut_whole {t : Transfer} (hwhole : t.IsWhole)
    (hidle : f.responder.isReceiving = false) (hclaims : claims t.setup = true) :
    let d := deliver t.setup t.data f.responder
    f.controlOut t.setup t.data
        = (fun d => (handlingOf d.1, { f with responder := d.2 })) <$> d
      ∧ Delivers (wholeAnswer t.setup.command?) (wholeActs board t.data t.setup.command?)
        f.responder d := by
  intro d
  have hdelivers : Delivers _ _ f.responder d :=
    deliver_delivers hidle fun size hchunk => hwhole.length_eq hchunk
  have hanswer : d.value.1 ≠ .pending := by
    rw [hdelivers.answer]
    exact wholeAnswer_ne_pending _
  exact ⟨controlOut_of_answered hclaims hanswer, hdelivers⟩

theorem resetTarget_of_idle (hidle : f.responder.isReceiving = false) :
    f.resetTarget
      = (fun bus => { f with responder := { f.responder with bus } })
        <$> f.responder.bus.reset := by
  unfold resetTarget
  rw [discard_of_idle hidle, pure_bind, ← bind_pure_comp]

theorem keepsIdle_controlOut {t : Transfer} (hwhole : t.IsWhole)
    (hidle : f.responder.isReceiving = false) : KeepsIdle (f.controlOut t.setup t.data) := by
  cases hclaims : claims t.setup with
  | true =>
    obtain ⟨hcontrol, hdelivers⟩ := controlOut_whole hwhole hidle hclaims
    rw [hcontrol]
    refine ⟨hdelivers.idle, ?_⟩
    rw [Recorded.entries_map]
    exact hdelivers.smooth
  | false =>
    unfold controlOut
    rw [hclaims]
    exact ⟨hidle, isSmooth_nil⟩

theorem keepsIdle_step {op : Operation} (hwhole : op.IsWhole)
    (hidle : f.responder.isReceiving = false) : KeepsIdle (step op f) := by
  cases op with
  | control t =>
    have hcontrol : KeepsIdle (f.control t) := by
      cases hdirection : t.setup.direction with
      | toHost =>
        rw [control_eq_controlIn hdirection]
        exact keepsIdle_controlIn hidle t.setup
      | toDevice =>
        rw [control_eq_controlOut hdirection]
        exact keepsIdle_controlOut hwhole hidle
    refine ⟨hcontrol.idle, ?_⟩
    rw [step_control, Recorded.entries_map]
    exact hcontrol.smooth
  | busReset =>
    rw [step, busReset_of_idle hidle]
    exact ⟨hidle, isSmooth_nil⟩
  | resetTarget =>
    rw [step, resetTarget_of_idle hidle]
    refine ⟨hidle, ?_⟩
    rw [Recorded.entries_map, Recorded.entries_map]
    exact Bus.isSmooth_reset f.responder.bus

/-- A function that is idle at first is idle after every run of whole transfers and resets, and no
mishap was noted on the way. -/
theorem keepsIdle_run {ops : List Operation} (hops : ∀ op ∈ ops, op.IsWhole)
    (hidle : f.responder.isReceiving = false) :
    (run step ops f).value.responder.isReceiving = false
      ∧ (run step ops f).entries.IsSmooth := by
  induction ops generalizing f with
  | nil => exact ⟨hidle, isSmooth_nil⟩
  | cons op ops ih =>
    obtain ⟨hop, hrest⟩ := List.forall_mem_cons.mp hops
    obtain ⟨hidle', hsmooth⟩ := keepsIdle_step hop hidle
    obtain ⟨hend, hsmooth'⟩ := ih hrest hidle'
    rw [run_cons, Recorded.value_bind, Recorded.entries_bind]
    exact ⟨hend, isSmooth_append.mpr ⟨hsmooth, hsmooth'⟩⟩

/-! ## Every chunk is taken -/

/-- The calls for a chunk with all its bytes: one byte after the other, and a start-up if it is the
last one of its bitstream. -/
theorem calls_wholeActs {bus : Bus board σ} (h : bus.lines.clock = false) (bytes : List UInt8)
    (size : UInt16) : ∃ high,
      (run Bus.step (wholeActs board bytes (some (.chunk size))) bus).entries.calls
        = bytes.flatMap (Bus.byteCalls board bus.lines)
          ++ if size = board.chunkSize then [] else Bus.startUpCalls board bus.lines high := by
  let sent := (run Bus.step (bytes.map .send) bus).value
  have hlines : sent.lines = bus.lines := Bus.lines_sends bytes h
  have hstartUp := (Bus.Does.startUp sent).calls_eq
  rw [Bus.calls_startUp (by rw [hlines, h]), hlines] at hstartUp
  refine ⟨sent.startUpLevel, ?_⟩
  rw [wholeActs, run_append, Recorded.entries_bind, calls_append, Bus.calls_sends bytes h]
  by_cases hsize : size = board.chunkSize
  · rw [if_pos hsize, if_pos hsize]
    rfl
  · rw [if_neg hsize, if_neg hsize, hstartUp]

/-- An idle function takes a chunk that comes with all its bytes. -/
theorem step_chunk (hidle : f.responder.isReceiving = false)
    (hclock : f.responder.bus.lines.clock = false) {t : Transfer} (hwhole : t.IsWhole)
    (hclaims : claims t.setup = true) {size : UInt16}
    (hchunk : t.setup.command? = some (.chunk size)) :
    let lines := f.responder.bus.lines
    (step (.control t) f).value.1 = some .acknowledged
      ∧ ∃ high, (step (.control t) f).entries.calls
        = t.data.flatMap (Bus.byteCalls board lines)
          ++ if size = board.chunkSize then [] else Bus.startUpCalls board lines high := by
  intro lines
  have hdirection : t.setup.direction = .toDevice := Setup.direction_of_command hchunk
  obtain ⟨hcontrol, hdelivers⟩ := controlOut_whole hwhole hidle hclaims
  rw [hchunk] at hdelivers
  obtain ⟨high, hcalls⟩ := calls_wholeActs hclock t.data size
  rw [step_control, control_eq_controlOut hdirection, hcontrol, Recorded.value_map,
    Recorded.value_map, Recorded.entries_map, Recorded.entries_map, hdelivers.answer,
    hdelivers.does.calls_eq]
  exact ⟨rfl, high, hcalls⟩

/-- After every run of whole transfers and resets the function is idle, and nothing was noted of a
chunk that did not go through. So it takes every chunk, of whatever size: the chunk is acknowledged,
each of its bytes is put on the data pins and clocked in, in order, and the target is started up
just if the chunk is not as long as the board's chunks are. -/
theorem takes_every_chunk {board : Board} {σ : Type} [Target σ] (interface stringIndex : UInt8)
    (target : σ) (identity : Identity) (ops : List Operation)
    (hops : ∀ op ∈ ops, op.IsWhole) :
    let after : Recorded (LoaderFunction board σ) :=
      connect interface stringIndex target identity >>= run step ops
    let f := after.value
    let lines := f.responder.bus.lines
    f.responder.isReceiving = false
      ∧ (∀ n ∈ after.entries.notes, n.isMishap = false)
      ∧ ∀ (t : Transfer) (size : UInt16), t.IsWhole → claims t.setup = true →
        t.setup.command? = some (.chunk size) →
        let taken := step (.control t) f
        t.data.length = size.toNat
          ∧ taken.value.1 = some .acknowledged
          ∧ ∃ high, taken.entries.calls = t.data.flatMap (Bus.byteCalls board lines)
            ++ if size = board.chunkSize then [] else Bus.startUpCalls board lines high := by
  intro after f lines
  let start : LoaderFunction board σ := (connect interface stringIndex target identity).value
  obtain ⟨hidle, hsmooth⟩ := keepsIdle_run (f := start) hops rfl
  have hclock : lines.clock = false :=
    ((controller board σ).disciplined ops (s := start) rfl).resting.1
  refine ⟨hidle, hsmooth, ?_⟩
  intro t size hwhole hclaims hchunk taken
  exact ⟨hwhole.length_eq hchunk, step_chunk hidle hclock hwhole hclaims hchunk⟩

/-- A chunk of three bytes ends a bitstream, and one of four bytes is taken behind it, with a USB
bus reset in between. -/
theorem takes_every_chunk_afterBusReset :
    let board : Board := { chunkSize := 4, pollLimit := 5, startupClocks := 3 }
    let bench : Bench := { init := .risesAfter 2 }
    let identity := Identity.basic (.replicate 4 0) (.replicate 4 0) (.replicate 10 0)
    let chunk (bytes : List UInt8) := Transfer.ofData (.sending Command.chunkCode 0) bytes
    let ops : List Operation := [.control (chunk [1, 2, 3]), .busReset]
    let f : LoaderFunction board Bench := (connect 0 4 bench identity >>= run step ops).value
    let lines := f.responder.bus.lines
    (∀ op ∈ ops, op.IsWhole)
      ∧ f.responder.isReceiving = false
      ∧ (chunk [4, 5, 6, 7]).IsWhole ∧ claims (chunk [4, 5, 6, 7]).setup = true
      ∧ (chunk [4, 5, 6, 7]).setup.command? = some (.chunk 4)
      ∧ (step (.control (chunk [4, 5, 6, 7])) f).value.1 = some .acknowledged
      ∧ (step (.control (chunk [4, 5, 6, 7])) f).entries.calls
        = [4, 5, 6, 7].flatMap (Bus.byteCalls board lines) := by
  intro board bench identity chunk ops f lines
  have hops : ∀ op ∈ ops, op.IsWhole := by decide
  have hwhole : (chunk [4, 5, 6, 7]).IsWhole := by decide
  have hchunk : (chunk [4, 5, 6, 7]).setup.command? = some (.chunk 4) := by decide
  obtain ⟨hidle, -, htakes⟩ := @takes_every_chunk board Bench _ 0 4 bench identity ops hops
  obtain ⟨-, hanswer, high, hcalls⟩ := htakes _ _ hwhole rfl hchunk
  rw [if_pos rfl, List.append_nil] at hcalls
  exact ⟨hops, hidle, hwhole, rfl, hchunk, hanswer, hcalls⟩

end LoaderFunction

end BitstreamUpload
