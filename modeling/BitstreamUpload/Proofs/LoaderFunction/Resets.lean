import BitstreamUpload.Proofs.LoaderFunction.Idle

/-!
# Bus resets count for nothing, and a reset is a reset

A function is idle between its operations, so a reset of the USB bus finds nothing to give up, and
a reset of the target is the same whether the host asks for it or the firmware. So a run may be
edited: bus resets come in and go out anywhere, and either of the two resets stands in for the
other. `resets_interchangeable` has what stays the same in a run that is edited so, turn by turn.
-/

namespace BitstreamUpload

/-- One list is an edit of another one: `extra` items come in or go out, and all others stay in
their order or are replaced by what is `same`. -/
inductive Edited {α : Type} (extra : α → Prop) (same : α → α → Prop) : List α → List α → Prop where
  | nil : Edited extra same [] []
  | stays {a a' : α} {as as' : List α} (h : same a a') (hrest : Edited extra same as as') :
    Edited extra same (a :: as) (a' :: as')
  | inserted {a' : α} {as as' : List α} (h : extra a') (hrest : Edited extra same as as') :
    Edited extra same as (a' :: as')
  | deleted {a : α} {as as' : List α} (h : extra a) (hrest : Edited extra same as as') :
    Edited extra same (a :: as) as'

namespace LoaderFunction

/-- Operations of which either may stand for the other: the same one twice, or a reset of the target
by the host and one by the firmware. -/
inductive Interchangeable : Operation → Operation → Prop where
  | refl (op : Operation) : Interchangeable op op
  | byFirmware {t : Transfer} (hclaims : claims t.setup = true)
    (hreset : t.setup.command? = some .reset) : Interchangeable (.control t) .resetTarget
  | byHost {t : Transfer} (hclaims : claims t.setup = true)
    (hreset : t.setup.command? = some .reset) : Interchangeable .resetTarget (.control t)

variable {board : Board} {σ : Type}

/-- A bus reset that is neither answered nor leads to anything. -/
structure IsSilentReset (t : Turn Operation (Option Handling) (LoaderFunction board σ)) : Prop where
  operation : t.operation = .busReset
  answer : t.answer = none
  entries : t.entries = []

/-- Turns that write the same and leave the same function behind. The answer is the same too, unless
one of them answers a host and there is no host in the other. -/
structure SameEffect (t t' : Turn Operation (Option Handling) (LoaderFunction board σ)) : Prop where
  operation : Interchangeable t.operation t'.operation
  answer : t.operation = t'.operation → t.answer = t'.answer
  entries : t.entries = t'.entries
  after : t.after = t'.after

theorem Interchangeable.symm {op op' : Operation} (h : Interchangeable op op') :
    Interchangeable op' op := by
  cases h with
  | refl => exact .refl op
  | byFirmware hclaims hreset => exact .byHost hclaims hreset
  | byHost hclaims hreset => exact .byFirmware hclaims hreset

theorem SameEffect.symm {t t' : Turn Operation (Option Handling) (LoaderFunction board σ)}
    (h : SameEffect t t') : SameEffect t' t :=
  ⟨h.operation.symm, fun hop => (h.answer hop.symm).symm, h.entries.symm, h.after.symm⟩

variable [Target σ] {f : LoaderFunction board σ}

/-- A host that resets the target does what the firmware does, and is told so. -/
theorem step_reset_of_idle (hidle : f.responder.isReceiving = false) {t : Transfer}
    (hclaims : claims t.setup = true) (hreset : t.setup.command? = some .reset) :
    step (.control t) f = (some .acknowledged, ·) <$> f.resetTarget := by
  have hdeliver := deliver_eq_reset hreset hidle t.data
  have hanswer : (deliver t.setup t.data f.responder).value.1 ≠ .pending := by
    rw [hdeliver]
    exact nofun
  have hdirection : t.setup.direction = .toDevice := Setup.direction_of_command hreset
  rw [step_control, control_eq_controlOut hdirection, controlOut_of_answered hclaims hanswer,
    hdeliver, resetTarget_of_idle hidle, Functor.map_map, Functor.map_map, Functor.map_map]
  rfl

/-- In an idle function, operations that stand for one another have the same effect. -/
theorem sameEffect_turn (hidle : f.responder.isReceiving = false) {op op' : Operation}
    (h : Interchangeable op op') : SameEffect (turn step op f) (turn step op' f) := by
  have hreset {t : Transfer} (hclaims : claims t.setup = true)
      (hreset : t.setup.command? = some .reset) :
      SameEffect (turn step (.control t) f) (turn step .resetTarget f) := by
    have hcontrol := step_reset_of_idle hidle hclaims hreset
    have hfirmware : step .resetTarget f = (none, ·) <$> f.resetTarget := rfl
    refine ⟨.byFirmware hclaims hreset, nofun, ?_, ?_⟩
    · rw [turn, turn, hcontrol, hfirmware, Recorded.entries_map, Recorded.entries_map]
    · rw [turn, turn, hcontrol, hfirmware, Recorded.value_map, Recorded.value_map]
  cases h with
  | refl => exact ⟨.refl op, fun _ => rfl, rfl, rfl⟩
  | byFirmware hclaims hcommand => exact hreset hclaims hcommand
  | byHost hclaims hcommand => exact (hreset hclaims hcommand).symm

/-- A run that begins with a bus reset goes on as if there had been none. -/
theorem begin_busReset (hidle : f.responder.isReceiving = false) (ops : List Operation) :
    turns step (.busReset :: ops) f = ⟨.busReset, none, [], f⟩ :: turns step ops f
      ∧ run step (.busReset :: ops) f = run step ops f := by
  have hstep : step .busReset f = pure (none, f) := by
    rw [step, busReset_of_idle hidle]
    rfl
  constructor
  · rw [turns, hstep]
    rfl
  · rw [run_cons, hstep, pure_bind]

/-- An edit of what an idle function is to do is an edit of what it does. -/
theorem edited_turns {ops ops' : List Operation}
    (h : Edited (· = .busReset) Interchangeable ops ops')
    (hops : ∀ op ∈ ops, op.IsWhole) (hidle : f.responder.isReceiving = false) :
    Edited IsSilentReset SameEffect (turns step ops f) (turns step ops' f)
      ∧ run step ops' f = run step ops f := by
  -- Behind each item of the edit both runs are in the same state.
  induction h generalizing f with
  | nil => exact ⟨.nil, rfl⟩
  | @stays op op' ops ops' hsame hrest ih =>
    obtain ⟨hop, hops⟩ := List.forall_mem_cons.mp hops
    have heffect := sameEffect_turn hidle hsame
    have hentries : (step op f).entries = (step op' f).entries := heffect.entries
    have hafter : (step op f).value.2 = (step op' f).value.2 := heffect.after
    have hidle' := (keepsIdle_step hop hidle).idle
    obtain ⟨hturns, hrun⟩ := ih hops hidle'
    constructor
    · refine .stays heffect ?_
      rw [← hafter]
      exact hturns
    · rw [run_cons, run_cons]
      refine Recorded.ext ?_ ?_
      · rw [Recorded.value_bind, Recorded.value_bind, ← hafter, hrun]
      · rw [Recorded.entries_bind, Recorded.entries_bind, ← hafter, hrun, hentries]
  | @inserted op' ops ops' hextra hrest ih =>
    subst hextra
    obtain ⟨hturns', hrun'⟩ := begin_busReset hidle ops'
    obtain ⟨hturns, hrun⟩ := ih hops hidle
    rw [hturns', hrun']
    exact ⟨.inserted ⟨rfl, rfl, rfl⟩ hturns, hrun⟩
  | @deleted op ops ops' hextra hrest ih =>
    subst hextra
    obtain ⟨hturns', hrun'⟩ := begin_busReset hidle ops
    obtain ⟨hturns, hrun⟩ := ih (List.forall_mem_cons.mp hops).2 hidle
    rw [hturns', hrun']
    exact ⟨.deleted ⟨rfl, rfl, rfl⟩ hturns, hrun⟩

/-- A run of whole transfers and resets may be edited. Bus resets may come in and go out anywhere,
and a reset of the target may be asked for by the host instead of the firmware, or the other way
round. What comes in or goes out is silent. All other turns stay in their places: they answer the
same, up to the answer that only a host gets, write the same, and leave the same function behind. So
both runs have the same journal, and the same end. -/
theorem resets_interchangeable {board : Board} {σ : Type} [Target σ] (interface stringIndex : UInt8)
    (target : σ) (identity : Identity) {ops ops' : List Operation}
    (hops : ∀ op ∈ ops, op.IsWhole)
    (h : Edited (· = .busReset) Interchangeable ops ops') :
    let f : LoaderFunction board σ := (connect interface stringIndex target identity).value
    Edited IsSilentReset SameEffect (turns step ops f) (turns step ops' f)
      ∧ run step ops' f = run step ops f := by
  intro f
  exact edited_turns h hops rfl

/-- The host's reset before a chunk is done by the firmware, between two bus resets. -/
theorem resets_interchangeable_beforeChunk :
    let board : Board := { chunkSize := 4, pollLimit := 5, startupClocks := 3 }
    let bench : Bench := { init := .risesAfter 2 }
    let identity := Identity.basic (.replicate 4 0) (.replicate 4 0) (.replicate 10 0)
    let f : LoaderFunction board Bench := (connect 0 4 bench identity).value
    let reset : Transfer := { setup := .sending Command.resetCode 0 }
    let chunk := Transfer.ofData (.sending Command.chunkCode 0) [1, 2, 3]
    let ops : List Operation := [.control reset, .control chunk]
    let ops' : List Operation := [.busReset, .resetTarget, .busReset, .control chunk]
    (∀ op ∈ ops, op.IsWhole)
      ∧ Edited (· = .busReset) Interchangeable ops ops'
      ∧ Edited IsSilentReset SameEffect (turns step ops f) (turns step ops' f)
      ∧ run step ops' f = run step ops f := by
  intro board bench identity f reset chunk ops ops'
  have hops : ∀ op ∈ ops, op.IsWhole := by decide
  have hedited : Edited (· = .busReset) Interchangeable ops ops' := by
    refine .inserted rfl (.stays (.byFirmware rfl (by decide)) ?_)
    exact .inserted rfl (.stays (.refl _) .nil)
  obtain ⟨hturns, hrun⟩ := @resets_interchangeable board Bench _ 0 4 bench identity _ _ hops hedited
  exact ⟨hops, hedited, hturns, hrun⟩

end LoaderFunction

end BitstreamUpload
