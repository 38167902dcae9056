import BitstreamUpload.Proofs.BusDiscipline
import BitstreamUpload.Proofs.Chunk.Agreement
import BitstreamUpload.Proofs.Responder.Replies
import BitstreamUpload.Proofs.StatusHistory
import BitstreamUpload.Proofs.Responder.Upload
import BitstreamUpload.Target.Bench

/-!
# A reset forgets the past

What a responder did before a reset of the target makes no difference behind it. The chunk that was
being received is given up, the lines are driven anew and the status is cleared. Three things are
left over: the size and the last flag of the chunk, which count for nothing until the next
announcement sets them, and the status record, which every read of the status writes before it is
sent.

`Match` relates responders that differ in nothing else. Their operations agree (`steps_agree`,
`works_agree`), and responders match behind a reset (`agrees_reset`).
-/

namespace BitstreamUpload

open Journal Recorded

namespace Responder

variable {board : Board} {σ τ : Type}

/-- Responders that differ in their targets, in the status record they last sent, and in what idle
chunks hold, unless it is known that those do not differ. -/
structure Match (known : Prop) (r : Responder board σ) (r' : Responder board τ) : Prop where
  bus : Bus.Match Eq r.bus r'.bus
  chunk : Chunk.Match known r.chunk r'.chunk
  identityRecord : r.identityRecord = r'.identityRecord

variable {known : Prop} {r : Responder board σ} {r' : Responder board τ}

/-- Two turns that cannot be told apart by their answers, their calls, or what the responder shows
behind them. -/
structure LooksLike (t : Turn Work Response (Responder board σ))
    (t' : Turn Work Response (Responder board τ)) : Prop where
  operation : t.operation = t'.operation
  answer : t.answer = t'.answer
  calls : t.entries.calls = t'.entries.calls
  status : t.after.bus.status = t'.after.bus.status
  lines : t.after.bus.lines = t'.after.bus.lines
  outstanding : t.after.chunk.outstanding = t'.after.chunk.outstanding
  receiving : t.after.isReceiving = t'.after.isReceiving

theorem Match.looksLike (h : Match known r r') {w : Work} {a : Response} {j j' : Journal}
    (hcalls : j.calls = j'.calls) : LooksLike ⟨w, a, j, r⟩ ⟨w, a, j', r'⟩ where
  operation := rfl
  answer := rfl
  calls := hcalls
  status := h.bus.status
  lines := h.bus.lines
  outstanding := h.chunk.outstanding_eq
  receiving := congrArg (!·) h.chunk.isIdle_eq

/-! ## Operations -/

theorem agrees_read (h : Match known r r') (setup : Setup) :
    Agrees (SameAnswer (Match known)) (r.read setup) (r'.read setup) := by
  unfold read
  rcases hcommand : setup.command? with _ | _ | _ | _ | size
  all_goals cases hlength : decide (0 < setup.length)
  case some.identity.true =>
    refine Agrees.pure ⟨?_, h⟩
    rw [h.identityRecord]
  case some.status.true =>
    refine Agrees.pure ⟨?_, h.bus, h.chunk, h.identityRecord⟩
    rw [h.bus.status]
  all_goals exact Agrees.noted _ ⟨rfl, h⟩

theorem agrees_discard (h : Match known r r') :
    Agrees (Match known) r.discard r'.discard :=
  (Chunk.agrees_discard h.chunk).bind fun _ _ hchunk =>
    Agrees.pure ⟨h.bus, hchunk, h.identityRecord⟩

variable [Target σ] [Target τ]

/-- An announcement tells what the chunks hold, even if it is refused. -/
theorem agrees_announcement (h : Match known r r') {setup : Setup} {size : UInt16}
    (hsetup : setup.command? = some (.chunk size)) :
    Agrees (SameAnswer (Match True)) (r.command setup) (r'.command setup) := by
  unfold command
  rw [hsetup]
  refine (Chunk.agrees_announce h.chunk h.bus size).bind ?_
  rintro ⟨outcome, chunk, bus⟩ ⟨outcome', chunk', bus'⟩ ⟨houtcome, hchunk, hbus⟩
  simp only at houtcome hchunk hbus
  subst houtcome
  refine (Agrees.refl _).bind ?_
  rintro answer _ rfl
  exact Agrees.pure ⟨rfl, hbus, hchunk, h.identityRecord⟩

theorem agrees_command (h : Match known r r') (setup : Setup) :
    Agrees (SameAnswer (Match known)) (r.command setup) (r'.command setup) := by
  rcases hcommand : setup.command? with _ | _ | _ | _ | size
  case some.chunk =>
    refine (agrees_announcement h hcommand).mono ?_
    rintro x x' ⟨hanswer, hafter⟩
    exact ⟨hanswer, hafter.bus, .of_eq (hafter.chunk.eq_of_known trivial), hafter.identityRecord⟩
  all_goals unfold command; rw [hcommand]
  case some.reset =>
    refine (agrees_discard h).bind fun r r' h => ?_
    have hreset := Bus.agrees_reset (congrArg Lines.init h.bus.lines)
      (congrArg Status.bitOrder h.bus.status)
    exact hreset.bind fun _ _ hbus => Agrees.pure ⟨rfl, hbus, h.chunk, h.identityRecord⟩
  all_goals exact Agrees.noted _ ⟨rfl, h⟩

theorem agrees_receive (h : Match known r r') (batch : List UInt8) :
    Agrees (SameAnswer (Match known)) (r.receive batch) (r'.receive batch) := by
  unfold receive
  refine (Chunk.agrees_receive h.chunk h.bus batch).exclusively.bind ?_
  rintro ⟨outcome, chunk, bus⟩ ⟨outcome', chunk', bus'⟩ ⟨houtcome, hchunk, hbus⟩
  simp only at houtcome hchunk hbus
  subst houtcome
  refine (Agrees.refl _).bind fun _ _ _ => (Agrees.refl _).bind ?_
  rintro answer _ rfl
  exact Agrees.pure ⟨rfl, hbus, hchunk, h.identityRecord⟩

/-- Nothing that is asked of matching responders tells them apart. -/
theorem steps_agree (known : Prop) :
    StepsAgree (Match known : Responder board σ → Responder board τ → Prop) step step := by
  intro op r r' h
  cases op with
  | read setup => exact (agrees_read h setup).mapAnswer Response.reply
  | command setup => exact (agrees_command h setup).mapAnswer Response.answer
  | receive batch => exact (agrees_receive h batch).mapAnswer Response.answer
  | discard => exact (agrees_discard h).map fun _ _ hafter => ⟨rfl, hafter⟩

theorem works_agree (known : Prop) :
    StepsAgree (Match known : Responder board σ → Responder board τ → Prop) work work := by
  intro w r r' h
  cases w with
  | request op => exact steps_agree known op r r' h
  | direct op =>
    refine (Bus.agrees_step h.bus op).map ?_
    rintro x x' ⟨-, hbus⟩
    exact ⟨rfl, hbus, h.chunk, h.identityRecord⟩

/-! ## Announcements -/

/-- Whether a chunk is announced. -/
def Work.Announces : Work → Prop
  | .request (.command setup) => ∃ size, setup.command? = some (.chunk size)
  | _ => False

/-- Behind an announcement, matching responders hold the same chunk. -/
theorem agrees_run_announced {ws : List Work} (hws : ∃ w ∈ ws, w.Announces) (h : Match known r r') :
    Agrees (Match True) (run work ws r) (run work ws r') := by
  obtain ⟨w, hw, hannounces⟩ := hws
  obtain ⟨before, behind, rfl⟩ := List.append_of_mem hw
  rw [run_append, run_append]
  refine ((works_agree known).agrees_run before h).bind fun r r' h => ?_
  rw [run_cons, run_cons]
  have hannounced : Agrees (SameAnswer (Match True)) (work w r) (work w r') := by
    rcases w with (setup | setup | batch | _) | op
    case request.command =>
      obtain ⟨size, hsetup⟩ := hannounces
      exact (agrees_announcement h hsetup).mapAnswer Response.answer
    all_goals exact hannounces.elim
  refine hannounced.bind ?_
  rintro x x' ⟨-, hafter⟩
  exact (works_agree True).agrees_run behind hafter

/-! ## A reset -/

/-- A responder behind a reset. -/
def afterReset (r : Responder board σ) : Responder board σ :=
  { r with chunk := r.chunk.ended, bus := r.bus.reset.value }

/-- With a reset, the chunk is given up and the bus is reset. -/
theorem work_reset {setup : Setup} (hsetup : setup.command? = some .reset) (r : Responder board σ) :
    work (.request (.command setup)) r
      = ⟨(.answer .accepted, r.afterReset), r.chunk.discard.entries ++ r.bus.reset.entries⟩ := by
  show step (.command setup) r = _
  rw [step_command]
  unfold command
  rw [hsetup]
  refine Recorded.ext rfl ?_
  simp [discard]

theorem samples_discard (chunk : Chunk) : chunk.discard.entries.samples = [] := by
  rw [samples_eq_calls, Chunk.calls_discard]
  rfl

/-- The samples of the reset come first, then those of the work behind it. -/
theorem reads_run_reset {setup : Setup} (hsetup : setup.command? = some .reset)
    {levels : Nat → Bool} {ws : List Work}
    (h : (run work (.request (.command setup) :: ws) r).entries.Reads levels) :
    r.bus.reset.entries.Reads levels
      ∧ (run work ws r.afterReset).entries.Reads
        (fun k => levels (r.bus.reset.entries.samples.length + k)) := by
  rw [run_cons, entries_bind, work_reset hsetup, List.append_assoc,
    reads_append_of_samples_eq_nil (samples_discard r.chunk)] at h
  exact reads_append.mp h

/-- After any work the lines are at rest, and the status has the bit order of the board. -/
theorem rested_run (board : Board) (target : σ) (identity : Identity) (ws : List Work) :
    let after : Recorded (Responder board σ) := connect target identity >>= run work ws
    after.value.bus.lines.init = true ∧ after.value.bus.status.bitOrder = board.bitOrder := by
  intro after
  have hlines := (worker board σ).disciplined ws (s := (connect target identity).value) rfl
  have hstatus := (worker board σ).accounts ws (s := (connect target identity).value) rfl
  exact ⟨hlines.resting.2.2, hstatus.status.bitOrder⟩

/-- Responders that had nothing to do with each other match behind a reset. -/
theorem match_afterReset {levels : Nat → Bool} (hinit : r.bus.lines.init = r'.bus.lines.init)
    (horder : r.bus.status.bitOrder = r'.bus.status.bitOrder)
    (hidentity : r.identityRecord = r'.identityRecord)
    (hreads : r.bus.reset.entries.Reads levels) (hreads' : r'.bus.reset.entries.Reads levels) :
    r.bus.reset.entries = r'.bus.reset.entries ∧ Match False r.afterReset r'.afterReset := by
  obtain ⟨hentries, hbus⟩ := Bus.agrees_reset hinit horder levels hreads hreads'
  exact ⟨hentries, hbus, .discarded r.chunk r'.chunk, hidentity⟩

/-! ## All that is behind a reset -/

/-- Take any two responders with the same identity and boards, whatever they hold and whatever was
done with them before, reset the target of both, and go on with the same work. As long as `INIT_B`
reads the same for both from the reset on, they answer the same, make the same calls, and show the
same status, lines and bytes outstanding after each turn. Behind the reset they also write the same
notes. From the next announcement on they hold the same chunk. -/
theorem reset_forgets_past {board : Board} {σ τ : Type} [Target σ] [Target τ] (target : σ)
    (target' : τ) (identity : Identity) (past past' : List Work) {setup : Setup}
    (hsetup : setup.command? = some .reset) (ws : List Work) (levels : Nat → Bool) :
    let r := (connect target identity >>= run work past : Recorded (Responder board σ)).value
    let r' := (connect target' identity >>= run work past' : Recorded (Responder board τ)).value
    let reset := Work.request (.command setup)
    (run work (reset :: ws) r).entries.Reads levels →
    (run work (reset :: ws) r').entries.Reads levels →
    List.Forall₂ LooksLike (turns work (reset :: ws) r) (turns work (reset :: ws) r')
      ∧ (turns work (reset :: ws) r).tail.map (·.entries)
        = (turns work (reset :: ws) r').tail.map (·.entries)
      ∧ ∀ before, before <+: ws → (∃ w ∈ before, w.Announces) →
        (run work (reset :: before) r).value.chunk
          = (run work (reset :: before) r').value.chunk := by
  intro r r' reset hreads hreads'
  obtain ⟨hreset, hrest⟩ := reads_run_reset hsetup hreads
  obtain ⟨hreset', hrest'⟩ := reads_run_reset hsetup hreads'
  obtain ⟨hinit, horder⟩ := rested_run board target identity past
  obtain ⟨hinit', horder'⟩ := rested_run board target' identity past'
  have hidentity : r.identityRecord = identity.wire := identityRecord_run past _
  have hidentity' : r'.identityRecord = identity.wire := identityRecord_run past' _
  obtain ⟨hentries, hmatch⟩ := match_afterReset (hinit.trans hinit'.symm)
    (horder.trans horder'.symm) (hidentity.trans hidentity'.symm) hreset hreset'
  -- From here on both read the same levels again.
  rw [← hentries] at hrest'
  have hturns := (works_agree False).forall₂_turns ws hmatch hrest hrest'
  have hfirst : LooksLike (turn work reset r) (turn work reset r') := by
    rw [turn, turn, work_reset hsetup, work_reset hsetup]
    refine hmatch.looksLike ?_
    rw [calls_append, calls_append, Chunk.calls_discard, Chunk.calls_discard, hentries]
  have hafter : (work reset r).value.2 = r.afterReset := by rw [work_reset hsetup]
  have hafter' : (work reset r').value.2 = r'.afterReset := by rw [work_reset hsetup]
  refine ⟨.cons hfirst ?_, ?_, ?_⟩
  · rw [hafter, hafter']
    refine hturns.imp ?_
    rintro ⟨w, a, j, s⟩ ⟨_, _, _, s'⟩ ⟨rfl, rfl, rfl, hs⟩
    exact hs.looksLike rfl
  · show (turns work ws (work reset r).value.2).map _
      = (turns work ws (work reset r').value.2).map _
    rw [hafter, hafter', ← List.forall₂_eq_eq_eq, List.forall₂_map_left_iff,
      List.forall₂_map_right_iff]
    exact hturns.imp fun _ _ h => h.2.2.1
  · rintro before ⟨behind, rfl⟩ hannounced
    rw [run_append, entries_bind, reads_append] at hrest hrest'
    obtain ⟨-, hchunk⟩ := agrees_run_announced hannounced hmatch _ hrest.1 hrest'.1
    rw [run_cons, run_cons, value_bind, value_bind, hafter, hafter']
    exact hchunk.chunk.eq_of_known trivial

/-- One responder has done nothing yet, the other one was reset before and is in the middle of a
chunk. After a reset both take a last chunk of one byte and tell their status. -/
theorem reset_forgets_past_midChunk :
    let board : Board := { chunkSize := 4, pollLimit := 2, startupClocks := 1 }
    let bench : Bench := { init := .script [false, true, false] }
    let bench' : Bench := { init := .script [true, false, true, false] }
    let identity := Identity.basic (.replicate 4 0) (.replicate 4 0) (.replicate 10 0)
    let reset := Work.request (.command (.sending Command.resetCode 0))
    let past' : List Work := [reset, .request (.command (.sending Command.chunkCode 3)),
      .request (.receive [7])]
    let r : Responder board Bench := (connect bench identity).value
    let r' : Responder board Bench := (connect bench' identity >>= run work past').value
    let ws : List Work := [.request (.command (.sending Command.chunkCode 1)),
      .request (.receive [9])]
    let levels : Nat → Bool := fun k => k == 1
    r.chunk ≠ r'.chunk
      ∧ (run work (reset :: ws) r).entries.Reads levels
      ∧ (run work (reset :: ws) r').entries.Reads levels
      ∧ List.Forall₂ LooksLike (turns work (reset :: ws) r) (turns work (reset :: ws) r')
      ∧ (run work (reset :: ws) r).value.chunk = (run work (reset :: ws) r').value.chunk := by
  intro board bench bench' identity reset past' r r' ws levels
  have hreads : (run work (reset :: ws) r).entries.Reads levels := by decide +kernel
  have hreads' : (run work (reset :: ws) r').entries.Reads levels := by decide +kernel
  obtain ⟨hturns, -, hchunk⟩ := reset_forgets_past bench bench' identity [] past' rfl ws levels
    hreads hreads'
  have hannounced : ∃ w ∈ ws, w.Announces := ⟨_, List.mem_cons_self, 1, rfl⟩
  exact ⟨by decide +kernel, hreads, hreads', hturns,
    hchunk ws (List.prefix_refl ws) hannounced⟩

end Responder

end BitstreamUpload
