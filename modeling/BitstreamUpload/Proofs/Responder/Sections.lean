import BitstreamUpload.Proofs.BusDiscipline
import BitstreamUpload.Proofs.Chunk.StartUp
import BitstreamUpload.Proofs.Sections

/-!
# Bytes are sent inside exclusive sections

A responder takes a batch inside an exclusive section, so that no interrupt falls between the bytes.
`takesInSection_receive` says what is inside and that only notes come behind it, and no other
operation has a section (`unmarked_step`) or sends a byte (`written_step_of_not_receive`). For a run
it follows that its sections neither overlap nor nest, and that each byte on the data pins lies in
the section of the batch it came with (`sends_exclusively`).
-/

namespace BitstreamUpload

open Journal

variable {board : Board} {σ : Type} [Target σ]

/-! ## Neither a bus nor a chunk marks a section -/

namespace Bus

theorem unmarked_issue (call : BusCall) (bus : Bus board σ) :
    Recorded.Writes (·.isMark = false) (bus.issue call) := by
  intro e he
  rw [List.mem_singleton.mp he]
  rfl

theorem unmarked_drive (lines : Lines) (bus : Bus board σ) :
    Recorded.Writes (·.isMark = false) (bus.drive lines) :=
  unmarked_issue _ _

theorem unmarked_sample (bus : Bus board σ) : Recorded.Writes (·.isMark = false) bus.sample :=
  (unmarked_issue _ bus).bind fun _ => .pure _

theorem unmarked_pulse (bus : Bus board σ) : Recorded.Writes (·.isMark = false) bus.pulse :=
  (unmarked_drive _ bus).bind fun _ => unmarked_drive _ _

theorem unmarked_sendAll (bytes : List UInt8) (bus : Bus board σ) :
    Recorded.Writes (·.isMark = false) (bus.sendAll bytes) := by
  refine .foldl (fun bus byte => ?_) bytes bus
  exact (unmarked_issue _ bus).bind fun bus => (unmarked_pulse bus).bind fun _ => .pure _

theorem unmarked_pulseProgram (bus : Bus board σ) :
    Recorded.Writes (·.isMark = false) bus.pulseProgram :=
  (unmarked_drive _ bus).bind fun bus => (unmarked_drive _ bus).bind fun bus =>
    (unmarked_drive _ bus).bind fun bus => (unmarked_issue _ bus).bind fun _ => unmarked_drive _ _

theorem unmarked_reset (bus : Bus board σ) : Recorded.Writes (·.isMark = false) bus.reset := by
  refine (unmarked_pulseProgram bus).bind fun bus => ?_
  refine (Recorded.Writes.search unmarked_sample _ bus).bind fun ⟨high, samples, bus⟩ => ?_
  refine (unmarked_issue _ _).bind fun _ => ?_
  exact .bind (.note rfl) fun _ => .pure _

theorem unmarked_startUp (bus : Bus board σ) : Recorded.Writes (·.isMark = false) bus.startUp := by
  refine (Recorded.Writes.iterate unmarked_pulse _ bus).bind fun bus => ?_
  refine (unmarked_sample bus).bind fun ⟨high, bus⟩ => ?_
  refine (unmarked_drive _ _).bind fun _ => ?_
  exact .bind (.note rfl) fun _ => .pure _

end Bus

namespace Chunk

theorem unmarked_complete (chunk : Chunk) (bus : Bus board σ) :
    Recorded.Writes (·.isMark = false) (chunk.complete bus) := by
  unfold complete
  split
  · exact bus.unmarked_startUp.bind fun _ => .pure _
  · exact .pure _

theorem unmarked_announce (size : UInt16) (chunk : Chunk) (bus : Bus board σ) :
    Recorded.Writes (·.isMark = false) (chunk.announce size bus) := by
  unfold announce
  split
  · exact .bind (.note rfl) fun _ => .pure _
  · refine .bind (.note rfl) fun _ => ?_
    split
    · exact unmarked_complete _ bus
    · exact .pure _

theorem unmarked_afterBatch (chunk : Chunk) (bus : Bus board σ) :
    Recorded.Writes (·.isMark = false)
      (if chunk.isIdle then chunk.complete bus else pure ⟨.ok .pending, chunk, bus⟩) := by
  split
  · exact unmarked_complete chunk bus
  · exact .pure _

theorem unmarked_receive (batch : List UInt8) (chunk : Chunk) (bus : Bus board σ) :
    Recorded.Writes (·.isMark = false) (chunk.receive batch bus) := by
  unfold receive
  split
  · exact .pure _
  · refine .bind (.noteWhen (by rfl) _) fun _ => ?_
    exact (bus.unmarked_sendAll _).bind fun bus => unmarked_afterBatch _ bus

theorem unmarked_discard (chunk : Chunk) : Recorded.Writes (·.isMark = false) chunk.discard :=
  .bind (.noteWhen (by rfl) _) fun _ => .pure _

/-- A batch configures the target just if it is answered as the end of a chunk, and the chunk is the
last one. -/
theorem receivePlan_configured_iff (batch : List UInt8) (chunk : Chunk) :
    (chunk.receivePlan batch).outcome = .ok .configured
      ↔ Answer.of (chunk.receivePlan batch).outcome = .accepted ∧ chunk.isLast = true := by
  rcases receivePlan_cases batch chunk with ⟨-, hplan⟩ | ⟨-, hplan⟩ | ⟨-, -, hplan⟩
  · rw [hplan]
    exact ⟨nofun, fun h => absurd h.1 nofun⟩
  · rw [hplan]
    exact ⟨nofun, fun h => absurd h.1 nofun⟩
  · have hlast : chunk.ended.isLast = chunk.isLast := rfl
    rw [hplan, outcome_completePlan, hlast]
    cases chunk.isLast with
    | true => exact ⟨fun _ => ⟨rfl, rfl⟩, fun _ => rfl⟩
    | false => exact ⟨nofun, nofun⟩

end Chunk

/-- A refusal is noted, and nothing else is written. -/
theorem Answer.writes_ofOutcome (outcome : Outcome) :
    Recorded.Writes (·.isNote = true) (ofOutcome outcome) := by
  cases outcome with
  | ok p => exact .pure _
  | error cause => exact .bind (.note rfl) fun _ => .pure _

theorem Answer.unmarked_ofOutcome (outcome : Outcome) :
    Recorded.Writes (·.isMark = false) (ofOutcome outcome) :=
  fun e he => Entry.isMark_of_isNote (writes_ofOutcome outcome e he)

namespace Responder

/-! ## Operations without a section -/

/-- Whether an operation brings bytes of a chunk. -/
def Operation.isReceive : Operation → Bool
  | receive _ => true
  | _ => false

omit [Target σ] in
theorem unmarked_discard (r : Responder board σ) :
    Recorded.Writes (·.isMark = false) r.discard :=
  (Chunk.unmarked_discard r.chunk).bind fun _ => .pure _

omit [Target σ] in
theorem unmarked_read (setup : Setup) (r : Responder board σ) :
    Recorded.Writes (·.isMark = false) (r.read setup) := by
  unfold read
  split
  · exact .pure _
  · exact .pure _
  · exact .bind (.note rfl) fun _ => .pure _

theorem unmarked_command (setup : Setup) (r : Responder board σ) :
    Recorded.Writes (·.isMark = false) (r.command setup) := by
  unfold command
  split
  · exact (unmarked_discard r).bind fun r => r.bus.unmarked_reset.bind fun _ => .pure _
  · refine (Chunk.unmarked_announce _ r.chunk r.bus).bind fun ⟨outcome, chunk, bus⟩ => ?_
    exact (Answer.unmarked_ofOutcome outcome).bind fun _ => .pure _
  · exact .bind (.note rfl) fun _ => .pure _

/-- Nothing but a batch of bytes begins or ends a section. -/
theorem unmarked_step {op : Operation} (hop : op.isReceive = false) (r : Responder board σ) :
    (step op r).entries.IsUnmarked := by
  cases op with
  | read setup => exact (unmarked_read setup r).map _
  | command setup => exact (unmarked_command setup r).map _
  | receive batch => cases hop
  | discard => exact (unmarked_discard r).map _

/-- Nothing but a batch of bytes reaches the data pins. -/
theorem written_step_of_not_receive {op : Operation} (hop : op.isReceive = false)
    (r : Responder board σ) : (step op r).entries.written = [] := by
  have hsends : (plan board r.chunk op).acts.filterMap (·.byte?) = [] := by
    cases op with
    | read setup => rfl
    | receive batch => cases hop
    | discard => rfl
    | command setup =>
      rw [plan]
      unfold commandPlan
      split
      · rfl
      · rw [Plan.ofChunk, Chunk.acts_announcePlan]
        exact Chunk.filterMap_byte?_ending _
      · rfl
  rw [written_congr (step_follows op r).does.calls_eq, Bus.written_run, hsends, List.map_nil]

/-! ## The section of a batch -/

/-- What is written of a batch behind its section. -/
def afterSection (batch : List UInt8) (r : Responder board σ) : Recorded Answer := do
  let outcome := (r.chunk.receive batch r.bus).value.outcome
  Recorded.noteWhen (outcome matches .ok .configured) .uploaded
  Answer.ofOutcome outcome

theorem isSection_receive (batch : List UInt8) (r : Responder board σ) :
    IsSection (r.chunk.receive batch r.bus).entries (afterSection batch r).entries
      (step (.receive batch) r).entries := by
  constructor
  case eq =>
    rw [step_receive, Recorded.entries_map, receive]
    simp only [afterSection, Recorded.entries_bind, Recorded.entries_exclusively,
      Recorded.value_exclusively, Recorded.entries_pure, List.append_nil, List.cons_append,
      List.append_assoc, List.nil_append]
    rfl
  case unmarked => exact Chunk.unmarked_receive batch r.chunk r.bus
  case notes =>
    exact Recorded.Writes.bind (.noteWhen (by rfl) _) fun _ => Answer.writes_ofOutcome _

/-- One section has all calls that come of a batch: the bytes that belong to the chunk, each once
and in order, and behind them the whole start-up if they complete the last chunk of a bitstream. -/
structure TakesInSection (batch : List UInt8) (r : Responder board σ)
    (t : Turn Operation Response (Responder board σ)) (inside behind : Journal) : Prop where
  isSection : IsSection inside behind t.entries
  calls : inside.calls
    = (batch.take r.chunk.outstanding.toNat).flatMap (Bus.byteCalls board r.bus.lines)
      ++ if t.answer = .answer .accepted ∧ r.chunk.isLast = true then
          Bus.startUpCalls board r.bus.lines t.after.bus.status.initHigh
        else []

theorem takesInSection_receive (batch : List UInt8) {r : Responder board σ}
    (hlow : r.bus.lines.clock = false) :
    TakesInSection batch r (turn step (.receive batch) r) (r.chunk.receive batch r.bus).entries
      (afterSection batch r).entries := by
  let t := turn step (.receive batch) r
  have hran := Chunk.ran_receive batch r.chunk hlow
  have houtcome := (Chunk.receive_follows batch r.chunk r.bus).outcome
  have hanswer : t.answer = .answer (.of (r.chunk.receivePlan batch).outcome) :=
    (receive_follows batch r).answer _ rfl
  have hstarts : t.answer = .answer .accepted ∧ r.chunk.isLast = true
      ↔ (r.chunk.receivePlan batch).outcome = .ok .configured := by
    rw [hanswer, Response.answer.injEq, Chunk.receivePlan_configured_iff]
  refine ⟨isSection_receive batch r, ?_⟩
  by_cases hconfigured : (r.chunk.receivePlan batch).outcome = .ok .configured
  · rw [if_pos (hstarts.mpr hconfigured)]
    exact (hran.startedUp (houtcome.trans hconfigured)).calls
  · rw [if_neg (mt hstarts.mp hconfigured), List.append_nil]
    exact (hran.justSent (houtcome ▸ hconfigured)).calls

/-- The bytes that reach the data pins inside a section are those of its batch, in order. -/
theorem getElem?_of_section {batch : List UInt8} {r : Responder board σ} {first rest : Journal}
    {pins : UInt8}
    (h : (r.chunk.receive batch r.bus).entries = first ++ .call (.data pins) :: rest) :
    (batch.map board.bitOrder.apply)[first.written.length]? = some pins := by
  let sent := batch.map board.bitOrder.apply
  let n := r.chunk.outstanding.toNat
  have hwritten : first.written ++ pins :: rest.written = sent.take n := by
    rw [← List.map_take, ← Chunk.written_of_follows (Chunk.receive_follows batch r.chunk r.bus)
      (Chunk.acts_receivePlan batch r.chunk), h, written_append]
    rfl
  have hsent : sent = first.written ++ pins :: (rest.written ++ sent.drop n) := by
    rw [← List.cons_append, ← List.append_assoc, hwritten, List.take_append_drop]
  show sent[first.written.length]? = some pins
  rw [hsent, List.getElem?_append_right (Nat.le_refl _), Nat.sub_self, List.getElem?_cons_zero]

/-! ## Runs -/

/-- A turn that takes a batch has one section, and any other turn has none. -/
theorem sections_turn (op : Operation) (r : Responder board σ) :
    (turn step op r).entries.IsSectioned
      ∧ (turn step op r).entries.sections = if op.isReceive then 1 else 0 := by
  cases hop : op.isReceive with
  | false =>
    have hunmarked := unmarked_step hop r
    exact ⟨hunmarked.isSectioned, hunmarked.sections_eq⟩
  | true =>
    cases op with
    | receive batch =>
      have hsection := isSection_receive batch r
      exact ⟨hsection.isSectioned, hsection.sections_eq⟩
    | _ => cases hop

/-- The data pins that are driven between `before` and `after` lie in the section of a batch, and
what they are driven with is the byte of that batch whose turn it is. -/
def SentInSection (start : Recorded (Responder board σ)) (ops : List Operation) (before : Journal)
    (pins : UInt8) (after : Journal) : Prop :=
  ∃ (earlier later : List Operation) (batch : List UInt8) (first rest behind : Journal),
    let upTo := start >>= run step earlier
    let t := turn step (.receive batch) upTo.value
    ops = earlier ++ .receive batch :: later
      ∧ IsSection (first ++ .call (.data pins) :: rest) behind t.entries
      ∧ before = upTo.entries ++ .enter :: first
      ∧ after = rest ++ .leave :: behind ++ (run step later t.after).entries
      ∧ (batch.map board.bitOrder.apply)[first.written.length]? = some pins

/-- Whatever reaches the data pins in a run lies in the section of a batch. -/
theorem sentInSection_of_data {start : Recorded (Responder board σ)}
    (hstart : start.entries.written = []) {ops : List Operation} {before after : Journal}
    {pins : UInt8} (h : (start >>= run step ops).entries = before ++ .call (.data pins) :: after) :
    SentInSection start ops before pins after := by
  have hdata (j j' : Journal) : (j ++ .call (.data pins) :: j').written ≠ [] := by
    rw [written_append]
    exact List.append_ne_nil_of_right_ne_nil _ (List.cons_ne_nil pins j'.written)
  -- Connecting drives the control pins alone, so the byte is one of the run itself.
  rw [Recorded.entries_bind] at h
  rcases exists_of_append h with ⟨rest, hbegin, -⟩ | ⟨before', rfl, hrun⟩
  · rw [hbegin] at hstart
    exact absurd hstart (hdata before rest)
  obtain ⟨earlier, op, later, first, rest, hops, rfl, hentries, rfl⟩ :=
    Turn.exists_of_entries_run hrun
  cases hop : op.isReceive with
  | false =>
    have hnone : (first ++ .call (.data pins) :: rest).written = [] := by
      rw [← hentries]
      exact written_step_of_not_receive hop _
    exact absurd hnone (hdata first rest)
  | true =>
    cases op with
    | receive batch =>
      have hsection := isSection_receive batch (run step earlier start.value).value
      obtain ⟨first, rest, hinside, rfl, rfl⟩ := hsection.split_call hentries
      have hpins := getElem?_of_section hinside
      rw [hinside] at hsection
      exact ⟨earlier, later, batch, first, rest, _, hops, hsection,
        (List.append_assoc _ _ _).symm, rfl, hpins⟩
    | _ => cases hop

/-- Sections neither overlap nor nest in what a run writes. Each batch has one, which all its calls
lie in, a start-up included, and nothing else has any. So whatever reaches the data pins lies in the
section of the batch that brought it. -/
theorem sends_exclusively {board : Board} {σ : Type} [Target σ] (target : σ) (identity : Identity)
    (ops : List Operation) :
    let start : Recorded (Responder board σ) := connect target identity
    let record := (start >>= run step ops).entries
    record.IsSectioned
      ∧ record.sections = ops.countP (·.isReceive)
      ∧ (∀ t ∈ turns step ops start.value, t.operation.isReceive = false → t.entries.IsUnmarked)
      ∧ (∀ earlier batch later, ops = earlier ++ .receive batch :: later →
        let r := (run step earlier start.value).value
        ∃ inside behind, TakesInSection batch r (turn step (.receive batch) r) inside behind)
      ∧ ∀ before pins after, record = before ++ .call (.data pins) :: after →
        SentInSection start ops before pins after := by
  intro start record
  have hstart : start.entries.IsUnmarked := .append (Bus.unmarked_drive .idle _) nofun
  have hrecord : record = start.entries ++ Turn.journal (turns step ops start.value) := by
    rw [← entries_run]
    rfl
  have hturns : ∀ t ∈ turns step ops start.value, t.entries.IsSectioned
      ∧ t.entries.sections = if t.operation.isReceive then 1 else 0 :=
    Turn.forall_mem_turns sections_turn ops start.value
  refine ⟨?_, ?_, ?_, ?_, ?_⟩
  · rw [hrecord]
    exact hstart.isSectioned.append (Turn.isSectioned_journal fun t ht => (hturns t ht).1)
  · have hnone : start.entries.count .enter = 0 := hstart.sections_eq
    rw [hrecord, sections, List.count_append, hnone, Nat.zero_add]
    conv_rhs => rw [← map_operation_turns step ops start.value, List.countP_map]
    exact Turn.sections_journal fun t ht => (hturns t ht).2
  · exact Turn.forall_mem_turns (fun op r hop => unmarked_step hop r) ops start.value
  · intro earlier batch later _ r
    have hlow : r.bus.lines.clock = false :=
      ((controller board σ).disciplined earlier (s := start.value) rfl).resting.1
    exact ⟨_, _, takesInSection_receive batch hlow⟩
  · intro before pins after hsplit
    exact sentInSection_of_data rfl hsplit

end Responder

end BitstreamUpload
