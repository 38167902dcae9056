import BitstreamUpload.Proofs.Chunk.Notes
import BitstreamUpload.Proofs.Responder.Plan
import BitstreamUpload.Proofs.Turns

/-!
# Refused operations

An operation of a responder that is refused leaves bus and chunk alone, as does every read
(`step_of_inert`). And the log tells it from all others (`tellsOfRefusal_turn`): `Note.isRejection`
picks out the notes that begin with the words for a refusal (`Note.isRejection_iff`), and an
operation writes such a note just if it is refused (`isRefusal_step_iff`).
-/

namespace BitstreamUpload

open Journal

/-! ## Notes by their first words -/

namespace Note

/-- Whether a text begins with some words. -/
def Begins (words text : String) : Prop :=
  words.toList <+: text.toList

theorem Begins.append {words first rest : String} (h : Begins words first) :
    Begins words (first ++ rest) := by
  rw [Begins, String.toList_append]
  exact h.trans (List.prefix_append _ _)

/-- Words that all notes of a kind begin with. -/
def opening : Note → String
  | resetHigh _ | resetLow _ => "fpga"
  | finished _ _ _ | uploaded => "bitstream"
  | announced _ _ | announcedEarly _ _ => "chunk of"
  | excess _ => "dropping"
  | discarded _ => "discarding"
  | refused _ => "chunk refused"
  | readRejected _ _ | commandRejected _ => "rejecting"
  | shortData _ _ => "short"
  | resetMidChunk => "USB"

theorem begins_opening (n : Note) : Begins n.opening n.text := by
  -- A text is its first words with numbers and further words appended.
  have first {words text : String} (h : words.toList <+: text.toList) : Begins words text := h
  cases n with
  | resetHigh => exact (first (by simp [opening, toString])).append.append
  | resetLow => exact (first (by simp [opening, toString])).append.append
  | finished => exact (first (by simp [opening, toString])).append.append.append.append.append
  | announced => exact (first (by simp [opening, toString])).append.append.append
  | announcedEarly => exact (first (by simp [opening, toString])).append.append.append.append
  | excess => exact (first (by simp [opening, toString])).append.append
  | discarded => exact (first (by simp [opening, toString])).append.append
  | refused => exact (first (by simp [opening, toString])).append
  | uploaded => exact first (by decide)
  | readRejected => exact (first (by simp [opening, toString])).append.append.append
  | commandRejected => exact (first (by simp [opening, toString])).append
  | shortData => exact (first (by simp [opening, toString])).append.append.append.append
  | resetMidChunk => exact first (by decide)

/-- Other words that a note begins with go on or break off its first words. -/
theorem prefix_opening_or {words : String} {n : Note} (h : Begins words n.text) :
    words.toList <+: n.opening.toList ∨ n.opening.toList <+: words.toList :=
  List.prefix_or_prefix_of_prefix h n.begins_opening

/-- Whether a note tells that an operation was refused. -/
def isRejection : Note → Bool
  | refused _ | readRejected _ _ | commandRejected _ => true
  | _ => false

theorem isRejection_iff (n : Note) :
    n.isRejection = true ↔ Begins "rejecting" n.text ∨ Begins "chunk refused" n.text := by
  constructor
  · intro h
    have hopening := n.begins_opening
    cases n with
    | readRejected => exact .inl hopening
    | commandRejected => exact .inl hopening
    | refused => exact .inr hopening
    | _ => cases h
  · intro h
    have hopening := h.imp prefix_opening_or prefix_opening_or
    clear h
    cases n with
    | readRejected => rfl
    | commandRejected => rfl
    | refused => rfl
    | _ => simp [opening] at hopening

theorem level_of_isRejection {n : Note} (h : n.isRejection = true) : n.level = .warn := by
  cases n with
  | readRejected => rfl
  | commandRejected => rfl
  | refused => rfl
  | _ => cases h

end Note

/-- The notes that tell of a refusal. -/
def Journal.rejections (j : Journal) : List Note :=
  j.notes.filter (·.isRejection)

@[simp] theorem Journal.rejections_append (j j' : Journal) :
    rejections (j ++ j') = rejections j ++ rejections j' := by
  rw [rejections, notes_append, List.filter_append]
  rfl

theorem Journal.rejections_exclusively (j : Journal) :
    rejections (.enter :: (j ++ [.leave])) = rejections j := by
  show rejections (j ++ [.leave]) = rejections j
  rw [rejections_append]
  exact List.append_nil _

theorem Journal.rejections_noteWhen {n : Note} (h : n.isRejection = false) (cause : Prop)
    [Decidable cause] : rejections (Recorded.noteWhen cause n).entries = [] := by
  rw [Recorded.entries_noteWhen]
  split
  · exact List.filter_cons_of_neg (by simp [h])
  · rfl

/-! ## The log of a bus and of a chunk -/

variable {board : Board} {σ : Type} [Target σ]

theorem Bus.rejections_reset (bus : Bus board σ) : rejections bus.reset.entries = [] := by
  rw [rejections, notes_reset]
  split <;> rfl

namespace Chunk

omit [Target σ] in
theorem rejections_startUpNotes (r : Result board σ) :
    (startUpNotes r).filter (·.isRejection) = [] := by
  rw [List.filter_eq_nil_iff]
  intro n hn
  rw [eq_of_mem_startUpNotes hn]
  exact Bool.false_ne_true

/-- An announcement leaves it to its caller to tell that it was refused. -/
theorem rejections_announce (size : UInt16) (chunk : Chunk) (bus : Bus board σ) :
    rejections (chunk.announce size bus).entries = [] := by
  rw [rejections, notes_announce]
  split
  · exact rejections_startUpNotes _
  · rfl

theorem rejections_receive (batch : List UInt8) (chunk : Chunk) (bus : Bus board σ) :
    rejections (chunk.receive batch bus).entries = [] := by
  rw [rejections, notes_receive, List.filter_append, rejections_startUpNotes]
  split <;> rfl

theorem rejections_discard (chunk : Chunk) : rejections chunk.discard.entries = [] := by
  rw [rejections, notes_discard]
  split <;> rfl

end Chunk

/-! ## The log of a responder -/

theorem Answer.of_eq_rejected_iff (outcome : Outcome) :
    of outcome = rejected ↔ ∃ cause, outcome = .error cause := by
  cases outcome with
  | error cause => exact ⟨fun _ => ⟨cause, rfl⟩, fun _ => rfl⟩
  | ok p => cases p <;> simp [of, Progress.isComplete]

theorem Answer.rejections_ofOutcome_iff (outcome : Outcome) :
    rejections (ofOutcome outcome).entries ≠ [] ↔ of outcome = rejected := by
  rw [of_eq_rejected_iff]
  cases outcome with
  | error cause => exact ⟨fun _ => ⟨cause, rfl⟩, fun _ => List.cons_ne_nil _ _⟩
  | ok p =>
    constructor
    · exact fun h => absurd rfl h
    · rintro ⟨cause, hcause⟩
      cases hcause

namespace Responder

theorem isRefusal_answer_iff (a : Answer) : (Response.answer a).isRefusal = true ↔ a = .rejected :=
  decide_eq_true_iff

/-- A read is refused just if that is noted. -/
theorem isRefusal_read_iff (setup : Setup) (r : Responder board σ) :
    (step (.read setup) r).value.1.isRefusal = true
      ↔ rejections (step (.read setup) r).entries ≠ [] := by
  rw [step_read, Recorded.value_map, Recorded.entries_map]
  unfold read
  split
  · exact ⟨fun h => absurd h Bool.false_ne_true, fun h => absurd rfl h⟩
  · exact ⟨fun h => absurd h Bool.false_ne_true, fun h => absurd rfl h⟩
  · exact ⟨fun _ => List.cons_ne_nil _ _, fun _ => rfl⟩

theorem isRefusal_command_iff (setup : Setup) (r : Responder board σ) :
    (step (.command setup) r).value.1.isRefusal = true
      ↔ rejections (step (.command setup) r).entries ≠ [] := by
  rw [step_command, Recorded.value_map, Recorded.entries_map, isRefusal_answer_iff]
  unfold command
  split
  · simp [discard, Chunk.rejections_discard, Bus.rejections_reset]
  · simp [Chunk.rejections_announce, Answer.rejections_ofOutcome_iff]
  · exact ⟨fun _ => List.cons_ne_nil _ _, fun _ => rfl⟩

theorem isRefusal_receive_iff (batch : List UInt8) (r : Responder board σ) :
    (step (.receive batch) r).value.1.isRefusal = true
      ↔ rejections (step (.receive batch) r).entries ≠ [] := by
  rw [step_receive, Recorded.value_map, Recorded.entries_map, isRefusal_answer_iff]
  rw [receive, Recorded.value_bind, Recorded.entries_bind, rejections_append,
    Recorded.entries_exclusively, rejections_exclusively, Chunk.rejections_receive,
    Recorded.entries_bind, rejections_append, rejections_noteWhen rfl]
  simp [Answer.rejections_ofOutcome_iff]

/-- An operation is refused just if its log tells so. -/
theorem isRefusal_step_iff (op : Operation) (r : Responder board σ) :
    (step op r).value.1.isRefusal = true ↔ rejections (step op r).entries ≠ [] := by
  cases op with
  | read setup => exact isRefusal_read_iff setup r
  | command setup => exact isRefusal_command_iff setup r
  | receive batch => exact isRefusal_receive_iff batch r
  | discard =>
    have hnone : rejections (step .discard r).entries = [] := by
      simp [step, discard, Chunk.rejections_discard]
    exact ⟨fun h => absurd h Bool.false_ne_true, fun h => absurd hnone h⟩

/-! ## What a refused operation leaves -/

theorem announcePlan_of_rejected {size : UInt16} {chunk : Chunk}
    (h : Answer.of (chunk.announcePlan board size).outcome = .rejected) :
    (chunk.announcePlan board size).chunk = chunk ∧ (chunk.announcePlan board size).acts = [] := by
  rcases Chunk.announcePlan_cases board size chunk with
    ⟨-, hplan⟩ | ⟨-, -, hplan⟩ | ⟨-, -, hplan⟩
  · rw [hplan]
    exact ⟨rfl, rfl⟩
  · rw [hplan, answer_completePlan] at h
    cases h
  · rw [hplan] at h
    cases h

theorem receivePlan_of_rejected {batch : List UInt8} {chunk : Chunk}
    (h : Answer.of (chunk.receivePlan batch).outcome = .rejected) :
    (chunk.receivePlan batch).chunk = chunk ∧ (chunk.receivePlan batch).acts = [] := by
  rcases Chunk.receivePlan_cases batch chunk with ⟨-, hplan⟩ | ⟨-, hplan⟩ | ⟨-, -, hplan⟩
  · rw [hplan]
    exact ⟨rfl, rfl⟩
  · rw [hplan] at h
    cases h
  · rw [hplan, answer_completePlan] at h
    cases h

/-- No plan that ends in a rejection changes the chunk or has the bus do anything. -/
theorem plan_of_rejected {chunk : Chunk} {op : Operation}
    (h : (plan board chunk op).answer = some .rejected) :
    (plan board chunk op).chunk = chunk ∧ (plan board chunk op).acts = [] := by
  cases op with
  | read setup => exact ⟨rfl, rfl⟩
  | receive batch => exact receivePlan_of_rejected (Option.some.inj h)
  | discard => cases h
  | command setup =>
    rw [plan] at h ⊢
    cases hs : setup.command? with
    | none => exact ⟨rfl, rfl⟩
    | some command =>
      rw [hs] at h
      cases command with
      | chunk size => exact announcePlan_of_rejected (Option.some.inj h)
      | reset => cases h
      | identity => exact ⟨rfl, rfl⟩
      | status => exact ⟨rfl, rfl⟩

/-- Whether an operation asks for data. -/
def Operation.isRead : Operation → Bool
  | read _ => true
  | _ => false

/-- Operations that are to leave no trace: all reads, and whatever is refused. -/
def Inert (op : Operation) (r : Responder board σ) : Prop :=
  op.isRead = true ∨ (step op r).value.1.isRefusal = true

theorem plan_of_inert {op : Operation} {r : Responder board σ} (h : Inert op r) :
    (plan board r.chunk op).chunk = r.chunk ∧ (plan board r.chunk op).acts = [] := by
  -- The answer that is a refusal is the one of the plan.
  have hanswer {a : Answer} (ha : (plan board r.chunk op).answer = some a)
      (hrefused : (step op r).value.1.isRefusal = true) :
      (plan board r.chunk op).answer = some .rejected := by
    rw [(step_follows op r).answer a ha, isRefusal_answer_iff] at hrefused
    rw [ha, hrefused]
  cases op with
  | read setup => exact ⟨rfl, rfl⟩
  | command setup =>
    obtain ⟨a, ha⟩ := answer_commandPlan board r.chunk setup.command?
    exact plan_of_rejected (hanswer ha (h.resolve_left Bool.false_ne_true))
  | receive batch => exact plan_of_rejected (hanswer rfl (h.resolve_left Bool.false_ne_true))
  | discard => exact absurd (h.resolve_left Bool.false_ne_true) Bool.false_ne_true

/-- A read or a refused operation makes no call and leaves bus and chunk as they are. -/
theorem step_of_inert {op : Operation} {r : Responder board σ} (h : Inert op r) :
    (step op r).value.2.bus = r.bus ∧ (step op r).value.2.chunk = r.chunk
      ∧ (step op r).entries.calls = [] := by
  obtain ⟨hchunk, hacts⟩ := plan_of_inert h
  obtain ⟨-, hstep, hdoes⟩ := step_follows op r
  rw [hacts] at hdoes
  exact ⟨hdoes.bus_eq, hstep.trans hchunk, hdoes.calls_eq⟩

/-- What a turn writes tells whether it was refused. -/
structure TellsOfRefusal (t : Turn Operation Response (Responder board σ)) : Prop where
  calls : t.answer.isRefusal = true → t.entries.calls = []
  warned : t.answer.isRefusal = true → ∃ n ∈ t.entries.notes, n.level = .warn
    ∧ (Note.Begins "rejecting" n.text ∨ Note.Begins "chunk refused" n.text)
  /-- Nothing that was not refused writes anything of the kind, at any level. -/
  silent : t.answer.isRefusal = false → ∀ n ∈ t.entries.notes,
    ¬Note.Begins "rejecting" n.text ∧ ¬Note.Begins "chunk refused" n.text

theorem tellsOfRefusal_turn (op : Operation) (r : Responder board σ) :
    TellsOfRefusal (turn step op r) := by
  have hiff : (turn step op r).answer.isRefusal = true ↔ rejections (step op r).entries ≠ [] :=
    isRefusal_step_iff op r
  constructor
  case calls =>
    intro hrefused
    have hinert : Inert op r := .inr hrefused
    exact (step_of_inert hinert).2.2
  case warned =>
    intro hrefused
    obtain ⟨n, hn⟩ := List.exists_mem_of_ne_nil _ (hiff.mp hrefused)
    obtain ⟨hmem, hrejection⟩ := List.mem_filter.mp hn
    exact ⟨n, hmem, Note.level_of_isRejection hrejection, n.isRejection_iff.mp hrejection⟩
  case silent =>
    intro hanswered n hn
    have hnone : rejections (step op r).entries = [] := by
      by_contra hsome
      rw [hiff.mpr hsome] at hanswered
      cases hanswered
    have hother : ¬n.isRejection = true := List.filter_eq_nil_iff.mp hnone n hn
    rwa [n.isRejection_iff, not_or] at hother

end Responder

end BitstreamUpload
