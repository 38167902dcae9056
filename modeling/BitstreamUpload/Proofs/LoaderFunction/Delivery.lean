import BitstreamUpload.Proofs.Controllers
import BitstreamUpload.Proofs.Responder.Mishaps

/-!
# Commands that come with all their bytes

A transfer brings the bytes of its data stage along. If a chunk comes with as many bytes as it was
announced with, it is complete with them. `Delivers` has what becomes of a command that reaches an
idle responder in this way: how it is answered, what the bus does, and that the responder is idle
again without a mishap. Each kind of command has its lemma, and `deliver_delivers` puts them
together.
-/

namespace BitstreamUpload

open Journal

variable {board : Board} {σ : Type} [Target σ]

/-! ## Whole transfers -/

/-- A packet stands for a command that goes its way. -/
theorem Setup.direction_of_command {setup : Setup} {command : Command}
    (h : setup.command? = some command) : setup.direction = command.direction :=
  (command?_eq_some_iff.mp h).1

theorem Setup.length_of_chunk {setup : Setup} {size : UInt16}
    (h : setup.command? = some (.chunk size)) : setup.length = size :=
  (command?_eq_chunk_iff.mp h).2.2

/-- The bytes of a whole transfer are as many as its chunk has. -/
theorem Transfer.IsWhole.length_eq {t : Transfer} (h : t.IsWhole) {size : UInt16}
    (hchunk : t.setup.command? = some (.chunk size)) : t.data.length = size.toNat := by
  rw [h (Setup.direction_of_command hchunk), Setup.length_of_chunk hchunk]

namespace LoaderFunction

open Responder

/-! ## Answers and acts -/

/-- The answer to a command that comes with its bytes. -/
def wholeAnswer : Option Command → Answer
  | some .reset | some (.chunk _) => .accepted
  | _ => .rejected

/-- What the bus is to do for a command that comes with its bytes. -/
def wholeActs (board : Board) (bytes : List UInt8) : Option Command → List Bus.Operation
  | some .reset => [.reset]
  | some (.chunk size) =>
    bytes.map .send ++ if size = board.chunkSize then [] else [.startUp, .confirm]
  | _ => []

/-- A command with its bytes is answered so, has the bus do this and no more, and leaves the
responder idle, without a mishap. -/
structure Delivers (answer : Answer) (acts : List Bus.Operation) (r : Responder board σ)
    (d : Recorded (Answer × Responder board σ)) : Prop where
  answer : d.value.1 = answer
  idle : d.value.2.isReceiving = false
  does : Bus.Does acts r.bus d.value.2.bus d.entries
  smooth : d.entries.IsSmooth

variable {setup : Setup} {r : Responder board σ}

/-- Bytes are passed on only if the command waits for them. -/
theorem deliver_of_answered (h : (r.command setup).value.1 ≠ .pending) (data : List UInt8) :
    deliver setup data r = r.command setup := by
  unfold deliver
  generalize r.command setup = c at h ⊢
  obtain ⟨⟨a, r'⟩, j⟩ := c
  cases a with
  | pending => exact absurd rfl h
  | accepted => exact Recorded.ext rfl (List.append_nil j)
  | rejected => exact Recorded.ext rfl (List.append_nil j)

theorem deliver_of_pending (h : (r.command setup).value.1 = .pending) (data : List UInt8) :
    deliver setup data r = r.command setup >>= fun x => x.2.receive data := by
  unfold deliver
  generalize r.command setup = c at h ⊢
  obtain ⟨⟨a, r'⟩, j⟩ := c
  simp only at h
  subst h
  rfl

/-- A reset command has nothing to give up, and waits for no bytes. -/
theorem deliver_eq_reset (hreset : setup.command? = some .reset) (hidle : r.isReceiving = false)
    (data : List UInt8) :
    deliver setup data r = (fun bus => (.accepted, { r with bus })) <$> r.bus.reset := by
  have hcommand : r.command setup
      = (fun bus => (.accepted, { r with bus })) <$> r.bus.reset := by
    unfold command
    rw [hreset, discard_of_idle hidle, ← bind_pure_comp]
    rfl
  have hanswer : (r.command setup).value.1 ≠ .pending := by
    rw [hcommand]
    exact nofun
  rw [deliver_of_answered hanswer, hcommand]

theorem deliver_reset (hreset : setup.command? = some .reset) (hidle : r.isReceiving = false)
    (data : List UInt8) : Delivers .accepted [.reset] r (deliver setup data r) := by
  rw [deliver_eq_reset hreset hidle data]
  refine ⟨rfl, hidle, ?_, ?_⟩
  · rw [Recorded.value_map, Recorded.entries_map]
    exact Bus.Does.reset r.bus
  · rw [Recorded.entries_map]
    exact Bus.isSmooth_reset r.bus

/-- The end of a chunk that is announced with this size. -/
theorem acts_completePlan (board : Board) (size outstanding : UInt16) :
    (Chunk.completePlan ⟨size, outstanding, size != board.chunkSize⟩).acts
      = if size = board.chunkSize then [] else [.startUp, .confirm] := by
  by_cases hsize : size = board.chunkSize
  · simp [Chunk.completePlan, hsize]
  · simp [Chunk.completePlan, hsize]

theorem command_announces {size : UInt16} (hchunk : setup.command? = some (.chunk size))
    (r : Responder board σ) :
    let plan := r.chunk.announcePlan board size
    let c := r.command setup
    c.value.1 = .of plan.outcome ∧ c.value.2.chunk = plan.chunk
      ∧ Bus.Does plan.acts r.bus c.value.2.bus c.entries := by
  intro plan c
  have hanswer := answer_command setup r
  obtain ⟨-, hafter, hdoes⟩ := command_follows setup r
  rw [hchunk] at hanswer hafter hdoes
  rw [step_command, Recorded.value_map] at hafter
  rw [step_command, Recorded.value_map, Recorded.entries_map] at hdoes
  exact ⟨(Option.some.inj hanswer).symm, hafter, hdoes⟩

/-- All the bytes of a chunk in one batch. -/
theorem receive_whole {size : UInt16} (hsize : size ≠ 0)
    (hchunk : r.chunk = ⟨size, size, size != board.chunkSize⟩) {data : List UInt8}
    (hdata : data.length = size.toNat) :
    Delivers .accepted (wholeActs board data (some (.chunk size))) r (r.receive data) := by
  have hsome : 0 < size.toNat := Nat.pos_of_ne_zero fun h => hsize (UInt16.toNat_inj.mp h)
  have hout : r.chunk.outstanding.toNat = size.toNat := by rw [hchunk]
  have hpos : 0 < r.chunk.outstanding.toNat := by rw [hout]; exact hsome
  have hlength : data.length = r.chunk.outstanding.toNat := hdata.trans hout.symm
  have hplan := Chunk.receivePlan_enough hpos (Nat.le_of_eq hlength.symm)
  obtain ⟨hanswer, hafter, hdoes⟩ := receive_follows data r
  rw [step_receive, Recorded.value_map, hplan] at hanswer hafter
  rw [step_receive, Recorded.value_map, Recorded.entries_map, hplan] at hdoes
  constructor
  case answer =>
    rw [Plan.ofChunk, answer_completePlan] at hanswer
    exact Response.answer.inj (hanswer _ rfl)
  case idle =>
    rw [isReceiving_eq_false_iff, hafter, Plan.ofChunk, Chunk.chunk_completePlan]
    rfl
  case does =>
    have hends : r.chunk.ended = ⟨size, 0, size != board.chunkSize⟩ := by rw [hchunk]; rfl
    rw [Plan.ofChunk, hout, ← hdata, List.take_length, hends, acts_completePlan] at hdoes
    exact hdoes
  case smooth => exact isSmooth_receive hpos (Nat.le_of_eq hlength)

theorem deliver_chunk {size : UInt16} (hchunk : setup.command? = some (.chunk size))
    (hidle : r.isReceiving = false) {data : List UInt8} (hdata : data.length = size.toNat) :
    Delivers .accepted (wholeActs board data (some (.chunk size))) r (deliver setup data r) := by
  have hsmooth := isSmooth_command hidle setup
  obtain ⟨hanswer, hafter, hdoes⟩ := command_announces hchunk r
  rcases Chunk.announcePlan_cases board size r.chunk with
    ⟨hbusy, -⟩ | ⟨-, rfl, hplan⟩ | ⟨-, hsize, hplan⟩
  · rw [isReceiving_eq_false_iff.mp hidle] at hbusy
    cases hbusy
  · -- An empty chunk is complete with its announcement.
    rw [hplan] at hanswer hafter hdoes
    rw [answer_completePlan] at hanswer
    rw [Chunk.chunk_completePlan] at hafter
    rw [acts_completePlan] at hdoes
    have hempty : data = [] := List.eq_nil_of_length_eq_zero hdata
    rw [deliver_of_answered (by rw [hanswer]; exact nofun), hempty]
    exact ⟨hanswer, isReceiving_eq_false_iff.mpr (by rw [hafter]; rfl), hdoes, hsmooth⟩
  · rw [hplan] at hanswer hafter hdoes
    obtain ⟨hanswer', hidle', hdoes', hsmooth'⟩ := receive_whole hsize hafter hdata
    rw [deliver_of_pending hanswer]
    exact ⟨hanswer', hidle', hdoes.append hdoes', isSmooth_append.mpr ⟨hsmooth, hsmooth'⟩⟩

theorem deliver_rejected (hrejected : commandPlan board r.chunk setup.command?
      = ⟨some .rejected, r.chunk, []⟩) (hidle : r.isReceiving = false) (data : List UInt8) :
    Delivers .rejected [] r (deliver setup data r) := by
  have hanswer := answer_command setup r
  obtain ⟨-, hafter, hdoes⟩ := command_follows setup r
  rw [hrejected] at hanswer hafter hdoes
  rw [step_command, Recorded.value_map] at hafter
  rw [step_command, Recorded.value_map, Recorded.entries_map] at hdoes
  have hanswer : (r.command setup).value.1 = .rejected := (Option.some.inj hanswer).symm
  rw [deliver_of_answered (by rw [hanswer]; exact nofun)]
  refine ⟨hanswer, ?_, hdoes, isSmooth_command hidle setup⟩
  rw [isReceiving_eq_false_iff, hafter]
  exact isReceiving_eq_false_iff.mp hidle

/-- What becomes of a command with its bytes while no chunk is being received. -/
theorem deliver_delivers (hidle : r.isReceiving = false) {data : List UInt8}
    (hdata : ∀ size, setup.command? = some (.chunk size) → data.length = size.toNat) :
    Delivers (wholeAnswer setup.command?) (wholeActs board data setup.command?) r
      (deliver setup data r) := by
  rcases hcommand : setup.command? with _ | _ | _ | _ | size
  case some.reset => exact deliver_reset hcommand hidle data
  case some.chunk => exact deliver_chunk hcommand hidle (hdata size hcommand)
  all_goals exact deliver_rejected (by rw [hcommand]; rfl) hidle data

end LoaderFunction

end BitstreamUpload
