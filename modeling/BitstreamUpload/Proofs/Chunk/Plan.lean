import BitstreamUpload.Gang
import BitstreamUpload.Proofs.Bus.Controller

/-!
# What a chunk has its bus do

Neither the outcome of an operation on a chunk nor the chunk it leaves depends on the bus. A `Plan`
has both, together with the operations that the bus is to do. `announce_follows` and
`receive_follows` say that the operations on a chunk follow their plans on any bus.
-/

namespace BitstreamUpload

open Journal

namespace Chunk

/-- An operation on a chunk without its bus. -/
structure Plan where
  outcome : Outcome
  /-- The chunk behind it. -/
  chunk : Chunk
  /-- What the bus is to do. -/
  acts : List Bus.Operation
deriving Repr

/-- The end of a chunk. With the last chunk the target is started up. -/
def completePlan (chunk : Chunk) : Plan :=
  if chunk.isLast then ⟨.ok .configured, chunk, [.startUp, .confirm]⟩
  else ⟨.ok .stored, chunk, []⟩

/-- An announcement on a board. -/
def announcePlan (board : Board) (size : UInt16) (chunk : Chunk) : Plan :=
  if chunk.isIdle then
    let chunk : Chunk := ⟨size, size, size != board.chunkSize⟩
    if size = 0 then chunk.completePlan else ⟨.ok .pending, chunk, []⟩
  else ⟨.error .busy, chunk, []⟩

/-- The chunk after so many of its bytes were sent. -/
def sent (n : Nat) (chunk : Chunk) : Chunk :=
  { chunk with outstanding := chunk.outstanding - UInt16.ofNat n }

/-- What becomes of a chunk with its latest bytes. -/
def afterBatch (chunk : Chunk) : Plan :=
  if chunk.isIdle then chunk.completePlan else ⟨.ok .pending, chunk, []⟩

/-- A batch of bytes. -/
def receivePlan (batch : List UInt8) (chunk : Chunk) : Plan :=
  if chunk.isIdle then ⟨.error .unannounced, chunk, []⟩
  else
    let taken := min batch.length chunk.outstanding.toNat
    let rest := (chunk.sent taken).afterBatch
    { rest with acts := (batch.take taken).map .send ++ rest.acts }

/-! ## Bytes outstanding -/

theorem isIdle_iff {chunk : Chunk} : chunk.isIdle = true ↔ chunk.outstanding.toNat = 0 := by
  rw [isIdle, beq_iff_eq, ← UInt16.toNat_inj]
  rfl

/-- The bytes outstanding never fall below zero. -/
theorem toNat_sent {chunk : Chunk} {n : Nat} (h : n ≤ chunk.outstanding.toNat) :
    (chunk.sent n).outstanding.toNat = chunk.outstanding.toNat - n := by
  have hlt : chunk.outstanding.toNat < 2 ^ 16 := chunk.outstanding.toNat_lt
  have hn : (UInt16.ofNat n).toNat = n := by
    rw [UInt16.toNat_ofNat']
    exact Nat.mod_eq_of_lt (by omega)
  rw [sent, UInt16.toNat_sub_of_le _ _ (UInt16.le_iff_toNat_le.mpr (by rw [hn]; exact h)), hn]

@[simp] theorem sent_zero (chunk : Chunk) : chunk.sent 0 = chunk := by
  show { chunk with outstanding := chunk.outstanding - 0 } = chunk
  rw [UInt16.sub_zero]

theorem sent_sent (chunk : Chunk) (m n : Nat) : (chunk.sent m).sent n = chunk.sent (m + n) := by
  simp only [sent, UInt16.ofNat_add, UInt16.sub_eq_add_neg, UInt16.neg_add, UInt16.add_assoc]

@[simp] theorem chunk_completePlan (chunk : Chunk) : chunk.completePlan.chunk = chunk := by
  unfold completePlan
  split <;> rfl

theorem outcome_completePlan (chunk : Chunk) :
    chunk.completePlan.outcome = .ok (if chunk.isLast then .configured else .stored) := by
  unfold completePlan
  split <;> rfl

/-- The chunk with none of its bytes outstanding. -/
def ended (chunk : Chunk) : Chunk :=
  { chunk with outstanding := 0 }

theorem sent_all (chunk : Chunk) : chunk.sent chunk.outstanding.toNat = chunk.ended := by
  rw [sent, ended, UInt16.ofNat_toNat, UInt16.sub_self]

/-! ## The cases of a plan -/

theorem announcePlan_busy {chunk : Chunk} (h : chunk.isIdle = false) (board : Board)
    (size : UInt16) : chunk.announcePlan board size = ⟨.error .busy, chunk, []⟩ := by
  rw [announcePlan, h]
  rfl

/-- An empty chunk is complete at once. -/
theorem announcePlan_empty {chunk : Chunk} (h : chunk.isIdle = true) (board : Board) :
    chunk.announcePlan board 0 = completePlan ⟨0, 0, 0 != board.chunkSize⟩ := by
  rw [announcePlan, h]
  rfl

theorem announcePlan_pending {chunk : Chunk} (h : chunk.isIdle = true) (board : Board)
    {size : UInt16} (hsize : size ≠ 0) :
    chunk.announcePlan board size = ⟨.ok .pending, ⟨size, size, size != board.chunkSize⟩, []⟩ := by
  rw [announcePlan, h, if_pos rfl]
  exact if_neg hsize

theorem receivePlan_idle {chunk : Chunk} (h : chunk.isIdle = true) (batch : List UInt8) :
    chunk.receivePlan batch = ⟨.error .unannounced, chunk, []⟩ := by
  rw [receivePlan, if_pos h]

/-- A batch that does not end the chunk is sent as a whole. -/
theorem receivePlan_short {chunk : Chunk} {batch : List UInt8}
    (h : batch.length < chunk.outstanding.toNat) :
    chunk.receivePlan batch = ⟨.ok .pending, chunk.sent batch.length, batch.map .send⟩ := by
  have hbusy : ¬chunk.isIdle = true := fun hi => by rw [isIdle_iff.mp hi] at h; omega
  have hrest : ¬(chunk.sent batch.length).isIdle = true := by
    rw [isIdle_iff, toNat_sent (Nat.le_of_lt h)]
    omega
  have htaken : min batch.length chunk.outstanding.toNat = batch.length :=
    Nat.min_eq_left (Nat.le_of_lt h)
  simp only [receivePlan, if_neg hbusy, htaken, afterBatch, if_neg hrest, List.take_length,
    List.append_nil]

/-- A batch that ends the chunk is sent as far as the chunk goes. -/
theorem receivePlan_enough {chunk : Chunk} {batch : List UInt8} (hpos : 0 < chunk.outstanding.toNat)
    (h : chunk.outstanding.toNat ≤ batch.length) :
    chunk.receivePlan batch = { chunk.ended.completePlan with
      acts := (batch.take chunk.outstanding.toNat).map .send
        ++ chunk.ended.completePlan.acts } := by
  have hbusy : ¬chunk.isIdle = true := fun hi => by rw [isIdle_iff.mp hi] at hpos; omega
  have hrest : chunk.ended.isIdle = true := rfl
  simp only [receivePlan, if_neg hbusy, Nat.min_eq_right h, sent_all, afterBatch, if_pos hrest]

/-- An announcement is refused, or is that of an empty chunk, or of one whose bytes are to come. -/
theorem announcePlan_cases (board : Board) (size : UInt16) (chunk : Chunk) :
    let plan := chunk.announcePlan board size
    chunk.isIdle = false ∧ plan = ⟨.error .busy, chunk, []⟩
      ∨ chunk.isIdle = true ∧ size = 0 ∧ plan = completePlan ⟨0, 0, 0 != board.chunkSize⟩
      ∨ chunk.isIdle = true ∧ size ≠ 0
        ∧ plan = ⟨.ok .pending, ⟨size, size, size != board.chunkSize⟩, []⟩ := by
  intro plan
  cases hidle : chunk.isIdle with
  | false => exact .inl ⟨rfl, announcePlan_busy hidle board size⟩
  | true =>
    by_cases hsize : size = 0
    · subst hsize
      exact .inr (.inl ⟨rfl, rfl, announcePlan_empty hidle board⟩)
    · exact .inr (.inr ⟨rfl, hsize, announcePlan_pending hidle board hsize⟩)

/-- A batch is refused, or ends before the chunk does, or reaches its end. -/
theorem receivePlan_cases (batch : List UInt8) (chunk : Chunk) :
    let n := chunk.outstanding.toNat
    let plan := chunk.receivePlan batch
    n = 0 ∧ plan = ⟨.error .unannounced, chunk, []⟩
      ∨ batch.length < n ∧ plan = ⟨.ok .pending, chunk.sent batch.length, batch.map .send⟩
      ∨ 0 < n ∧ n ≤ batch.length ∧ plan = { chunk.ended.completePlan with
          acts := (batch.take n).map .send ++ chunk.ended.completePlan.acts } := by
  intro n plan
  rcases Nat.eq_zero_or_pos n with hzero | hpos
  · exact .inl ⟨hzero, receivePlan_idle (isIdle_iff.mpr hzero) batch⟩
  · rcases Nat.lt_or_ge batch.length n with hshort | henough
    · exact .inr (.inl ⟨hshort, receivePlan_short hshort⟩)
    · exact .inr (.inr ⟨hpos, henough, receivePlan_enough hpos henough⟩)

/-! ## What the bus is to do -/

/-- What the bus is to do behind the bytes, if this comes of an operation. -/
def ending : Outcome → List Bus.Operation
  | .ok .configured => [.startUp, .confirm]
  | _ => []

theorem ending_of_ne {outcome : Outcome} (h : outcome ≠ .ok .configured) : ending outcome = [] := by
  unfold ending
  split
  · exact absurd rfl h
  · rfl

theorem filterMap_byte?_ending (outcome : Outcome) :
    (ending outcome).filterMap (·.byte?) = [] := by
  unfold ending
  split <;> rfl

/-- The target is not reset. -/
theorem reset_notMem_ending (outcome : Outcome) : Bus.Operation.reset ∉ ending outcome := by
  unfold ending
  split <;> simp

/-- Just if the target is started up, the upload is confirmed. -/
theorem confirm_mem_ending_iff (outcome : Outcome) :
    .confirm ∈ ending outcome ↔ .startUp ∈ ending outcome := by
  unfold ending
  split <;> simp

theorem acts_completePlan (chunk : Chunk) :
    chunk.completePlan.acts = ending chunk.completePlan.outcome := by
  unfold completePlan
  split <;> rfl

theorem acts_announcePlan (board : Board) (size : UInt16) (chunk : Chunk) :
    (chunk.announcePlan board size).acts = ending (chunk.announcePlan board size).outcome := by
  rcases announcePlan_cases board size chunk with ⟨-, hplan⟩ | ⟨-, -, hplan⟩ | ⟨-, -, hplan⟩
  · rw [hplan]
    rfl
  · rw [hplan]
    exact acts_completePlan _
  · rw [hplan]
    rfl

/-- The bytes of a batch that belong to the chunk are sent. -/
theorem acts_receivePlan (batch : List UInt8) (chunk : Chunk) :
    (chunk.receivePlan batch).acts = (batch.take chunk.outstanding.toNat).map .send
      ++ ending (chunk.receivePlan batch).outcome := by
  rcases receivePlan_cases batch chunk with ⟨hzero, hplan⟩ | ⟨hshort, hplan⟩ | ⟨-, -, hplan⟩
  · rw [hplan, hzero]
    rfl
  · rw [hplan, List.take_of_length_le (Nat.le_of_lt hshort)]
    exact (List.append_nil _).symm
  · rw [hplan]
    exact congrArg (_ ++ ·) (acts_completePlan _)

/-- What sends no byte is done behind the bytes, or not at all. -/
theorem mem_acts_receivePlan_iff {op : Bus.Operation} (h : op.byte? = none) (batch : List UInt8)
    (chunk : Chunk) :
    op ∈ (chunk.receivePlan batch).acts ↔ op ∈ ending (chunk.receivePlan batch).outcome := by
  have hsends (bytes : List UInt8) : op ∉ bytes.map Bus.Operation.send := by
    rw [List.mem_map]
    rintro ⟨byte, -, rfl⟩
    cases h
  rw [acts_receivePlan, List.mem_append]
  exact or_iff_right (hsends _)

theorem reset_notMem_announcePlan (board : Board) (size : UInt16) (chunk : Chunk) :
    Bus.Operation.reset ∉ (chunk.announcePlan board size).acts := by
  rw [acts_announcePlan]
  exact reset_notMem_ending _

theorem reset_notMem_receivePlan (batch : List UInt8) (chunk : Chunk) :
    Bus.Operation.reset ∉ (chunk.receivePlan batch).acts := by
  rw [mem_acts_receivePlan_iff rfl]
  exact reset_notMem_ending _

theorem confirm_mem_announcePlan_iff (board : Board) (size : UInt16) (chunk : Chunk) :
    .confirm ∈ (chunk.announcePlan board size).acts
      ↔ .startUp ∈ (chunk.announcePlan board size).acts := by
  rw [acts_announcePlan]
  exact confirm_mem_ending_iff _

theorem confirm_mem_receivePlan_iff (batch : List UInt8) (chunk : Chunk) :
    .confirm ∈ (chunk.receivePlan batch).acts ↔ .startUp ∈ (chunk.receivePlan batch).acts := by
  rw [mem_acts_receivePlan_iff rfl, mem_acts_receivePlan_iff rfl]
  exact confirm_mem_ending_iff _

variable {board : Board} {σ : Type} [Target σ]

/-! ## The operations follow their plans -/

/-- An operation does on its bus what the plan says. -/
structure Follows (plan : Plan) (bus : Bus board σ) (r : Recorded (Result board σ)) : Prop where
  outcome : r.value.outcome = plan.outcome
  chunk : r.value.chunk = plan.chunk
  does : Bus.Does plan.acts bus r.value.bus r.entries

theorem complete_follows (chunk : Chunk) (bus : Bus board σ) :
    Follows chunk.completePlan bus (chunk.complete bus) := by
  unfold completePlan complete
  split
  · refine ⟨rfl, rfl, ?_⟩
    exact (Bus.Does.startUp bus).congr (by simp)
  · exact ⟨rfl, rfl, Bus.Does.nothing bus rfl⟩

theorem announce_follows (size : UInt16) (chunk : Chunk) (bus : Bus board σ) :
    Follows (chunk.announcePlan board size) bus (chunk.announce size bus) := by
  unfold announcePlan announce
  cases chunk.isIdle with
  | false => exact ⟨rfl, rfl, Bus.Does.nothing bus rfl⟩
  | true =>
    by_cases hsize : size = 0
    · obtain ⟨ho, hc, hd⟩ := complete_follows ⟨size, size, size != board.chunkSize⟩ bus
      simp only [hsize] at ho hc hd ⊢
      exact ⟨ho, hc, hd.congr rfl⟩
    · simp only [hsize]
      exact ⟨rfl, rfl, Bus.Does.nothing bus rfl⟩

theorem afterBatch_follows (chunk : Chunk) (bus : Bus board σ) :
    Follows chunk.afterBatch bus
      (if chunk.isIdle then chunk.complete bus else pure ⟨.ok .pending, chunk, bus⟩) := by
  unfold afterBatch
  split
  · exact complete_follows chunk bus
  · exact ⟨rfl, rfl, Bus.Does.nothing bus rfl⟩

theorem receive_follows (batch : List UInt8) (chunk : Chunk) (bus : Bus board σ) :
    Follows (chunk.receivePlan batch) bus (chunk.receive batch bus) := by
  unfold receivePlan receive
  cases chunk.isIdle with
  | true => exact ⟨rfl, rfl, Bus.Does.nothing bus rfl⟩
  | false =>
    let taken := min batch.length chunk.outstanding.toNat
    have hsend := Bus.Does.sendAll (batch.take taken) bus
    obtain ⟨ho, hc, hd⟩ :=
      afterBatch_follows (chunk.sent taken) (bus.sendAll (batch.take taken)).value
    refine ⟨ho, hc, (hsend.append hd).congr ?_⟩
    simp only [Bool.false_eq_true, if_false, Recorded.entries_bind, Recorded.entries_noteWhen,
      calls_append, calls_noteIf, List.nil_append]
    rfl

theorem calls_discard (chunk : Chunk) : calls chunk.discard.entries = [] := by
  simp [discard]

end Chunk

end BitstreamUpload
