import BitstreamUpload.Proofs.Controllers

/-!
# A responder by the number of bytes outstanding

A reference machine that knows nothing but how many bytes of a chunk are outstanding, a plain number
without bounds, predicts a responder: its answers, whether it is receiving, and which bytes go to
the target. It tells commands apart by the direction, the code and the length of the request.
`Tally.Counts` relates the number to the chunk of the responder; each operation keeps it
(`Tally.counts_step`). What else the chunk holds may be out of date, and it does not matter.
-/

namespace BitstreamUpload

open Journal

namespace Responder

namespace Tally

/-! ## The reference machine -/

/-- The answer while `n` bytes are outstanding, for an operation that is answered so. Of requests to
the device, those with code `0x31` reset the target, those with code `0x32` announce a chunk as long
as they say, and all others are rejected. -/
def answer? (n : Nat) : Operation → Option Answer
  | .command setup =>
    some (if setup.direction = .toDevice ∧ setup.code = 0x31 then .accepted
      else if setup.direction = .toDevice ∧ setup.code = 0x32 then
        if 0 < n then .rejected else if setup.length = 0 then .accepted else .pending
      else .rejected)
  | .receive batch =>
    some (if n = 0 then .rejected else if n ≤ batch.length then .accepted else .pending)
  | .read _ | .discard => none

/-- How many bytes are outstanding behind an operation. An announcement counts unless it is
refused. -/
def next (n : Nat) (op : Operation) : Nat :=
  match op with
  | .command setup =>
    if setup.direction = .toDevice ∧ setup.code = 0x31 then 0
    else if setup.direction = .toDevice ∧ setup.code = 0x32 ∧ answer? n op ≠ some .rejected then
      setup.length.toNat
    else n
  | .receive batch => n - min batch.length n
  | .discard => 0
  | .read _ => n

/-- The bytes of an operation that go to the target. -/
def taken (n : Nat) : Operation → List UInt8
  | .receive batch => batch.take (min batch.length n)
  | _ => []

/-- How many bytes are outstanding after a history, none being so at its start. -/
def outstanding (ops : List Operation) : Nat :=
  ops.foldl next 0

/-- The bytes of a history that go to the target, if it starts with `n` outstanding. -/
def bytes : Nat → List Operation → List UInt8
  | _, [] => []
  | n, op :: ops => taken n op ++ bytes (next n op) ops

/-! ## The simulation -/

/-- The number stands for the chunk. The chunk may have been announced long ago and given up, so its
size is only a bound. -/
structure Counts (n : Nat) (chunk : Chunk) : Prop where
  outstanding : chunk.outstanding.toNat = n
  declared : n ≤ chunk.declared.toNat

/-- The plan of an operation is what the reference machine says it is. -/
structure Predicts (n : Nat) (op : Operation) (plan : Plan) : Prop where
  answer : plan.answer = answer? n op
  counts : Counts (next n op) plan.chunk
  sends : plan.acts.filterMap (·.byte?) = taken n op

variable {n : Nat} {chunk : Chunk}

theorem Counts.isIdle_iff (h : Counts n chunk) : chunk.isIdle = true ↔ n = 0 := by
  rw [Chunk.isIdle_iff, h.outstanding]

/-! ### Commands by their codes -/

variable {setup : Setup}

theorem answer?_reset (hs : setup.command? = some .reset) :
    answer? n (.command setup) = some .accepted := by
  have hcode : setup.direction = .toDevice ∧ setup.code = 0x31 :=
    Setup.command?_eq_reset_iff.mp hs
  rw [answer?, if_pos hcode]

theorem next_reset (hs : setup.command? = some .reset) : next n (.command setup) = 0 := by
  have hcode : setup.direction = .toDevice ∧ setup.code = 0x31 :=
    Setup.command?_eq_reset_iff.mp hs
  rw [next, if_pos hcode]

/-- The code of a chunk is not that of a reset. -/
theorem not_reset_of_chunk (hcode : setup.code = 0x32) :
    ¬(setup.direction = .toDevice ∧ setup.code = 0x31) := by
  rintro ⟨-, hreset⟩
  rw [hcode] at hreset
  exact absurd hreset (by decide)

theorem answer?_chunk {size : UInt16} (hs : setup.command? = some (.chunk size)) :
    answer? n (.command setup)
      = some (if 0 < n then .rejected else if size = 0 then .accepted else .pending) := by
  obtain ⟨hdirection, hcode, rfl⟩ := Setup.command?_eq_chunk_iff.mp hs
  rw [answer?, if_neg (not_reset_of_chunk hcode), if_pos ⟨hdirection, hcode⟩]

theorem next_chunk {size : UInt16} (hs : setup.command? = some (.chunk size)) :
    next n (.command setup) = if 0 < n then n else size.toNat := by
  have hanswer := answer?_chunk (n := n) hs
  obtain ⟨hdirection, hcode, rfl⟩ := Setup.command?_eq_chunk_iff.mp hs
  rw [next, if_neg (not_reset_of_chunk hcode)]
  by_cases hn : 0 < n
  · rw [if_pos hn] at hanswer ⊢
    exact if_neg fun h => h.2.2 hanswer
  · rw [if_neg hn] at hanswer ⊢
    refine if_pos ⟨hdirection, hcode, ?_⟩
    rw [hanswer]
    split <;> exact nofun

/-- What is neither a reset nor a chunk has neither of the two codes. -/
theorem other_codes (hreset : setup.command? ≠ some .reset)
    (hchunk : ∀ size, setup.command? ≠ some (.chunk size)) :
    ¬(setup.direction = .toDevice ∧ setup.code = 0x31)
      ∧ ¬(setup.direction = .toDevice ∧ setup.code = 0x32) :=
  ⟨fun h => hreset (Setup.command?_eq_reset_iff.mpr h),
    fun h => hchunk _ (Setup.command?_eq_chunk_iff.mpr ⟨h.1, h.2, rfl⟩)⟩

theorem answer?_other (hreset : setup.command? ≠ some .reset)
    (hchunk : ∀ size, setup.command? ≠ some (.chunk size)) :
    answer? n (.command setup) = some .rejected := by
  obtain ⟨hnot31, hnot32⟩ := other_codes hreset hchunk
  rw [answer?, if_neg hnot31, if_neg hnot32]

theorem next_other (hreset : setup.command? ≠ some .reset)
    (hchunk : ∀ size, setup.command? ≠ some (.chunk size)) : next n (.command setup) = n := by
  obtain ⟨hnot31, hnot32⟩ := other_codes hreset hchunk
  rw [next, if_neg hnot31, if_neg fun h => hnot32 ⟨h.1, h.2.1⟩]

/-! ### Each operation -/

theorem predicts_announce (h : Counts n chunk) (board : Board) {size : UInt16}
    (hs : setup.command? = some (.chunk size)) :
    Predicts n (.command setup) (.ofChunk (chunk.announcePlan board size)) := by
  -- The declared size is right again with each announcement that is not refused.
  have hfresh (isLast : Bool) : Counts size.toNat ⟨size, size, isLast⟩ := ⟨rfl, Nat.le_refl _⟩
  rcases Chunk.announcePlan_cases board size chunk with
    ⟨hbusy, hplan⟩ | ⟨hidle, rfl, hplan⟩ | ⟨hidle, hsize, hplan⟩
  · have hn : 0 < n := Nat.pos_of_ne_zero fun h0 => by simp [h.isIdle_iff.mpr h0] at hbusy
    rw [hplan]
    constructor
    · rw [answer?_chunk hs, if_pos hn]
      rfl
    · rw [next_chunk hs, if_pos hn]
      exact h
    · rfl
  · have hn : ¬0 < n := Nat.not_lt.mpr (Nat.le_of_eq (h.isIdle_iff.mp hidle))
    rw [hplan]
    constructor
    · rw [answer?_chunk hs, if_neg hn, if_pos rfl, Plan.ofChunk, answer_completePlan]
    · rw [next_chunk hs, if_neg hn, Plan.ofChunk, Chunk.chunk_completePlan]
      exact hfresh _
    · rw [Plan.ofChunk, Chunk.acts_completePlan]
      exact Chunk.filterMap_byte?_ending _
  · have hn : ¬0 < n := Nat.not_lt.mpr (Nat.le_of_eq (h.isIdle_iff.mp hidle))
    rw [hplan]
    constructor
    · rw [answer?_chunk hs, if_neg hn, if_neg hsize]
      rfl
    · rw [next_chunk hs, if_neg hn]
      exact hfresh _
    · rfl

/-- The bytes of a batch reach the bus as far as the chunk goes, and the answer tells whether they
went that far. -/
theorem predicts_receive (h : Counts n chunk) (batch : List UInt8) :
    Predicts n (.receive batch) (.ofChunk (chunk.receivePlan batch)) := by
  obtain ⟨rfl, hdeclared⟩ := h
  rcases Chunk.receivePlan_cases batch chunk with
    ⟨hzero, hplan⟩ | ⟨hshort, hplan⟩ | ⟨hpos, henough, hplan⟩
  · rw [hplan, hzero]
    constructor
    · rfl
    · rw [next, Nat.min_zero]
      exact ⟨hzero, Nat.zero_le _⟩
    · rw [taken, Nat.min_zero]
      rfl
  · have hne : chunk.outstanding.toNat ≠ 0 := Nat.ne_zero_of_lt hshort
    have hle : batch.length ≤ chunk.outstanding.toNat := Nat.le_of_lt hshort
    rw [hplan]
    constructor
    · rw [answer?, if_neg hne, if_neg (Nat.not_le.mpr hshort)]
      rfl
    · rw [next, Nat.min_eq_left hle]
      exact ⟨Chunk.toNat_sent hle, Nat.le_trans (Nat.sub_le _ _) hdeclared⟩
    · rw [taken, Nat.min_eq_left hle, List.take_length]
      exact Bus.filterMap_byte?_sends batch
  · have hne : chunk.outstanding.toNat ≠ 0 := Nat.ne_of_gt hpos
    rw [hplan]
    constructor
    · rw [answer?, if_neg hne, if_pos henough, Plan.ofChunk, answer_completePlan]
    · rw [next, Nat.min_eq_right henough, Nat.sub_self, Plan.ofChunk, Chunk.chunk_completePlan]
      exact ⟨rfl, Nat.zero_le _⟩
    · rw [taken, Nat.min_eq_right henough, Plan.ofChunk, List.filterMap_append,
        Bus.filterMap_byte?_sends, Chunk.acts_completePlan, Chunk.filterMap_byte?_ending,
        List.append_nil]

theorem predicts_plan (h : Counts n chunk) (board : Board) (op : Operation) :
    Predicts n op (plan board chunk op) := by
  have hzero : Counts 0 { chunk with outstanding := 0 } := ⟨rfl, Nat.zero_le _⟩
  cases op with
  | read setup => exact ⟨rfl, h, rfl⟩
  | receive batch => exact predicts_receive h batch
  | discard => exact ⟨rfl, hzero, rfl⟩
  | command setup =>
    rw [plan]
    unfold commandPlan
    split
    · next hs =>
      constructor
      · exact (answer?_reset hs).symm
      · rw [next_reset hs]
        exact hzero
      · rfl
    · next size hs => exact predicts_announce h board hs
    · next hreset hchunk =>
      constructor
      · exact (answer?_other hreset hchunk).symm
      · rw [next_other hreset hchunk]
        exact h
      · rfl

/-! ## Runs -/

variable {board : Board} {σ : Type} [Target σ]

theorem counts_step {r : Responder board σ} (h : Counts n r.chunk) (op : Operation) :
    Counts (next n op) (step op r).value.2.chunk := by
  rw [(step_follows op r).chunk]
  exact (predicts_plan h board op).counts

theorem answer_step {r : Responder board σ} (h : Counts n r.chunk) {op : Operation} {a : Answer}
    (ha : answer? n op = some a) : (step op r).value.1 = .answer a := by
  refine (step_follows op r).answer a ?_
  rw [(predicts_plan h board op).answer, ha]

theorem written_step {r : Responder board σ} (h : Counts n r.chunk) (op : Operation) :
    (step op r).entries.written = (taken n op).map board.bitOrder.apply := by
  rw [written_congr (step_follows op r).does.calls_eq, Bus.written_run,
    (predicts_plan h board op).sends]

theorem counts_run {r : Responder board σ} (h : Counts n r.chunk) (ops : List Operation) :
    Counts (ops.foldl next n) (run step ops r).value.chunk := by
  induction ops generalizing n r with
  | nil => exact h
  | cons op ops ih =>
    rw [run_cons, Recorded.value_bind, List.foldl_cons]
    exact ih (counts_step h op)

theorem written_run {r : Responder board σ} (h : Counts n r.chunk) (ops : List Operation) :
    (run step ops r).entries.written = (bytes n ops).map board.bitOrder.apply := by
  induction ops generalizing n r with
  | nil => rfl
  | cons op ops ih =>
    rw [run_cons, Recorded.entries_bind, written_append, written_step h op, ih (counts_step h op),
      bytes, List.map_append]

end Tally

/-- After every history, the responder has as many bytes outstanding as the reference machine, no
more than were announced, and is receiving while there are any; it gives the answers of the machine,
and the data pins got the bytes that the machine lets through, in order. -/
theorem tally_predicts_run {board : Board} {σ : Type} [Target σ] (target : σ) (identity : Identity)
    (ops : List Operation) :
    let start : Recorded (Responder board σ) := connect target identity
    let after := start >>= run step ops
    let n := Tally.outstanding ops
    after.value.chunk.outstanding.toNat = n
      ∧ n ≤ after.value.chunk.declared.toNat
      ∧ (after.value.isReceiving = true ↔ 0 < n)
      ∧ (∀ op a, Tally.answer? n op = some a → (step op after.value).value.1 = .answer a)
      ∧ after.entries.written = (Tally.bytes 0 ops).map board.bitOrder.apply := by
  intro start after n
  have hstart : Tally.Counts 0 start.value.chunk := ⟨rfl, Nat.zero_le _⟩
  have hafter : Tally.Counts n after.value.chunk := Tally.counts_run hstart ops
  refine ⟨hafter.outstanding, hafter.declared, ?_, ?_, ?_⟩
  · rw [isReceiving, Bool.not_eq_true', Bool.eq_false_iff, ne_eq, hafter.isIdle_iff]
    exact (Nat.pos_iff_ne_zero).symm
  · exact fun op a ha => Tally.answer_step hafter ha
  · exact Tally.written_run hstart ops

end Responder

end BitstreamUpload
