import BitstreamUpload.Proofs.Bus.Bitstream
import BitstreamUpload.Proofs.Responder.Plan
import BitstreamUpload.Proofs.Responder.Upload
import BitstreamUpload.Target.Bench

/-!
# Uploads are delivered

`upload_delivers` says what a responder makes of an upload, from whatever state it is in. What a
stretch of operations does is put down as `Yields`, which goes through concatenation. So the law for
a block is put together from its announcement and its batches, and the law for an upload from its
blocks.
-/

namespace BitstreamUpload

open Journal

namespace Responder

/-! ## Stretches of operations -/

section

variable {board : Board} {σ : Type} [Target σ]

/-- The operations give these answers, have the bus do `acts`, and leave this chunk. -/
structure Yields (ops : List Operation) (r : Responder board σ) (answers : List Answer)
    (acts : List Bus.Operation) (chunk : Chunk) : Prop where
  answers : (turns step ops r).map (·.answer) = answers.map .answer
  does : Bus.Does acts r.bus (run step ops r).value.bus (run step ops r).entries
  chunk : (run step ops r).value.chunk = chunk

theorem Yields.nil (r : Responder board σ) : Yields [] r [] [] r.chunk :=
  ⟨rfl, Bus.Does.nothing r.bus rfl, rfl⟩

theorem Yields.append {ops ops' : List Operation} {r : Responder board σ}
    {answers answers' : List Answer} {acts acts' : List Bus.Operation} {chunk chunk' : Chunk}
    (h : Yields ops r answers acts chunk)
    (h' : Yields ops' (run step ops r).value answers' acts' chunk') :
    Yields (ops ++ ops') r (answers ++ answers') (acts ++ acts') chunk' where
  answers := by
    rw [turns_append, List.map_append, h.answers, h'.answers, List.map_append]
  does := by
    rw [run_append, Recorded.value_bind, Recorded.entries_bind]
    exact h.does.append h'.does
  chunk := by
    rw [run_append, Recorded.value_bind]
    exact h'.chunk

/-- One operation yields what its plan says. -/
theorem Yields.single {op : Operation} {r : Responder board σ} {a : Answer} {p : Plan}
    (hp : plan board r.chunk op = p) (ha : p.answer = some a) :
    Yields [op] r [a] p.acts p.chunk := by
  subst hp
  obtain ⟨hanswer, hchunk, hdoes⟩ := step_follows op r
  refine ⟨?_, ?_, hchunk⟩
  · exact congrArg (fun x => [x]) (hanswer a ha)
  · rw [run_cons, Recorded.value_bind, Recorded.entries_bind]
    exact hdoes.congr (by simp)

/-! ## Blocks -/

/-- Batches that leave bytes outstanding are sent as they are, and the chunk stays pending. -/
theorem yields_early (early : List (List UInt8)) {r : Responder board σ}
    (h : early.flatten.length < r.chunk.outstanding.toNat) :
    Yields (early.map .receive) r (early.map fun _ => .pending) (early.flatten.map .send)
      (r.chunk.sent early.flatten.length) := by
  induction early generalizing r with
  | nil =>
    rw [List.flatten_nil, List.length_nil, Chunk.sent_zero]
    exact Yields.nil r
  | cons batch early ih =>
    -- The batch leaves more bytes outstanding than the other batches have.
    rw [List.flatten_cons, List.length_append] at h
    have hshort : batch.length < r.chunk.outstanding.toNat := by omega
    have hbatch : Yields [.receive batch] r [.pending] (batch.map .send)
        (r.chunk.sent batch.length) := by
      refine Yields.single (p := ⟨some .pending, _, _⟩) ?_ rfl
      rw [plan, Chunk.receivePlan_short hshort]
      rfl
    have hleft : (run step [.receive batch] r).value.chunk.outstanding.toNat
        = r.chunk.outstanding.toNat - batch.length := by
      rw [hbatch.chunk, Chunk.toNat_sent (Nat.le_of_lt hshort)]
    have hrest := ih (r := (run step [.receive batch] r).value) (by rw [hleft]; omega)
    rw [hbatch.chunk, Chunk.sent_sent] at hrest
    rw [List.flatten_cons, List.length_append, List.map_append]
    exact hbatch.append hrest

/-- The batch that has all bytes outstanding completes the chunk. -/
theorem yields_last {batch : List UInt8} (hne : batch ≠ []) {r : Responder board σ}
    (h : r.chunk.outstanding.toNat = batch.length) :
    Yields [.receive batch] r [.accepted] (batch.map .send ++ r.chunk.ended.completePlan.acts)
      r.chunk.ended := by
  have hpos : 0 < r.chunk.outstanding.toNat := by
    rw [h]
    exact List.length_pos_iff.mpr hne
  refine Yields.single (p := ⟨some .accepted, r.chunk.ended, _⟩) ?_ rfl
  rw [plan, Chunk.receivePlan_enough hpos (Nat.le_of_eq h), h, List.take_length, Plan.ofChunk,
    answer_completePlan, Chunk.chunk_completePlan]

/-- The chunk behind a block, with none of its bytes outstanding. -/
def Block.chunk (board : Board) (b : Block) : Chunk :=
  ⟨b.size, 0, b.size != board.chunkSize⟩

/-- All bytes of a block are sent, and its last batch completes the chunk. -/
theorem Block.yields (b : Block) {r : Responder board σ} (h : r.chunk.isIdle = true) :
    Yields b.operations r b.answers (b.bytes.map .send ++ (b.chunk board).completePlan.acts)
      (b.chunk board) := by
  have hsize : b.size.toNat = b.early.flatten.length + b.last.length := by
    rw [b.size_eq, List.length_append]
  have hpos : 0 < b.last.length := List.length_pos_iff.mpr b.last_ne
  -- Each stretch starts from the state behind the one before, of which only the chunk matters.
  let announced : Chunk := ⟨b.size, b.size, b.size != board.chunkSize⟩
  have hannounce : Yields [.command b.announcement] r [.pending] [] announced := by
    refine Yields.single (p := ⟨some .pending, announced, []⟩) ?_ rfl
    rw [plan, b.announces, commandPlan, Chunk.announcePlan_pending h board b.size_ne_zero]
    rfl
  have hearly := yields_early b.early (r := (run step [.command b.announcement] r).value) (by
    rw [hannounce.chunk]
    show b.early.flatten.length < b.size.toNat
    omega)
  have hstart := hannounce.append hearly
  rw [hannounce.chunk] at hstart
  have hlast := yields_last b.last_ne (r := (run step _ r).value) (by
    rw [hstart.chunk, Chunk.toNat_sent]
    · show b.size.toNat - b.early.flatten.length = b.last.length
      omega
    · show b.early.flatten.length ≤ b.size.toNat
      omega)
  have hall := hstart.append hlast
  rw [hstart.chunk] at hall
  rw [bytes, List.map_append, List.append_assoc]
  exact hall

/-- A block as long as a chunk is stored. -/
theorem Block.yields_full {b : Block} (hfull : b.bytes.length = board.chunkSize.toNat)
    {r : Responder board σ} (h : r.chunk.isIdle = true) :
    Yields b.operations r b.answers (b.bytes.map .send) (b.chunk board) := by
  have hsize : b.size = board.chunkSize := UInt16.toNat_inj.mp (b.size_eq.trans hfull)
  have hacts : (b.chunk board).completePlan.acts = [] := by
    simp [Block.chunk, Chunk.completePlan, hsize]
  have hyields := b.yields h
  rw [hacts, List.append_nil] at hyields
  exact hyields

/-- A block that is shorter than a chunk has the target started up. -/
theorem Block.yields_short {b : Block} (hshort : b.bytes.length < board.chunkSize.toNat)
    {r : Responder board σ} (h : r.chunk.isIdle = true) :
    Yields b.operations r b.answers (b.bytes.map .send ++ [.startUp, .confirm])
      (b.chunk board) := by
  have hsize : b.size ≠ board.chunkSize := fun he => by
    have hlength : b.bytes.length = board.chunkSize.toNat := by
      rw [← he]
      exact b.size_eq.symm
    omega
  have hacts : (b.chunk board).completePlan.acts = [.startUp, .confirm] := by
    simp [Block.chunk, Chunk.completePlan, hsize]
  have hyields := b.yields h
  rwa [hacts] at hyields

/-- Blocks as long as a chunk are stored one after the other, with nothing between them. -/
theorem yields_blocks (blocks : List Block)
    (hfull : ∀ b ∈ blocks, b.bytes.length = board.chunkSize.toNat) {r : Responder board σ}
    (h : r.chunk.isIdle = true) :
    ∃ chunk : Chunk, chunk.isIdle = true
      ∧ Yields (blocks.flatMap Block.operations) r (blocks.flatMap Block.answers)
          ((blocks.flatMap Block.bytes).map .send) chunk := by
  induction blocks generalizing r with
  | nil => exact ⟨r.chunk, h, Yields.nil r⟩
  | cons b blocks ih =>
    have hone := Block.yields_full (hfull b List.mem_cons_self) h
    obtain ⟨chunk, hidle, hrest⟩ := ih (fun b' hb' => hfull b' (List.mem_cons_of_mem b hb'))
      (r := (run step b.operations r).value) (by rw [hone.chunk]; rfl)
    refine ⟨chunk, hidle, ?_⟩
    rw [List.flatMap_cons, List.flatMap_cons, List.flatMap_cons, List.map_append]
    exact hone.append hrest

/-! ## Whole uploads -/

/-- Either ending has the target started up. An empty chunk does so because it is not as long as a
chunk of the board. -/
theorem Ending.yields (hc : 0 < board.chunkSize) (e : Ending board.chunkSize.toNat)
    {r : Responder board σ} (h : r.chunk.isIdle = true) :
    ∃ chunk : Chunk, chunk.isIdle = true
      ∧ Yields e.operations r e.answers (e.bytes.map .send ++ [.startUp, .confirm]) chunk := by
  cases e with
  | short b hshort => exact ⟨b.chunk board, rfl, Block.yields_short hshort h⟩
  | empty announcement hannounces =>
    have hlast : (0 != board.chunkSize) = true := by
      rw [bne_iff_ne]
      exact fun he => UInt16.ne_of_lt hc he
    refine ⟨⟨0, 0, 0 != board.chunkSize⟩, rfl, ?_⟩
    refine Yields.single (p := ⟨some .accepted, _, _⟩) ?_ rfl
    rw [plan, hannounces, commandPlan, Chunk.announcePlan_empty h, hlast]
    rfl

theorem Upload.yields (hc : 0 < board.chunkSize) {bitstream : List UInt8}
    (u : Upload board.chunkSize.toNat bitstream) (r : Responder board σ) :
    ∃ chunk : Chunk, chunk.isIdle = true
      ∧ Yields u.operations r u.answers (Bus.bitstreamOperations bitstream) chunk := by
  have hreset : Yields [.command u.reset] r [.accepted] [.reset] r.chunk.ended := by
    refine Yields.single (p := ⟨some .accepted, _, _⟩) ?_ rfl
    rw [plan, u.resets]
    rfl
  obtain ⟨chunk, hidle, hfull⟩ := yields_blocks u.full u.length_full
    (r := (run step [.command u.reset] r).value) (by rw [hreset.chunk]; rfl)
  have hstart := hreset.append hfull
  obtain ⟨chunk', hidle', hending⟩ := u.ending.yields hc
    (r := (run step _ r).value) (by rw [hstart.chunk]; exact hidle)
  refine ⟨chunk', hidle', ?_⟩
  have hacts : Bus.bitstreamOperations bitstream
      = [.reset] ++ (u.full.flatMap Block.bytes).map .send
        ++ (u.ending.bytes.map .send ++ [.startUp, .confirm]) := by
    have hbytes := congrArg (List.map Bus.Operation.send) u.bitstream_eq
    rw [List.map_append] at hbytes
    rw [Bus.bitstreamOperations, ← hbytes]
    simp
  rw [hacts]
  exact hstart.append hending

end

/-- From any state, whatever went before, an upload gets the answers that its host waits for, and
none is a refusal. After the reset, each byte of the bitstream is put on the data pins once and
clocked in, in order, and then comes one start-up and nothing else. The responder is ready for the
next upload, and the status tells of this one. -/
theorem upload_delivers {board : Board} {σ : Type} [Target σ] (hc : 0 < board.chunkSize)
    {bitstream : List UInt8} (u : Upload board.chunkSize.toNat bitstream) (r : Responder board σ) :
    let after := run step u.operations r
    (turns step u.operations r).map (·.answer) = u.answers.map .answer
      ∧ (∀ t ∈ turns step u.operations r, t.answer.isRefusal = false)
      ∧ after.value.isReceiving = false
      ∧ after.value.bus.lines = .idle
      ∧ ∃ high,
        after.entries.calls = r.bus.reset.entries.calls
            ++ bitstream.flatMap (Bus.byteCalls board .ready) ++ Bus.startUpCalls board .ready high
          ∧ after.value.bus.status
            = .delivered r.bus.status.bitOrder bitstream r.bus.reset.entries.sawHigh high := by
  intro after
  obtain ⟨chunk, hidle, hanswers, hdoes, hchunk⟩ := u.yields hc r
  refine ⟨hanswers, ?_, ?_, ?_, (r.bus.sentAfterReset bitstream).startUpLevel, ?_, ?_⟩
  · intro t ht
    have hmem : t.answer ∈ u.answers.map Response.answer := by
      rw [← hanswers]
      exact List.mem_map_of_mem ht
    obtain ⟨a, ha, hta⟩ := List.mem_map.mp hmem
    have hne : a ≠ .rejected := fun he => u.not_rejected (he ▸ ha)
    rw [← hta]
    exact decide_eq_false hne
  · rw [isReceiving, hchunk, hidle]
    rfl
  · rw [hdoes.bus_eq, Bus.lines_bitstream]
  · rw [hdoes.calls_eq, Bus.calls_bitstream]
  · rw [hdoes.bus_eq, Bus.status_bitstream]

/-- A board with small chunks. -/
def smallBoard : Board := { chunkSize := 4, pollLimit := 5, startupClocks := 3 }

/-- Five bytes for it. The first block comes in three batches, one of them empty. -/
def fiveBytes : Upload smallBoard.chunkSize.toNat [1, 2, 3, 4, 5] where
  reset := .sending Command.resetCode 0
  resets := rfl
  full := [.ofBatches [[], [1, 2]] [3, 4] (by decide) (by decide)]
  length_full := by decide
  ending := .short (.ofBatches [] [5] (by decide) (by decide)) (by decide)
  bitstream_eq := rfl

theorem upload_delivers_fiveBytes :
    let bench : Bench := { init := .risesAfter 2 }
    let identity := Identity.basic (.replicate 4 0) (.replicate 4 0) (.replicate 10 0)
    let r : Responder smallBoard Bench := (connect bench identity).value
    0 < smallBoard.chunkSize
      ∧ (turns step fiveBytes.operations r).map (·.answer)
        = [.answer .accepted, .answer .pending, .answer .pending, .answer .pending,
          .answer .accepted, .answer .pending, .answer .accepted]
      ∧ (run step fiveBytes.operations r).value.isReceiving = false
      ∧ ∃ high, (run step fiveBytes.operations r).entries.calls
          = r.bus.reset.entries.calls ++ [1, 2, 3, 4, 5].flatMap (Bus.byteCalls smallBoard .ready)
            ++ Bus.startUpCalls smallBoard .ready high
        ∧ (run step fiveBytes.operations r).value.bus.status
          = .delivered .straight [1, 2, 3, 4, 5] true high := by
  intro bench identity r
  have hc : 0 < smallBoard.chunkSize := by decide
  obtain ⟨hanswers, -, hidle, -, high, hcalls, hstatus⟩ := upload_delivers hc fiveBytes r
  have hhigh : r.bus.reset.entries.sawHigh = true := rfl
  have horder : r.bus.status.bitOrder = .straight := rfl
  rw [hhigh, horder] at hstatus
  exact ⟨hc, hanswers, hidle, high, hcalls, hstatus⟩

end Responder

end BitstreamUpload
