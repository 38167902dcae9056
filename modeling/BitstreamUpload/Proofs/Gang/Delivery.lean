import BitstreamUpload.Proofs.BusDiscipline
import BitstreamUpload.Proofs.Chunk.StartUp

/-!
# A chunk as the history of a gang tells of it

What a gang keeps of a chunk is not seen from the outside, but its operations, their outcomes and
the calls are. `latest` reads off them how far the chunk that was announced last was delivered,
whatever buses it went to. `Tracks` relates that to what the gang keeps. Each operation preserves it
(`tracks_work`), and so it holds behind every run (`tracks_run`): of all buses together a chunk
never gets more bytes than its size, and as many just if it is complete.
-/

namespace BitstreamUpload

open Journal

namespace Gang

variable {ι : Type} {boards : ι → Board} {σ : ι → Type}

/-! ## A chunk as the history tells of it -/

/-- How far a chunk was delivered, for one who sees the operations of a gang, their outcomes and
their calls. -/
structure Delivery (ι : Type) where
  /-- The bus that it was announced on. -/
  on : ι
  size : UInt16
  /-- How many bytes were put on the data pins for it, of all buses. -/
  sent : Nat
  /-- Whether it was said to be complete. -/
  isComplete : Bool
deriving Repr

/-- Whether an outcome says that a chunk is complete. -/
def completes : Option Outcome → Bool
  | some (.ok p) => p.isComplete
  | _ => false

/-- The delivery with so many bytes more, and perhaps complete now. -/
def Delivery.add (d : Delivery ι) (n : Nat) (done : Bool) : Delivery ι :=
  { d with sent := d.sent + n, isComplete := d.isComplete || done }

@[simp] theorem Delivery.add_zero (d : Delivery ι) : d.add 0 false = d := by
  cases d
  simp [add]

/-- What one turn more makes of the chunk that was announced last. Work that is done on a bus
directly has nothing to do with it. -/
def Delivery.after {τ : Type} (d? : Option (Delivery ι)) (t : Turn (Work ι) (Option Outcome) τ) :
    Option (Delivery ι) :=
  let n := t.entries.written.length
  match t.operation with
  | .direct _ _ => d?
  | .chunk op =>
    match op, t.answer with
    | .announce i size, some (.ok p) => some ⟨i, size, n, p.isComplete⟩
    | _, outcome => d?.map (·.add n (completes outcome))

/-- The chunk that was announced last in a history, and not refused. -/
def latest {τ : Type} (ts : List (Turn (Work ι) (Option Outcome) τ)) : Option (Delivery ι) :=
  ts.foldl Delivery.after none

theorem latest_concat {τ : Type} (ts : List (Turn (Work ι) (Option Outcome) τ))
    (t : Turn (Work ι) (Option Outcome) τ) : latest (ts ++ [t]) = Delivery.after (latest ts) t :=
  List.foldl_concat Delivery.after none t ts

/-- A delivery is within the size of its chunk, and reaches it just if the chunk is complete. -/
structure Delivery.IsSound (d : Delivery ι) : Prop where
  within : d.sent ≤ d.size.toNat
  complete : d.sent = d.size.toNat ↔ d.isComplete = true

theorem Delivery.isSound_add {d : Delivery ι} {n : Nat} {done : Bool}
    (hopen : d.isComplete = false) (hwithin : d.sent + n ≤ d.size.toNat)
    (hdone : d.sent + n = d.size.toNat ↔ done = true) : (d.add n done).IsSound where
  within := hwithin
  complete := by simpa [add, hopen] using hdone

/-- What the history tells of the latest chunk agrees with what the gang keeps of it. Of a chunk
that was given up the gang keeps nothing that counts. -/
structure Tracks (boards : ι → Board) (d? : Option (Delivery ι)) (chunk : Chunk) : Prop where
  receiving : 0 < chunk.outstanding.toNat → ∃ d, d? = some d ∧ d.isComplete = false
    ∧ d.sent + chunk.outstanding.toNat = d.size.toNat
    ∧ chunk.isLast = (d.size != (boards d.on).chunkSize)
  sound : ∀ d, d? = some d → d.IsSound

theorem Tracks.initial (boards : ι → Board) : Tracks boards none .initial where
  receiving := fun h => absurd h (Nat.lt_irrefl 0)
  sound := nofun

/-- An idle chunk has nothing to agree with. -/
theorem Tracks.of_idle {d? : Option (Delivery ι)} {chunk : Chunk}
    (hidle : chunk.outstanding.toNat = 0) (hsound : ∀ d, d? = some d → d.IsSound) :
    Tracks boards d? chunk where
  receiving := fun h => absurd hidle (Nat.ne_of_gt h)
  sound := hsound

variable [DecidableEq ι] [∀ i, Target (σ i)] {g : Gang boards σ} {d? : Option (Delivery ι)}

/-! ## One operation -/

theorem step_announce (i : ι) (size : UInt16) (g : Gang boards σ) :
    let plan := g.chunk.announcePlan (boards i) size
    let r := step (.announce i size) g
    r.value.1 = some plan.outcome ∧ r.value.2.chunk = plan.chunk ∧ r.entries.written = [] := by
  intro plan r
  have h := Chunk.announce_follows size g.chunk (g.buses i)
  have hentries : r.entries = (g.chunk.announce size (g.buses i)).entries :=
    Recorded.entries_map _ _
  have hacts : plan.acts = ([] : List UInt8).map .send ++ Chunk.ending plan.outcome :=
    Chunk.acts_announcePlan (boards i) size g.chunk
  refine ⟨congrArg some h.outcome, h.chunk, ?_⟩
  rw [hentries]
  exact Chunk.written_of_follows h hacts

theorem step_receive (i : ι) (batch : List UInt8) (g : Gang boards σ) :
    let plan := g.chunk.receivePlan batch
    let r := step (.receive i batch) g
    r.value.1 = some plan.outcome ∧ r.value.2.chunk = plan.chunk
      ∧ r.entries.written.length = min g.chunk.outstanding.toNat batch.length := by
  intro plan r
  have h := Chunk.receive_follows batch g.chunk (g.buses i)
  have hentries : r.entries = (g.chunk.receive batch (g.buses i)).entries :=
    Recorded.entries_map _ _
  refine ⟨congrArg some h.outcome, h.chunk, ?_⟩
  rw [hentries, Chunk.written_of_follows h (Chunk.acts_receivePlan batch g.chunk), List.length_map,
    List.length_take]

theorem quiet_discard (g : Gang boards σ) :
    let j := (step (.discard : Operation ι) g).entries
    j.calls = [] ∧ j.infos = [] := by
  intro j
  have hentries : j = g.chunk.discard.entries := Recorded.entries_map _ _
  rw [hentries, infos, Chunk.notes_discard]
  refine ⟨Chunk.calls_discard g.chunk, ?_⟩
  split <;> rfl

/-- The turn of an operation on the chunk. -/
abbrev opTurn (op : Operation ι) (g : Gang boards σ) :
    Turn (Work ι) (Option Outcome) (Gang boards σ) :=
  turn work (.chunk op) g

theorem after_announce (d? : Option (Delivery ι)) (i : ι) (size : UInt16) (g : Gang boards σ) :
    Delivery.after d? (opTurn (.announce i size) g)
      = match (g.chunk.announcePlan (boards i) size).outcome with
        | .ok p => some ⟨i, size, 0, p.isComplete⟩
        | .error _ => d? := by
  obtain ⟨houtcome, -, hwritten⟩ := step_announce i size g
  simp only [Delivery.after, opTurn, turn, work, houtcome, hwritten]
  cases (g.chunk.announcePlan (boards i) size).outcome with
  | ok p => rfl
  | error cause => simp [completes]

theorem after_receive (d? : Option (Delivery ι)) (i : ι) (batch : List UInt8)
    (g : Gang boards σ) :
    Delivery.after d? (opTurn (.receive i batch) g)
      = d?.map (·.add (min g.chunk.outstanding.toNat batch.length)
          (completes (some (g.chunk.receivePlan batch).outcome))) := by
  obtain ⟨houtcome, -, hwritten⟩ := step_receive i batch g
  simp only [Delivery.after, opTurn, turn, work, houtcome, hwritten]

theorem after_discard (d? : Option (Delivery ι)) (g : Gang boards σ) :
    Delivery.after d? (opTurn .discard g) = d? := by
  have hwritten : (step (.discard : Operation ι) g).entries.written = [] := by
    rw [written, (quiet_discard g).1]
    rfl
  simp only [Delivery.after, opTurn, turn, work, hwritten]
  simp [completes, step]

theorem tracks_announce (h : Tracks boards d? g.chunk) (i : ι) (size : UInt16) :
    Tracks boards (Delivery.after d? (opTurn (.announce i size) g))
      (step (.announce i size) g).value.2.chunk := by
  obtain ⟨-, hchunk, -⟩ := step_announce i size g
  rw [hchunk, after_announce]
  rcases Chunk.announcePlan_cases (boards i) size g.chunk with
    ⟨-, hplan⟩ | ⟨-, rfl, hplan⟩ | ⟨-, hsize, hplan⟩
  · rw [hplan]
    exact h
  · -- An empty chunk is complete, and the gang is idle again.
    rw [hplan, Chunk.outcome_completePlan, Chunk.chunk_completePlan]
    refine .of_idle rfl fun d hd => ?_
    cases hd
    refine ⟨Nat.le_refl _, fun _ => ?_, fun _ => rfl⟩
    split <;> rfl
  · rw [hplan]
    have hpos : 0 < size.toNat := Nat.pos_of_ne_zero fun hzero => hsize (UInt16.toNat_inj.mp hzero)
    constructor
    case receiving => exact fun _ => ⟨_, rfl, rfl, Nat.zero_add _, rfl⟩
    case sound =>
      intro d hd
      cases hd
      exact ⟨Nat.zero_le _, fun hzero => absurd hzero (Nat.ne_of_lt hpos), nofun⟩

theorem tracks_receive (h : Tracks boards d? g.chunk) (i : ι) (batch : List UInt8) :
    Tracks boards (Delivery.after d? (opTurn (.receive i batch) g))
      (step (.receive i batch) g).value.2.chunk := by
  obtain ⟨-, hchunk, -⟩ := step_receive i batch g
  rw [hchunk, after_receive]
  rcases Chunk.receivePlan_cases batch g.chunk with
    ⟨hzero, hplan⟩ | ⟨hshort, hplan⟩ | ⟨hpos, henough, hplan⟩
  · rw [hplan, hzero, Nat.zero_min]
    simpa [completes] using h
  · obtain ⟨d, rfl, hopen, hsize, hlast⟩ := h.receiving (Nat.zero_lt_of_lt hshort)
    have hleft := Chunk.toNat_sent (Nat.le_of_lt hshort)
    rw [hplan, Nat.min_eq_right (Nat.le_of_lt hshort)]
    constructor
    case receiving =>
      refine fun _ => ⟨d.add batch.length false, rfl, by simp [Delivery.add, hopen], ?_, hlast⟩
      show d.sent + batch.length + (g.chunk.sent batch.length).outstanding.toNat = d.size.toNat
      omega
    case sound =>
      intro d' hd
      cases hd
      refine Delivery.isSound_add hopen (by omega) ⟨fun hfull => ?_, nofun⟩
      omega
  · obtain ⟨d, rfl, hopen, hsize, hlast⟩ := h.receiving hpos
    rw [hplan, Nat.min_eq_left henough, Chunk.outcome_completePlan, Chunk.chunk_completePlan]
    refine .of_idle rfl fun d' hd => ?_
    cases hd
    refine Delivery.isSound_add hopen (Nat.le_of_eq hsize) ⟨fun _ => ?_, fun _ => hsize⟩
    cases g.chunk.ended.isLast <;> rfl

theorem tracks_discard (h : Tracks boards d? g.chunk) :
    Tracks boards (Delivery.after d? (opTurn .discard g))
      (step (.discard : Operation ι) g).value.2.chunk := by
  rw [after_discard]
  exact .of_idle rfl h.sound

/-- Whatever is done, what the history tells of the latest chunk goes on to agree with what the gang
keeps of it. -/
theorem tracks_work (h : Tracks boards d? g.chunk) (w : Work ι) :
    Tracks boards (Delivery.after d? (turn work w g)) (work w g).value.2.chunk := by
  cases w with
  | direct j op => exact h
  | chunk op =>
    cases op with
    | announce i size => exact tracks_announce h i size
    | receive i batch => exact tracks_receive h i batch
    | discard => exact tracks_discard h

theorem tracks_run (works : List (Work ι)) (h : g.chunk = .initial) :
    Tracks boards (latest (turns work works g)) (run work works g).value.chunk := by
  induction works using List.reverseRecOn with
  | nil => exact h ▸ .initial boards
  | append_singleton works w ih =>
    rw [turns_concat, latest_concat, value_run_concat]
    exact tracks_work ih w

end Gang

end BitstreamUpload
