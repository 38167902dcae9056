import BitstreamUpload.Proofs.Gang.Delivery
import BitstreamUpload.Target.Bench

/-!
# Which operation starts up which target

A chunk that goes to several buses is the last one or not by the board that it was announced on, and
the bus that gets its last byte is started up, which may be another one. In between there may have
been any number of batches, of announcements that were refused, and of chunks that were given up.
`last_chunk_starts_up` tells from the history of the gang whether an operation runs a start-up, and
what it does otherwise.
-/

namespace BitstreamUpload

open Journal

namespace Gang

variable {ι : Type} [DecidableEq ι] {boards : ι → Board} {σ : ι → Type} [∀ i, Target (σ i)]
  {g : Gang boards σ} {d? : Option (Delivery ι)}

/-! ## What an operation does on its bus -/

/-- The bytes that an operation sends, of those that it comes with. -/
def taken (before : Gang boards σ) : Operation ι → List UInt8
  | .receive _ batch => batch.take before.chunk.outstanding.toNat
  | .announce _ _ | .discard => []

/-- An operation runs a start-up on the bus that it is addressed to, behind the bytes it sends. -/
def StartsUp (op : Operation ι) (before : Gang boards σ) : Prop :=
  let r := step op before
  ∃ i, op.bus? = some i
    ∧ (before.buses i).StartedUp (taken before op) (r.value.2.buses i) r.entries

/-- An operation completes a chunk: it is a successful announcement of an empty one, or a batch that
leaves nothing outstanding of what was. -/
def Completes (op : Operation ι) (before : Gang boards σ) : Prop :=
  let r := (step op before).value
  match op with
  | .announce _ size => size = 0 ∧ ∃ p, r.1 = some (.ok p)
  | .receive _ _ => before.chunk.outstanding ≠ 0 ∧ r.2.chunk.outstanding = 0
  | .discard => False

omit [∀ i, Target (σ i)] in
/-- With these bytes, what came of an operation on the chunk is told by its outcome. -/
theorem ran_put {i : ι} {bytes : List UInt8} {r : Recorded (Chunk.Result (boards i) (σ i))}
    (h : Chunk.Ran bytes (g.buses i) r) :
    let s := (g.put i ·) <$> r
    (s.value.1 = some (.ok .configured) →
        (g.buses i).StartedUp bytes (s.value.2.buses i) s.entries)
      ∧ (s.value.1 ≠ some (.ok .configured) →
        (g.buses i).JustSent bytes (s.value.2.buses i) s.entries) := by
  intro s
  have hbus : s.value.2.buses i = r.value.bus := buses_setBus_self i r.value.bus g
  have hentries : s.entries = r.entries := Recorded.entries_map _ _
  rw [hbus, hentries]
  constructor
  · intro hconfigured
    exact h.startedUp (Option.some.inj hconfigured)
  · intro hother
    exact h.justSent fun hconfigured => hother (congrArg some hconfigured)

theorem ran_step {op : Operation ι} {i : ι} (hi : op.bus? = some i)
    (hlow : (g.buses i).lines.clock = false) :
    let r := step op g
    (r.value.1 = some (.ok .configured) →
        (g.buses i).StartedUp (taken g op) (r.value.2.buses i) r.entries)
      ∧ (r.value.1 ≠ some (.ok .configured) →
        (g.buses i).JustSent (taken g op) (r.value.2.buses i) r.entries) := by
  cases op with
  | announce i' size =>
    cases hi
    exact ran_put (Chunk.ran_announce size g.chunk hlow)
  | receive i' batch =>
    cases hi
    exact ran_put (Chunk.ran_receive batch g.chunk hlow)
  | discard => cases hi

/-- A bus that an operation is not addressed to stays as it is. -/
theorem buses_step_of_ne {op : Operation ι} {j : ι} (hj : op.bus? ≠ some j) (g : Gang boards σ) :
    (step op g).value.2.buses j = g.buses j := by
  have hdoes := (step_does op g j).bus_eq
  rw [actsOn, if_neg hj] at hdoes
  exact hdoes

theorem bus?_of_answer {op : Operation ι} {outcome : Outcome}
    (h : (step op g).value.1 = some outcome) : ∃ i, op.bus? = some i := by
  cases op with
  | announce i _ | receive i _ => exact ⟨i, rfl⟩
  | discard => cases h

theorem startsUp_iff (op : Operation ι) (hlow : ∀ i, (g.buses i).lines.clock = false) :
    StartsUp op g ↔ (step op g).value.1 = some (.ok .configured) := by
  constructor
  · rintro ⟨i, hi, hstarted⟩
    by_contra hother
    exact hstarted.not_justSent ((ran_step hi (hlow i)).2 hother)
  · intro hconfigured
    obtain ⟨i, hi⟩ := bus?_of_answer hconfigured
    exact ⟨i, hi, (ran_step hi (hlow i)).1 hconfigured⟩

/-! ## What completes a chunk -/

theorem completes_completePlan (chunk : Chunk) :
    completes (some chunk.completePlan.outcome) = true := by
  rw [Chunk.outcome_completePlan]
  cases chunk.isLast <;> rfl

theorem completes_iff (op : Operation ι) (g : Gang boards σ) :
    Completes op g ↔ completes (step op g).value.1 = true := by
  cases op with
  | announce i size =>
    obtain ⟨houtcome, -, -⟩ := step_announce i size g
    rw [Completes, houtcome]
    rcases Chunk.announcePlan_cases (boards i) size g.chunk with
      ⟨-, hplan⟩ | ⟨-, hzero, hplan⟩ | ⟨-, hsize, hplan⟩
    · simp [hplan, completes]
    · rw [hplan, completes_completePlan, Chunk.outcome_completePlan]
      exact ⟨fun _ => rfl, fun _ => ⟨hzero, _, rfl⟩⟩
    · simp [hplan, hsize, completes, Progress.isComplete]
  | receive i batch =>
    obtain ⟨houtcome, hchunk, -⟩ := step_receive i batch g
    rw [Completes, houtcome, hchunk]
    rcases Chunk.receivePlan_cases batch g.chunk with
      ⟨hzero, hplan⟩ | ⟨hshort, hplan⟩ | ⟨hpos, -, hplan⟩
    · have hnone : g.chunk.outstanding = 0 := UInt16.toNat_inj.mp hzero
      simp [hplan, hnone, completes]
    · have hleft : (g.chunk.sent batch.length).outstanding ≠ 0 := by
        rw [ne_eq, ← UInt16.toNat_inj, Chunk.toNat_sent (Nat.le_of_lt hshort)]
        exact Nat.sub_ne_zero_of_lt hshort
      simp [hplan, hleft, completes, Progress.isComplete]
    · have hsome : g.chunk.outstanding ≠ 0 := by
        rw [ne_eq, ← UInt16.toNat_inj]
        exact Nat.ne_of_gt hpos
      rw [hplan, completes_completePlan, Chunk.chunk_completePlan]
      exact ⟨fun _ => rfl, fun _ => ⟨hsome, rfl⟩⟩
  | discard => exact ⟨False.elim, fun h => absurd h Bool.false_ne_true⟩

/-- What an operation that completes a chunk answers is told by the size of the chunk and the board
that it was announced on. -/
theorem answer_of_completes (h : Tracks boards d? g.chunk) {op : Operation ι}
    (hcomplete : completes (step op g).value.1 = true) :
    ∃ d, Delivery.after d? (opTurn op g) = some d ∧ (step op g).value.1
      = some (.ok (if d.size != (boards d.on).chunkSize then .configured else .stored)) := by
  cases op with
  | announce i size =>
    obtain ⟨houtcome, -, -⟩ := step_announce i size g
    rw [houtcome] at hcomplete ⊢
    rw [after_announce]
    rcases Chunk.announcePlan_cases (boards i) size g.chunk with
      ⟨-, hplan⟩ | ⟨-, rfl, hplan⟩ | ⟨-, -, hplan⟩
    · rw [hplan] at hcomplete
      cases hcomplete
    · rw [hplan, Chunk.outcome_completePlan]
      exact ⟨_, rfl, rfl⟩
    · rw [hplan] at hcomplete
      cases hcomplete
  | receive i batch =>
    obtain ⟨houtcome, -, -⟩ := step_receive i batch g
    rw [houtcome] at hcomplete ⊢
    rw [after_receive]
    rcases Chunk.receivePlan_cases batch g.chunk with
      ⟨-, hplan⟩ | ⟨-, hplan⟩ | ⟨hpos, -, hplan⟩
    · rw [hplan] at hcomplete
      cases hcomplete
    · rw [hplan] at hcomplete
      cases hcomplete
    · -- The flag was set when the chunk was announced.
      obtain ⟨d, rfl, -, -, hlast⟩ := h.receiving hpos
      have hended : g.chunk.ended.isLast = (d.size != (boards d.on).chunkSize) := hlast
      refine ⟨_, rfl, ?_⟩
      rw [hplan, Chunk.outcome_completePlan, hended]
      rfl
  | discard => cases hcomplete

/-- What completes a chunk configures the target just if the chunk is not of the chunk size of the
board that it was announced on. -/
theorem configured_iff (h : Tracks boards d? g.chunk) (op : Operation ι) :
    (step op g).value.1 = some (.ok .configured) ↔ Completes op g
      ∧ ∃ d, Delivery.after d? (opTurn op g) = some d ∧ d.size ≠ (boards d.on).chunkSize := by
  rw [completes_iff]
  constructor
  · intro hconfigured
    have hcomplete : completes (step op g).value.1 = true := by rw [hconfigured]; rfl
    obtain ⟨d, hd, hanswer⟩ := answer_of_completes h hcomplete
    refine ⟨hcomplete, d, hd, fun hsize => ?_⟩
    rw [hconfigured, hsize] at hanswer
    simp at hanswer
  · rintro ⟨hcomplete, d, hd, hsize⟩
    obtain ⟨d', hd', hanswer⟩ := answer_of_completes h hcomplete
    obtain rfl := Option.some.inj (hd.symm.trans hd')
    rw [hanswer, if_pos (bne_iff_ne.mpr hsize)]

/-- A chunk that is complete is stored if the target is not configured with it. -/
theorem stored_iff (op : Operation ι) (g : Gang boards σ) :
    (step op g).value.1 = some (.ok .stored)
      ↔ Completes op g ∧ (step op g).value.1 ≠ some (.ok .configured) := by
  rw [completes_iff]
  rcases (step op g).value.1 with _ | cause | p
  · simp [completes]
  · simp [completes]
  · cases p <;> simp [completes, Progress.isComplete]

/-! ## Behind every run -/

/-- The clock of every bus is low behind a run, however the buses are worked. -/
theorem clock_run (targets : (i : ι) → σ i) (chunk : Chunk) (works : List (Work ι)) (i : ι) :
    let start : Gang boards σ := ⟨chunk, fun i => (Bus.connect (targets i)).value⟩
    ((run work works start).value.buses i).lines.clock = false :=
  ((worker boards σ i).disciplined works rfl).resting.1

/-- Whether an operation on a chunk runs a start-up is told by the history of the gang. It does just
if it completes the chunk that was announced last and the size of that chunk is not the chunk size
of the board it was announced on. Then it answers so, and the start-up is run once, on the bus that
the operation is addressed to, behind the last byte. Otherwise a chunk that is completed is stored,
and the operation only sends bytes. No other bus is worked, and of all buses together no chunk gets
more bytes than its size; it gets as many just if it is completed. -/
theorem last_chunk_starts_up {ι : Type} [DecidableEq ι] (boards : ι → Board) (σ : ι → Type)
    [∀ i, Target (σ i)] (targets : (i : ι) → σ i) (works : List (Work ι)) (op : Operation ι) :
    let start : Gang boards σ := ⟨.initial, fun i => (Bus.connect (targets i)).value⟩
    let history := turns work works start
    let before := (run work works start).value
    let t := turn work (.chunk op) before
    (StartsUp op before ↔ Completes op before
        ∧ ∃ d, latest (history ++ [t]) = some d ∧ d.size ≠ (boards d.on).chunkSize)
      ∧ (t.answer = some (.ok .configured) ↔ StartsUp op before)
      ∧ (t.answer = some (.ok .stored) ↔ Completes op before ∧ ¬StartsUp op before)
      ∧ (¬StartsUp op before → ∀ i, op.bus? = some i →
        (before.buses i).JustSent (taken before op) (t.after.buses i) t.entries)
      ∧ (∀ j, op.bus? ≠ some j → t.after.buses j = before.buses j)
      ∧ (op.bus? = none → t.entries.calls = [] ∧ t.entries.infos = [])
      ∧ ∀ d, latest history = some d → d.sent ≤ d.size.toNat
        ∧ (d.sent = d.size.toNat ↔ d.isComplete = true) := by
  intro start history before t
  have htracks : Tracks boards (latest history) before.chunk := tracks_run works rfl
  have hlow : ∀ i, (before.buses i).lines.clock = false := clock_run targets .initial works
  have hstarts : StartsUp op before ↔ t.answer = some (.ok .configured) := startsUp_iff op hlow
  refine ⟨?_, hstarts.symm, ?_, ?_, ?_, ?_, ?_⟩
  · rw [hstarts, latest_concat]
    exact configured_iff htracks op
  · rw [hstarts]
    exact stored_iff op before
  · intro hother i hi
    exact (ran_step hi (hlow i)).2 (mt hstarts.mpr hother)
  · intro j hj
    exact buses_step_of_ne hj before
  · intro hnone
    cases op with
    | announce i _ | receive i _ => cases hnone
    | discard => exact quiet_discard before
  · intro d hd
    have hsound := htracks.sound d hd
    exact ⟨hsound.within, hsound.complete⟩

/-- The board that a chunk is announced on decides, wherever its bytes go. -/
example :
    let boards (i : Bool) : Board := { chunkSize := if i then 3 else 2, startupClocks := 1 }
    let start : Gang boards fun _ => Bench :=
      ⟨.initial, fun _ => (Bus.connect { init := .staysLow }).value⟩
    let answers (i : Bool) :=
      (turns step [.announce i 2, .receive i [1], .receive (!i) [2, 3]] start).map (·.answer)
    answers true = [some (.ok .pending), some (.ok .pending), some (.ok .configured)]
      ∧ answers false = [some (.ok .pending), some (.ok .pending), some (.ok .stored)] := ⟨rfl, rfl⟩

end Gang

end BitstreamUpload
