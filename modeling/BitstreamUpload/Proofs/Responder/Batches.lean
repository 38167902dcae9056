import BitstreamUpload.Proofs.Responder.Plan
import BitstreamUpload.Proofs.Turns

/-!
# Batches

The bytes of a chunk may come in batches of any lengths. All that is left of a batch in the chunk is
its length (`Chunk.receivePlan_eq`), so a batch and the one behind it do together what the two of
them do as one (`Chunk.receivePlan_append`). By induction the same holds of all batches, for a chunk
alone (`Chunk.receives_run`) as for a responder (`receives_run`).
-/

namespace BitstreamUpload

open Journal

namespace Chunk

/-! ## One batch -/

/-- What comes of a batch, if `before` bytes came for the chunk ahead of it and `upTo` bytes are
there with it. -/
def outcomeOf (chunk : Chunk) (before upTo : Nat) : Outcome :=
  if chunk.outstanding.toNat ≤ before then .error .unannounced
  else if upTo < chunk.outstanding.toNat then .ok .pending
  else .ok (if chunk.isLast then .configured else .stored)

/-- What comes of batches, one after the other. -/
def outcomes (chunk : Chunk) (batches : List (List UInt8)) : List Outcome :=
  let came (k : Nat) := (batches.take k).flatten.length
  (List.range batches.length).map fun k => chunk.outcomeOf (came k) (came (k + 1))

/-- How a chunk ends depends on nothing but whether it is the last one. -/
theorem completePlan_ended (chunk : Chunk) : chunk.ended.completePlan
    = ⟨.ok (if chunk.isLast then .configured else .stored), chunk.ended,
        chunk.completePlan.acts⟩ := by
  have hlast : chunk.ended.isLast = chunk.isLast := rfl
  rw [completePlan, completePlan, hlast]
  split <;> rfl

/-- The plan of a batch without its cases. -/
theorem receivePlan_eq (batch : List UInt8) (chunk : Chunk) :
    let n := chunk.outstanding.toNat
    chunk.receivePlan batch = ⟨chunk.outcomeOf 0 batch.length, chunk.sent (min batch.length n),
      (batch.take n).map .send
        ++ if 0 < n ∧ n ≤ batch.length then chunk.completePlan.acts else []⟩ := by
  intro n
  rcases receivePlan_cases batch chunk with
    ⟨hzero, hplan⟩ | ⟨hshort, hplan⟩ | ⟨hpos, henough, hplan⟩
  · have hzero : n = 0 := hzero
    have hnone : ¬(0 < n ∧ n ≤ batch.length) := fun h => Nat.ne_of_gt h.1 hzero
    rw [hplan, outcomeOf, if_pos (Nat.le_of_eq hzero), if_neg hnone, hzero, Nat.min_zero, sent_zero]
    rfl
  · have hsome : ¬n ≤ 0 := Nat.not_le.mpr (Nat.zero_lt_of_lt hshort)
    have hrest : ¬(0 < n ∧ n ≤ batch.length) := fun h => Nat.not_le.mpr hshort h.2
    rw [hplan, outcomeOf, if_neg hsome, if_pos hshort, if_neg hrest,
      Nat.min_eq_left (Nat.le_of_lt hshort), List.take_of_length_le (Nat.le_of_lt hshort),
      List.append_nil]
  · have hsome : ¬n ≤ 0 := Nat.not_le.mpr hpos
    have hends : 0 < n ∧ n ≤ batch.length := ⟨hpos, henough⟩
    rw [hplan, completePlan_ended, outcomeOf, if_neg hsome, if_neg (Nat.not_lt.mpr henough),
      if_pos hends, Nat.min_eq_right henough, sent_all]

theorem toNat_sent_min (chunk : Chunk) (n : Nat) :
    (chunk.sent (min n chunk.outstanding.toNat)).outstanding.toNat
      = chunk.outstanding.toNat - n := by
  rw [toNat_sent (Nat.min_le_right _ _)]
  omega

/-- The bytes that came earlier count as if they were still to come. -/
theorem outcomeOf_sent (chunk : Chunk) (before n : Nat) :
    (chunk.sent (min before chunk.outstanding.toNat)).outcomeOf 0 n
      = chunk.outcomeOf before (before + n) := by
  have hlast : (chunk.sent (min before chunk.outstanding.toNat)).isLast = chunk.isLast := rfl
  have hnone : chunk.outstanding.toNat - before ≤ 0 ↔ chunk.outstanding.toNat ≤ before := by omega
  have hshort : n < chunk.outstanding.toNat - before ↔ before + n < chunk.outstanding.toNat := by
    omega
  simp only [outcomeOf, toNat_sent_min, hlast, hnone, hshort]

/-- Of two batches in a row, what the second one finds is what the first one left. -/
theorem receivePlan_append (batch batch' : List UInt8) (chunk : Chunk) :
    let first := chunk.receivePlan batch
    let second := first.chunk.receivePlan batch'
    (chunk.receivePlan (batch ++ batch')).chunk = second.chunk
      ∧ (chunk.receivePlan (batch ++ batch')).acts = first.acts ++ second.acts := by
  let n := chunk.outstanding.toNat
  simp only [receivePlan_eq, toNat_sent_min, sent_sent, List.length_append]
  constructor
  · congr 1
    omega
  · rw [List.take_append, List.map_append]
    have hends : (chunk.sent (min batch.length n)).completePlan.acts = chunk.completePlan.acts := by
      unfold completePlan sent
      split <;> rfl
    rw [hends]
    -- The chunk ends with the first batch, or if at all with the second one.
    rcases Nat.lt_or_ge batch.length n with hshort | henough
    · have hfirst : ¬(0 < n ∧ n ≤ batch.length) := fun h => Nat.not_le.mpr hshort h.2
      have hsecond : (0 < n ∧ n ≤ batch.length + batch'.length)
          ↔ (0 < n - batch.length ∧ n - batch.length ≤ batch'.length) := by omega
      simp only [n] at hfirst hsecond
      simp only [if_neg hfirst, hsecond, List.append_nil, List.append_assoc]
    · have hzero : chunk.outstanding.toNat - batch.length = 0 := Nat.sub_eq_zero_of_le henough
      have hboth : (0 < n ∧ n ≤ batch.length + batch'.length) ↔ (0 < n ∧ n ≤ batch.length) := by
        omega
      simp only [n] at hboth
      simp [hzero, hboth]

theorem receivePlan_nil (chunk : Chunk) : (chunk.receivePlan []).acts = [] := by
  rw [receivePlan_eq]
  have hends : ¬(0 < chunk.outstanding.toNat ∧ chunk.outstanding.toNat ≤ ([] : List UInt8).length) :=
    fun h => Nat.not_le.mpr h.1 h.2
  simp only [if_neg hends, List.take_nil, List.map_nil, List.append_nil]

/-! ## Batches for a chunk -/

variable {board : Board} {σ : Type} [Target σ]

/-- Takes a batch, with the bus as a part of the state. -/
def receiveStep (batch : List UInt8) (s : Chunk × Bus board σ) :
    Recorded (Outcome × (Chunk × Bus board σ)) :=
  (fun r => (r.outcome, (r.chunk, r.bus))) <$> s.1.receive batch s.2

/-- After some batches, the chunk and its bus are where the plan for all of their bytes puts them. -/
theorem receives_run (batches : List (List UInt8)) (s : Chunk × Bus board σ) :
    (run receiveStep batches s).value.1 = (s.1.receivePlan batches.flatten).chunk
      ∧ Bus.Does (s.1.receivePlan batches.flatten).acts s.2 (run receiveStep batches s).value.2
          (run receiveStep batches s).entries := by
  induction batches generalizing s with
  | nil =>
    have hchunk : (s.1.receivePlan []).chunk = s.1 := by
      rw [receivePlan_eq]
      exact sent_zero s.1
    rw [List.flatten_nil, hchunk, receivePlan_nil]
    exact ⟨rfl, Bus.Does.nothing s.2 rfl⟩
  | cons batch batches ih =>
    obtain ⟨-, hchunk, hdoes⟩ := receive_follows batch s.1 s.2
    have hstep : (receiveStep batch s).entries = (s.1.receive batch s.2).entries :=
      Recorded.entries_map _ _
    have hs : (receiveStep batch s).value.2.1 = (s.1.receivePlan batch).chunk := hchunk
    obtain ⟨hchunk', hdoes'⟩ := ih (receiveStep batch s).value.2
    obtain ⟨hplan, hacts⟩ := receivePlan_append batch batches.flatten s.1
    rw [hs] at hchunk' hdoes'
    rw [List.flatten_cons, hplan, hacts, run_cons, Recorded.value_bind, Recorded.entries_bind, hstep]
    exact ⟨hchunk', hdoes.append hdoes'⟩

theorem outcomes_concat (chunk : Chunk) (batches : List (List UInt8)) (batch : List UInt8) :
    chunk.outcomes (batches ++ [batch]) = chunk.outcomes batches
      ++ [chunk.outcomeOf batches.flatten.length (batches.flatten.length + batch.length)] := by
  have hcame {k : Nat} (hk : k ≤ batches.length) : (batches ++ [batch]).take k = batches.take k :=
    List.take_append_of_le_length hk
  have hall : (batches ++ [batch]).take (batches.length + 1) = batches ++ [batch] :=
    List.take_of_length_le (by simp)
  simp only [outcomes, List.length_append, List.length_singleton, List.range_succ, List.map_append,
    List.map_singleton, hall, hcame (Nat.le_refl _), List.take_length, List.flatten_append,
    List.flatten_singleton]
  congr 1
  refine List.map_congr_left fun k hk => ?_
  have hk : k < batches.length := List.mem_range.mp hk
  rw [hcame (Nat.le_of_lt hk), hcame hk]

/-- Batch by batch, a chunk and its bus end where the bytes of all batches at once put them. -/
theorem receiveStep_flatten (batches : List (List UInt8)) (s : Chunk × Bus board σ) :
    let apart := run receiveStep batches s
    let whole := receiveStep batches.flatten s
    apart.value = whole.value.2 ∧ apart.entries.calls = whole.entries.calls
      ∧ whole.value.1 = s.1.outcomeOf 0 batches.flatten.length := by
  intro apart whole
  obtain ⟨hchunk, hdoes⟩ := receives_run batches s
  obtain ⟨houtcome, hchunk', hdoes'⟩ := receive_follows batches.flatten s.1 s.2
  have hentries : whole.entries = (s.1.receive batches.flatten s.2).entries :=
    Recorded.entries_map _ _
  refine ⟨Prod.ext ?_ ?_, ?_, ?_⟩
  · exact hchunk.trans hchunk'.symm
  · exact hdoes.bus_eq.trans hdoes'.bus_eq.symm
  · rw [hentries, hdoes'.calls_eq]
    exact hdoes.calls_eq
  · rw [receivePlan_eq] at houtcome
    exact houtcome

/-- Each batch is answered by what came for the chunk before it and with it. -/
theorem answers_receives (batches : List (List UInt8)) (s : Chunk × Bus board σ) :
    (turns receiveStep batches s).map (·.answer) = s.1.outcomes batches := by
  induction batches using List.reverseRecOn with
  | nil => rfl
  | append_singleton batches batch ih =>
    let s' := (run receiveStep batches s).value
    have hlast : (turn receiveStep batch s').answer
        = s.1.outcomeOf batches.flatten.length (batches.flatten.length + batch.length) := calc
      (s'.1.receive batch s'.2).value.outcome = (s'.1.receivePlan batch).outcome :=
        (receive_follows batch s'.1 s'.2).outcome
      _ = s'.1.outcomeOf 0 batch.length := by rw [receivePlan_eq]
      _ = (s.1.receivePlan batches.flatten).chunk.outcomeOf 0 batch.length := by
        rw [(receives_run batches s).1]
      _ = _ := by rw [receivePlan_eq, outcomeOf_sent]
    rw [turns_concat, List.map_append, ih, outcomes_concat, List.map_singleton, hlast]

/-- The third batch ends the chunk and has a byte too many, and nothing is awaited by the fourth. -/
example : outcomes ⟨3, 3, true⟩ [[1], [], [2, 3, 4], [5]]
    = [.ok .pending, .ok .pending, .ok .configured, .error .unannounced] := rfl

end Chunk

namespace Responder

variable {board : Board} {σ : Type} [Target σ]

/-! ## Batches for a responder -/

/-- How a responder answers what comes of batches. -/
def answers (outcomes : List Outcome) : List Response :=
  outcomes.map fun outcome => .answer (.of outcome)

/-- A responder hands each batch to its chunk and keeps all else that it holds. -/
theorem value_step_receive (batch : List UInt8) (r : Responder board σ) :
    let after := (Chunk.receiveStep batch (r.chunk, r.bus)).value
    (step (.receive batch) r).value
      = (.answer (.of after.1), { r with chunk := after.2.1, bus := after.2.2 }) := by
  simp [step, receive, Chunk.receiveStep]

theorem calls_step_receive (batch : List UInt8) (r : Responder board σ) :
    (step (.receive batch) r).entries.calls
      = (Chunk.receiveStep batch (r.chunk, r.bus)).entries.calls := by
  have hchunk := (Chunk.receive_follows batch r.chunk r.bus).does.calls_eq
  rw [Chunk.receiveStep, Recorded.entries_map, hchunk]
  exact (receive_follows batch r).does.calls_eq

/-- Batches for a responder are batches for its chunk. -/
theorem receives_run (batches : List (List UInt8)) (r : Responder board σ) :
    let s := (r.chunk, r.bus)
    let after := run step (batches.map .receive) r
    let afterChunk := run Chunk.receiveStep batches s
    after.value = { r with chunk := afterChunk.value.1, bus := afterChunk.value.2 }
      ∧ after.entries.calls = afterChunk.entries.calls
      ∧ (turns step (batches.map .receive) r).map (·.answer)
        = answers ((turns Chunk.receiveStep batches s).map (·.answer)) := by
  induction batches generalizing r with
  | nil => exact ⟨rfl, rfl, rfl⟩
  | cons batch batches ih =>
    let s := (Chunk.receiveStep batch (r.chunk, r.bus)).value.2
    obtain ⟨hvalue, hcalls, hanswers⟩ := ih { r with chunk := s.1, bus := s.2 }
    have hstep := value_step_receive batch r
    simp only [List.map_cons, run_cons, Recorded.value_bind, Recorded.entries_bind, calls_append,
      calls_step_receive, turns, hstep]
    refine ⟨hvalue, ?_, ?_⟩
    · rw [hcalls]
    · rw [hanswers]
      rfl

/-- It makes no difference how the bytes for a chunk are cut into batches. Batch by batch and all at
once, the chunk and its bus end in the same state, with the same calls on the way, and the answers
tell how many bytes came before each batch and with it: none are awaited, or some still are, or the
batch was the one to end the chunk. The same holds of a responder, whatever it held before. -/
theorem receive_flatten {board : Board} {σ : Type} [Target σ] (batches : List (List UInt8)) :
    (∀ s : Chunk × Bus board σ,
      let apart := run Chunk.receiveStep batches s
      let whole := Chunk.receiveStep batches.flatten s
      apart.value = whole.value.2
        ∧ apart.entries.calls = whole.entries.calls
        ∧ (turns Chunk.receiveStep batches s).map (·.answer) = s.1.outcomes batches
        ∧ whole.value.1 = s.1.outcomeOf 0 batches.flatten.length)
    ∧ ∀ r : Responder board σ,
      let apart := run step (batches.map .receive) r
      let whole := step (.receive batches.flatten) r
      apart.value = whole.value.2
        ∧ apart.entries.calls = whole.entries.calls
        ∧ (turns step (batches.map .receive) r).map (·.answer)
          = answers (r.chunk.outcomes batches)
        ∧ whole.value.1 = .answer (.of (r.chunk.outcomeOf 0 batches.flatten.length)) := by
  constructor
  · intro s apart whole
    obtain ⟨hstate, hcalls, houtcome⟩ := Chunk.receiveStep_flatten batches s
    exact ⟨hstate, hcalls, Chunk.answers_receives batches s, houtcome⟩
  · intro r apart whole
    let s := (r.chunk, r.bus)
    obtain ⟨hvalue, hcalls, hanswers⟩ := receives_run batches r
    obtain ⟨hstate, hcalls', houtcome⟩ := Chunk.receiveStep_flatten batches s
    have hwhole : whole.value = _ := value_step_receive batches.flatten r
    refine ⟨?_, ?_, ?_, ?_⟩
    · rw [hvalue, hstate, hwhole]
    · rw [hcalls, hcalls', calls_step_receive]
    · rw [hanswers, Chunk.answers_receives]
    · rw [hwhole, houtcome]

end Responder

end BitstreamUpload
