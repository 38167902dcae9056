import BitstreamUpload.Run
import BitstreamUpload.Proofs.Journal
import Mathlib.Data.List.DropRight

/-!
# Looking back over the turns of a run

What a run did since the last operation of some kind, and what that operation itself did. Both are
read off the turns from their end, so a run that is longer by one operation adds one turn at the end
(`turns_concat`), and the laws here say what that turn makes of them.
-/

namespace BitstreamUpload

variable {ω α σ : Type}

/-- The turn that an operation takes. -/
def turn (step : ω → σ → Recorded (α × σ)) (op : ω) (s : σ) : Turn ω α σ :=
  ⟨op, (step op s).value.1, (step op s).entries, (step op s).value.2⟩

theorem turns_concat (step : ω → σ → Recorded (α × σ)) (ops : List ω) (op : ω) (s : σ) :
    turns step (ops ++ [op]) s = turns step ops s ++ [turn step op (run step ops s).value] := by
  rw [turns_append]
  rfl

theorem map_operation_turns (step : ω → σ → Recorded (α × σ)) (ops : List ω) (s : σ) :
    (turns step ops s).map (·.operation) = ops := by
  induction ops generalizing s with
  | nil => rfl
  | cons op ops ih => exact congrArg (op :: ·) (ih _)

theorem value_run_concat (step : ω → σ → Recorded (α × σ)) (ops : List ω) (op : ω) (s : σ) :
    (run step (ops ++ [op]) s).value = (step op (run step ops s).value).value.2 := by
  rw [run_append]
  rfl

namespace Turn

/-- What holds of every turn from any state holds of the turns of a run. -/
theorem forall_mem_turns {step : ω → σ → Recorded (α × σ)} {P : Turn ω α σ → Prop}
    (h : ∀ op s, P (turn step op s)) (ops : List ω) (s : σ) : ∀ t ∈ turns step ops s, P t := by
  induction ops generalizing s with
  | nil => exact nofun
  | cons op ops ih =>
    intro t ht
    rcases List.mem_cons.mp ht with rfl | ht
    · exact h op s
    · exact ih _ t ht

variable (p : ω → Bool)

/-- The turns behind the last one whose operation satisfies `p`. These are all turns if there is no
such operation. -/
def sinceLast (ts : List (Turn ω α σ)) : List (Turn ω α σ) :=
  ts.rtakeWhile fun t => !p t.operation

/-- The turns up to the last one whose operation satisfies `p`. -/
def untilLast (ts : List (Turn ω α σ)) : List (Turn ω α σ) :=
  ts.rdropWhile fun t => !p t.operation

/-- The last turn whose operation satisfies `p`. -/
def last? (ts : List (Turn ω α σ)) : Option (Turn ω α σ) :=
  (ts.filter fun t => p t.operation).getLast?

variable {p}

@[simp] theorem sinceLast_nil : sinceLast p ([] : List (Turn ω α σ)) = [] := rfl

theorem sinceLast_concat_pos {t : Turn ω α σ} (h : p t.operation = true)
    (ts : List (Turn ω α σ)) : sinceLast p (ts ++ [t]) = [] :=
  List.rtakeWhile_concat_neg _ _ _ (by simp [h])

theorem sinceLast_concat_neg {t : Turn ω α σ} (h : p t.operation = false)
    (ts : List (Turn ω α σ)) : sinceLast p (ts ++ [t]) = sinceLast p ts ++ [t] :=
  List.rtakeWhile_concat_pos _ _ _ (by simp [h])

theorem last?_concat_pos {t : Turn ω α σ} (h : p t.operation = true)
    (ts : List (Turn ω α σ)) : last? p (ts ++ [t]) = some t := by
  rw [last?, List.filter_append, List.filter_singleton, h]
  exact List.getLast?_concat

theorem last?_concat_neg {t : Turn ω α σ} (h : p t.operation = false)
    (ts : List (Turn ω α σ)) : last? p (ts ++ [t]) = last? p ts := by
  rw [last?, List.filter_append, List.filter_singleton, h]
  simp [last?]

/-- There is no last turn of a kind if there is no operation of that kind. -/
theorem last?_eq_none_iff (step : ω → σ → Recorded (α × σ)) (ops : List ω) (s : σ) :
    last? p (turns step ops s) = none ↔ ∀ op ∈ ops, p op = false := by
  rw [last?, List.getLast?_eq_none_iff, List.filter_eq_nil_iff]
  conv_rhs => rw [← map_operation_turns step ops s]
  simp

theorem samples_journal (ts : List (Turn ω α σ)) :
    (journal ts).samples = ts.flatMap (·.entries.samples) := by
  induction ts with
  | nil => rfl
  | cons t ts ih => rw [journal_cons, Journal.samples_append, ih, List.flatMap_cons]

theorem map_operation_sinceLast (ts : List (Turn ω α σ)) :
    (sinceLast p ts).map (·.operation) = (ts.map (·.operation)).rtakeWhile fun op => !p op := by
  rw [sinceLast, List.rtakeWhile, List.rtakeWhile, ← List.map_reverse, List.takeWhile_map,
    List.map_reverse]
  rfl

/-- Turns after which no operation satisfies `p` are all since the last one that does. -/
theorem sinceLast_append {ts' : List (Turn ω α σ)} (h : ∀ t ∈ ts', p t.operation = false)
    (ts : List (Turn ω α σ)) : sinceLast p (ts ++ ts') = sinceLast p ts ++ ts' := by
  induction ts' using List.reverseRecOn with
  | nil => simp
  | append_singleton ts' t ih =>
    have ht : p t.operation = false := h t (by simp)
    have hrest := ih fun t' ht' => h t' (List.mem_append_left _ ht')
    rw [← List.append_assoc, sinceLast_concat_neg ht, hrest, List.append_assoc]

/-- A run is cut behind the last operation that satisfies `p`. If there is none, all of it lies
behind the cut. -/
theorem exists_cut (step : ω → σ → Recorded (α × σ)) (ops : List ω) (s : σ) :
    ∃ earlier since, ops = earlier ++ since
      ∧ (∀ op ∈ since, p op = false)
      ∧ untilLast p (turns step ops s) = turns step earlier s
      ∧ sinceLast p (turns step ops s) = turns step since (run step earlier s).value
      ∧ (earlier = [] ∧ last? p (turns step ops s) = none
        ∨ ∃ before op, earlier = before ++ [op] ∧ p op = true
          ∧ last? p (turns step ops s) = some (turn step op (run step before s).value)) := by
  induction ops using List.reverseRecOn with
  | nil => exact ⟨[], [], rfl, nofun, rfl, rfl, .inl ⟨rfl, rfl⟩⟩
  | append_singleton ops op ih =>
    obtain ⟨earlier, since, hops, hsince, hu, hs, hlast⟩ := ih
    let t := turn step op (run step ops s).value
    have hturns : turns step (ops ++ [op]) s = turns step ops s ++ [t] := turns_concat step ops op s
    cases hop : p op with
    | true =>
      -- The operation is the last one that satisfies `p`, and nothing lies behind it.
      have ht : p t.operation = true := hop
      refine ⟨ops ++ [op], [], by simp, nofun, ?_, ?_, .inr ⟨ops, op, rfl, hop, ?_⟩⟩
      · rw [hturns, untilLast, List.rdropWhile_concat_neg _ _ _ (by simp [ht])]
      · rw [hturns, sinceLast_concat_pos ht]
        rfl
      · rw [hturns, last?_concat_pos ht]
    | false =>
      have ht : p t.operation = false := hop
      refine ⟨earlier, since ++ [op], by rw [hops, List.append_assoc], ?_, ?_, ?_, ?_⟩
      · intro op' hop'
        rcases List.mem_append.mp hop' with hop' | hop'
        · exact hsince op' hop'
        · rw [List.mem_singleton.mp hop', hop]
      · rw [hturns, untilLast, List.rdropWhile_concat_pos _ _ _ (by simp [ht])]
        exact hu
      · have hend : (run step since (run step earlier s).value).value = (run step ops s).value := by
          rw [hops, run_append]
          rfl
        rw [hturns, sinceLast_concat_neg ht, hs, turns_concat, hend]
      · rw [hturns, last?_concat_neg ht]
        exact hlast

end Turn

end BitstreamUpload
