import BitstreamUpload.Proofs.Turns

/-!
# States that cannot be told apart

A relation between states of a system is a `Bisimulation` if related states answer alike and write
alike, and every operation leaves them related. Then nothing that is seen of a run tells from which
of them it began.

`Turn.omitting` takes some turns out of a run. Where each of them would leave a state that cannot be
told from the one before it, the run without them goes on as if they had been in it
(`Bisimulation.turns_omitting`).
-/

namespace BitstreamUpload

variable {ω α σ : Type}

namespace Turn

/-- What is seen of a turn from outside. -/
def seen (t : Turn ω α σ) : ω × α × Journal :=
  (t.operation, t.answer, t.entries)

/-- What turns wrote is a part of what is seen of them. -/
theorem journal_eq_seen (ts : List (Turn ω α σ)) :
    journal ts = (ts.map seen).flatMap fun x => x.2.2 := by
  rw [List.flatMap_map]
  rfl

/-- Some turns without those that satisfy `p` and whose place is chosen. -/
def omitting (p : Turn ω α σ → Bool) (chosen : Nat → Bool) :
    List (Turn ω α σ) → List (Turn ω α σ)
  | [] => []
  | t :: ts =>
    let rest := omitting p (fun k => chosen (k + 1)) ts
    if chosen 0 && p t then rest else t :: rest

variable {p : Turn ω α σ → Bool} {chosen : Nat → Bool} {t : Turn ω α σ}

theorem omitting_cons_out (h : (chosen 0 && p t) = true) (ts : List (Turn ω α σ)) :
    omitting p chosen (t :: ts) = omitting p (fun k => chosen (k + 1)) ts :=
  if_pos h

theorem omitting_cons_in (h : (chosen 0 && p t) = false) (ts : List (Turn ω α σ)) :
    omitting p chosen (t :: ts) = t :: omitting p (fun k => chosen (k + 1)) ts :=
  if_neg (Bool.eq_false_iff.mp h)

/-- Turns that make no call may be left out of the calls of a run. -/
theorem calls_omitting {ts : List (Turn ω α σ)} (h : ∀ t ∈ ts, p t = true → t.entries.calls = [])
    (chosen : Nat → Bool) : (journal (omitting p chosen ts)).calls = (journal ts).calls := by
  induction ts generalizing chosen with
  | nil => rfl
  | cons t ts ih =>
    have hrest := ih (fun t' ht' => h t' (List.mem_cons_of_mem t ht')) fun k => chosen (k + 1)
    rw [journal_cons, Journal.calls_append, ← hrest]
    cases hout : chosen 0 && p t with
    | true =>
      have hnone : t.entries.calls = [] :=
        h t List.mem_cons_self (Bool.and_eq_true_iff.mp hout).2
      rw [omitting_cons_out hout, hnone, List.nil_append]
    | false => rw [omitting_cons_in hout, journal_cons, Journal.calls_append]

end Turn

/-- Related states answer alike and write alike, and each operation leaves them related. -/
structure Bisimulation (step : ω → σ → Recorded (α × σ)) (R : σ → σ → Prop) : Prop where
  answer : ∀ {s s'}, R s s' → ∀ op, (step op s).value.1 = (step op s').value.1
  entries : ∀ {s s'}, R s s' → ∀ op, (step op s).entries = (step op s').entries
  after : ∀ {s s'}, R s s' → ∀ op, R (step op s).value.2 (step op s').value.2

namespace Bisimulation

variable {step : ω → σ → Recorded (α × σ)} {R : σ → σ → Prop} {p : Turn ω α σ → Bool}

theorem seen_turn (h : Bisimulation step R) {s s' : σ} (hs : R s s') (op : ω) :
    (turn step op s').seen = (turn step op s).seen := by
  have hseen (s : σ) : (turn step op s).seen = (op, (step op s).value.1, (step op s).entries) := rfl
  rw [hseen, hseen, h.answer hs, h.entries hs]

/-- Turns that leave a state which cannot be told from the one before may be taken out of a run. The
others go on to answer and write the same, and the run ends in related states. -/
theorem turns_omitting (h : Bisimulation step R)
    (hinert : ∀ op s s', R s s' → p (turn step op s) = true → R (step op s).value.2 s')
    (ops : List ω) (chosen : Nat → Bool) {s s' : σ} (hs : R s s') :
    let kept := Turn.omitting p chosen (turns step ops s)
    let ops' := kept.map (·.operation)
    (turns step ops' s').map Turn.seen = kept.map Turn.seen
      ∧ R (run step ops s).value (run step ops' s').value := by
  induction ops generalizing chosen s s' with
  | nil => exact ⟨rfl, hs⟩
  | cons op ops ih =>
    have hturns : turns step (op :: ops) s = turn step op s :: turns step ops (step op s).value.2 :=
      rfl
    rw [hturns, run_cons, Recorded.value_bind]
    cases hout : chosen 0 && p (turn step op s) with
    | true =>
      -- The other run stays where it is.
      have hstay := hinert op s s' hs (Bool.and_eq_true_iff.mp hout).2
      rw [Turn.omitting_cons_out hout]
      exact ih _ hstay
    | false =>
      obtain ⟨hseen, hend⟩ := ih (fun k => chosen (k + 1)) (h.after hs op)
      rw [Turn.omitting_cons_in hout]
      refine ⟨List.cons_eq_cons.mpr ⟨h.seen_turn hs op, hseen⟩, ?_⟩
      rw [List.map_cons, run_cons, Recorded.value_bind]
      exact hend

end Bisimulation

end BitstreamUpload
