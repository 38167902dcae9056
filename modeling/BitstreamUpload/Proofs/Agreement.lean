import BitstreamUpload.Proofs.Turns
import Mathlib.Data.List.Forall2

/-!
# Computations that read the same levels

All that the controller ever learns from its target is the level of `INIT_B` at each sample. So two
computations over two targets can be told apart only by what they were given and by what they read.
`Recorded.Agrees R` says this of two computations: if their samples read the same levels, then they
write the same journal and end in values that are related by `R`.

Computations in a row agree if their parts do (`Agrees.bind`), and so do the loops over a list and
the search (`Agrees.foldl`, `Agrees.search`). For systems whose steps agree it follows that their
runs do, turn by turn (`Agrees.run`, `forall₂_turns`).
-/

namespace BitstreamUpload

namespace Journal

/-- The samples of a journal read these levels, one after the other. -/
def Reads (levels : Nat → Bool) (j : Journal) : Prop :=
  j.samples = (List.range j.samples.length).map levels

instance (levels : Nat → Bool) (j : Journal) : Decidable (Reads levels j) :=
  inferInstanceAs (Decidable (_ = _))

variable {levels : Nat → Bool} {j j' : Journal}

/-- A journal behind another one goes on with the levels that are left. -/
theorem reads_append : Reads levels (j ++ j')
    ↔ Reads levels j ∧ Reads (fun k => levels (j.samples.length + k)) j' := by
  have hlength : j.samples.length = ((List.range j.samples.length).map levels).length := by simp
  simp only [Reads, samples_append, List.length_append, List.range_add, List.map_append,
    List.map_map]
  constructor
  · intro h
    exact List.append_inj h hlength
  · rintro ⟨h, h'⟩
    exact congrArg₂ (· ++ ·) h h'

/-- What is written without a sample leaves all levels to what follows. -/
theorem reads_append_of_samples_eq_nil (h : j.samples = []) :
    Reads levels (j ++ j') ↔ Reads levels j' := by
  rw [Reads, Reads, samples_append, h, List.nil_append]

theorem reads_sample {high : Bool} (h : Reads levels [.call (.sample high)]) : high = levels 0 :=
  List.head_eq_of_cons_eq h

end Journal

namespace Recorded

variable {α α' β β' γ : Type}

/-- The same answer, and states that are related. -/
structure SameAnswer (R : α → α' → Prop) (x : γ × α) (x' : γ × α') : Prop where
  answer : x.1 = x'.1
  state : R x.2 x'.2

/-- If the samples of both read the same levels, two computations write the same and end in related
values. -/
def Agrees (R : α → α' → Prop) (x : Recorded α) (x' : Recorded α') : Prop :=
  ∀ levels, x.entries.Reads levels → x'.entries.Reads levels →
    x.entries = x'.entries ∧ R x.value x'.value

namespace Agrees

variable {R : α → α' → Prop} {S : β → β' → Prop} {x : Recorded α} {x' : Recorded α'}

theorem pure {a : α} {a' : α'} (h : R a a') : Agrees R (Pure.pure a) (Pure.pure a') :=
  fun _ _ _ => ⟨rfl, h⟩

/-- Any computation agrees with itself. -/
theorem refl (x : Recorded α) : Agrees Eq x x :=
  fun _ _ _ => ⟨rfl, rfl⟩

theorem mono {R' : α → α' → Prop} (h : Agrees R x x') (hR : ∀ a a', R a a' → R' a a') :
    Agrees R' x x' := by
  intro levels hreads hreads'
  obtain ⟨hentries, hvalue⟩ := h levels hreads hreads'
  exact ⟨hentries, hR _ _ hvalue⟩

theorem bind {f : α → Recorded β} {f' : α' → Recorded β'} (h : Agrees R x x')
    (hf : ∀ a a', R a a' → Agrees S (f a) (f' a')) : Agrees S (x >>= f) (x' >>= f') := by
  intro levels hreads hreads'
  rw [entries_bind, Journal.reads_append] at hreads hreads'
  obtain ⟨hfirst, hrest⟩ := hreads
  obtain ⟨hfirst', hrest'⟩ := hreads'
  obtain ⟨hentries, hvalue⟩ := h levels hfirst hfirst'
  -- Having written the same, both go on with the same levels.
  rw [← hentries] at hrest'
  obtain ⟨hentries', hvalue'⟩ := hf _ _ hvalue _ hrest hrest'
  exact ⟨by rw [entries_bind, entries_bind, hentries, hentries'], hvalue'⟩

theorem map {f : α → β} {f' : α' → β'} (h : Agrees R x x') (hf : ∀ a a', R a a' → S (f a) (f' a')) :
    Agrees S (f <$> x) (f' <$> x') := by
  rw [← bind_pure_comp, ← bind_pure_comp]
  exact h.bind fun a a' ha => pure (hf a a' ha)

/-- What is made of the answers is the same too. -/
theorem mapAnswer {δ : Type} {x : Recorded (γ × α)} {x' : Recorded (γ × α')}
    (h : Agrees (SameAnswer R) x x') (g : γ → δ) :
    Agrees (SameAnswer R) ((fun a => (g a.1, a.2)) <$> x) ((fun a => (g a.1, a.2)) <$> x') :=
  h.map fun _ _ ha => ⟨congrArg g ha.answer, ha.state⟩

/-- Two computations that note the same first. -/
theorem noted (n : Note) {a : α} {a' : α'} (h : R a a') :
    Agrees R (note n >>= fun _ => Pure.pure a) (note n >>= fun _ => Pure.pure a') :=
  (refl (note n)).bind fun _ _ _ => pure h

theorem exclusively (h : Agrees R x x') :
    Agrees R (Recorded.exclusively x) (Recorded.exclusively x') := by
  intro levels hreads hreads'
  have hinner {j : Journal} (hj : Journal.Reads levels (.enter :: (j ++ [.leave]))) :
      j.Reads levels := by
    have hj : Journal.Reads levels (j ++ [.leave]) := hj
    exact (Journal.reads_append.mp hj).1
  obtain ⟨hentries, hvalue⟩ := h levels (hinner hreads) (hinner hreads')
  refine ⟨?_, hvalue⟩
  rw [entries_exclusively, entries_exclusively, hentries]

theorem foldl {step : β → α → Recorded β} {step' : β' → α → Recorded β'}
    (h : ∀ a b b', S b b' → Agrees S (step b a) (step' b' a)) (as : List α) {b : β} {b' : β'}
    (hb : S b b') : Agrees S (Recorded.foldl step b as) (Recorded.foldl step' b' as) := by
  induction as generalizing b b' with
  | nil => exact pure hb
  | cons a as ih =>
    rw [foldl_cons, foldl_cons]
    exact (h a b b' hb).bind fun _ _ => ih

theorem iterate {step : β → Recorded β} {step' : β' → Recorded β'}
    (h : ∀ b b', S b b' → Agrees S (step b) (step' b')) (n : Nat) {b : β} {b' : β'} (hb : S b b') :
    Agrees S (Recorded.iterate step n b) (Recorded.iterate step' n b') :=
  foldl (fun _ => h) _ hb

/-- Searches that agree step by step end after the same number of steps, in the same way. -/
theorem search {step : β → Recorded (Bool × β)} {step' : β' → Recorded (Bool × β')}
    (h : ∀ b b', S b b' → Agrees (SameAnswer S) (step b) (step' b'))
    (limit : Nat) {b : β} {b' : β'} (hb : S b b') :
    Agrees (fun s s' => s.found = s'.found ∧ s.tries = s'.tries ∧ S s.state s'.state)
      (Recorded.search step limit b) (Recorded.search step' limit b') := by
  induction limit generalizing b b' with
  | zero => exact pure ⟨rfl, rfl, hb⟩
  | succ limit ih =>
    rw [search_succ, search_succ]
    refine (h b b' hb).bind ?_
    rintro ⟨found, b⟩ ⟨found', b'⟩ ⟨hfound, hb⟩
    simp only at hfound
    subst hfound
    cases found with
    | true => exact pure ⟨rfl, rfl, hb⟩
    | false =>
      refine (ih hb).bind ?_
      rintro s s' ⟨hfound, htries, hstate⟩
      exact pure ⟨hfound, congrArg (· + 1) htries, hstate⟩

end Agrees

end Recorded

open Recorded

variable {ω α σ τ : Type}

/-- The steps of two systems agree: in related states they answer the same and end in related
states. -/
def StepsAgree (R : σ → τ → Prop) (step : ω → σ → Recorded (α × σ))
    (step' : ω → τ → Recorded (α × τ)) : Prop :=
  ∀ op s s', R s s' → Agrees (SameAnswer R) (step op s) (step' op s')

namespace StepsAgree

variable {R : σ → τ → Prop} {step : ω → σ → Recorded (α × σ)} {step' : ω → τ → Recorded (α × τ)}

theorem agrees_run (h : StepsAgree R step step') (ops : List ω) {s : σ} {s' : τ} (hs : R s s') :
    Agrees R (run step ops s) (run step' ops s') := by
  refine Agrees.foldl (fun op s s' hs => ?_) ops hs
  exact (h op s s' hs).map fun _ _ hx => hx.state

/-- Runs of two systems look the same, turn by turn. -/
theorem forall₂_turns (h : StepsAgree R step step') (ops : List ω) {s : σ} {s' : τ} (hs : R s s')
    {levels : Nat → Bool} (hreads : (run step ops s).entries.Reads levels)
    (hreads' : (run step' ops s').entries.Reads levels) :
    List.Forall₂ (fun t t' => t.operation = t'.operation ∧ t.answer = t'.answer
        ∧ t.entries = t'.entries ∧ R t.after t'.after)
      (turns step ops s) (turns step' ops s') := by
  induction ops generalizing s s' levels with
  | nil => exact .nil
  | cons op ops ih =>
    rw [run_cons, entries_bind, Journal.reads_append] at hreads hreads'
    obtain ⟨hfirst, hrest⟩ := hreads
    obtain ⟨hfirst', hrest'⟩ := hreads'
    obtain ⟨hentries, hanswer, hafter⟩ := h op s s' hs levels hfirst hfirst'
    rw [← hentries] at hrest'
    exact .cons ⟨rfl, hanswer, hentries, hafter⟩ (ih hafter hrest hrest')

end StepsAgree

end BitstreamUpload
