import BitstreamUpload.Proofs.Turns

/-!
# Exclusive sections of a journal

A journal `IsSectioned` if the marks in it make up sections: each section is left before the next
one is entered, and before the end. Sectioned journals one after the other are sectioned again, so
it is enough to know it of every turn of a run (`Turn.isSectioned_journal`). `Journal.IsSection` says
that a journal is a single section with nothing but notes behind it, and where in it a call must lie
(`IsSection.split_call`).

What a computation writes is looked at from its parts: `Recorded.Writes p` says that all of it
satisfies `p`, with one rule for each way of putting computations together.
-/

namespace BitstreamUpload

/-! ## Marks -/

namespace Entry

/-- Whether an entry is an end of an exclusive section. -/
def isMark : Entry → Bool
  | enter | leave => true
  | _ => false

def isNote : Entry → Bool
  | note _ => true
  | _ => false

/-- Whether a section is open behind an entry, if it is known whether one is open before it. There
is no answer for a section that is entered inside another one, or left while none is open. -/
def opens? (isOpen : Bool) : Entry → Option Bool
  | enter => if isOpen then none else some true
  | leave => if isOpen then some false else none
  | _ => some isOpen

theorem isMark_of_isNote {e : Entry} (h : e.isNote = true) : e.isMark = false := by
  cases e with
  | note n => rfl
  | _ => cases h

theorem opens?_of_not_mark {e : Entry} (h : e.isMark = false) (isOpen : Bool) :
    e.opens? isOpen = some isOpen := by
  cases e with
  | call c => rfl
  | note n => rfl
  | _ => cases h

end Entry

namespace Journal

variable {j j' : Journal}

/-- No section begins or ends in a journal. -/
def IsUnmarked (j : Journal) : Prop :=
  ∀ e ∈ j, e.isMark = false

/-- Each section is left before the next one is entered, and before the end. -/
def IsSectioned (j : Journal) : Prop :=
  j.foldlM Entry.opens? false = some false

instance (j : Journal) : Decidable j.IsSectioned :=
  inferInstanceAs (Decidable (_ = _))

/-- How often a section is entered. -/
def sections (j : Journal) : Nat :=
  j.count .enter

theorem IsUnmarked.append (h : j.IsUnmarked) (h' : j'.IsUnmarked) : (j ++ j').IsUnmarked := by
  intro e he
  rcases List.mem_append.mp he with he | he
  · exact h e he
  · exact h' e he

theorem IsUnmarked.foldlM_opens? (h : j.IsUnmarked) (isOpen : Bool) :
    j.foldlM Entry.opens? isOpen = some isOpen := by
  induction j with
  | nil => rfl
  | cons e j ih =>
    obtain ⟨he, hj⟩ := List.forall_mem_cons.mp h
    rw [List.foldlM_cons, Entry.opens?_of_not_mark he]
    exact ih hj

theorem IsUnmarked.isSectioned (h : j.IsUnmarked) : j.IsSectioned :=
  h.foldlM_opens? false

theorem IsUnmarked.sections_eq (h : j.IsUnmarked) : j.sections = 0 :=
  List.count_eq_zero.mpr fun hmem => absurd (h _ hmem) (by decide)

theorem IsSectioned.append (h : j.IsSectioned) (h' : j'.IsSectioned) : (j ++ j').IsSectioned := by
  rw [IsSectioned, List.foldlM_append, h]
  exact h'

/-- Marks that match can still be nested, and then they are not sections. -/
example : ¬IsSectioned [.enter, .enter, .leave, .leave] := by decide

/-! ## Single sections -/

/-- A journal is one section, and behind it there are notes only. -/
structure IsSection (inside behind j : Journal) : Prop where
  eq : j = .enter :: (inside ++ .leave :: behind)
  unmarked : inside.IsUnmarked
  notes : ∀ e ∈ behind, e.isNote = true

namespace IsSection

variable {inside behind : Journal}

theorem isSectioned (h : IsSection inside behind j) : j.IsSectioned := by
  have hbehind : behind.IsUnmarked := fun e he => Entry.isMark_of_isNote (h.notes e he)
  rw [h.eq, IsSectioned, List.foldlM_cons]
  show (inside ++ .leave :: behind).foldlM Entry.opens? true = some false
  rw [List.foldlM_append, h.unmarked.foldlM_opens?]
  exact hbehind.foldlM_opens? false

theorem sections_eq (h : IsSection inside behind j) : j.sections = 1 := by
  have hbehind : behind.IsUnmarked := fun e he => Entry.isMark_of_isNote (h.notes e he)
  have hinside : inside.count .enter = 0 := h.unmarked.sections_eq
  have hend : (.leave :: behind).count .enter = 0 := hbehind.sections_eq
  rw [h.eq, sections, List.count_cons_self, List.count_append, hinside, hend]

/-- A call can only lie between the two marks. -/
theorem split_call (h : IsSection inside behind j) {before after : Journal} {c : BusCall}
    (hsplit : j = before ++ .call c :: after) :
    ∃ first rest, inside = first ++ .call c :: rest ∧ before = .enter :: first
      ∧ after = rest ++ .leave :: behind := by
  have hall : (.enter :: inside) ++ (.leave :: behind) = before ++ .call c :: after :=
    h.eq.symm.trans hsplit
  rcases exists_of_append hall with ⟨rest, hfirst, hafter⟩ | ⟨first, -, hbehind⟩
  · cases before with
    | nil => cases (List.cons.inj hfirst).1
    | cons e first =>
      obtain ⟨rfl, hinside⟩ := List.cons.inj hfirst
      exact ⟨first, rest, hinside, rfl, hafter⟩
  · have hmem : .call c ∈ Entry.leave :: behind := by
      rw [hbehind]
      simp
    rcases List.mem_cons.mp hmem with he | hmem
    · cases he
    · exact absurd (h.notes _ hmem) Bool.false_ne_true

end IsSection

end Journal

/-! ## Turns -/

namespace Turn

variable {ω α σ : Type}

theorem isSectioned_journal {ts : List (Turn ω α σ)} (h : ∀ t ∈ ts, t.entries.IsSectioned) :
    (journal ts).IsSectioned := by
  induction ts with
  | nil => rfl
  | cons t ts ih =>
    obtain ⟨ht, hts⟩ := List.forall_mem_cons.mp h
    rw [journal_cons]
    exact ht.append (ih hts)

/-- If the turns of some kind have one section each and the others have none, there are as many
sections as turns of that kind. -/
theorem sections_journal {p : ω → Bool} {ts : List (Turn ω α σ)}
    (h : ∀ t ∈ ts, t.entries.sections = if p t.operation then 1 else 0) :
    (journal ts).sections = ts.countP fun t => p t.operation := by
  induction ts with
  | nil => rfl
  | cons t ts ih =>
    obtain ⟨ht, hts⟩ := List.forall_mem_cons.mp h
    have hrest : (journal ts).count .enter = _ := ih hts
    have hfirst : t.entries.count .enter = _ := ht
    rw [journal_cons, Journal.sections, List.count_append, hfirst, hrest, List.countP_cons,
      Nat.add_comm]

/-- What stands in the journal of a run was written by one of its operations. -/
theorem exists_of_entries_run {step : ω → σ → Recorded (α × σ)} {ops : List ω} {s : σ}
    {before after : Journal} {e : Entry} (h : (run step ops s).entries = before ++ e :: after) :
    ∃ earlier op later first rest, ops = earlier ++ op :: later
      ∧ before = (run step earlier s).entries ++ first
      ∧ (turn step op (run step earlier s).value).entries = first ++ e :: rest
      ∧ after = rest
        ++ (run step later (turn step op (run step earlier s).value).after).entries := by
  induction ops generalizing s before with
  | nil => simp at h
  | cons op ops ih =>
    rw [run_cons, Recorded.entries_bind] at h
    rcases exists_of_append h with ⟨rest, hop, hafter⟩ | ⟨first, hbefore, hrest⟩
    · exact ⟨[], op, ops, before, rest, rfl, rfl, hop, hafter⟩
    · obtain ⟨earlier, op', later, first, rest, rfl, rfl, hop, rfl⟩ := ih hrest
      refine ⟨op :: earlier, op', later, first, rest, rfl, ?_, ?_, ?_⟩
      · rw [hbefore, run_cons, Recorded.entries_bind, List.append_assoc]
      · rw [run_cons]
        exact hop
      · rw [run_cons]
        rfl

end Turn

/-! ## What a computation writes -/

namespace Recorded

variable {α β : Type} {p : Entry → Prop}

/-- All that is written satisfies `p`. -/
def Writes (p : Entry → Prop) (x : Recorded α) : Prop :=
  ∀ e ∈ x.entries, p e

namespace Writes

theorem pure (a : α) : Writes p (Pure.pure a : Recorded α) :=
  nofun

theorem note {n : Note} (h : p (.note n)) : Writes p (note n) := by
  intro e he
  rw [List.mem_singleton.mp he]
  exact h

theorem noteWhen {n : Note} (h : p (.note n)) (cause : Prop) [Decidable cause] :
    Writes p (noteWhen cause n) := by
  unfold Recorded.noteWhen
  split
  · exact note h
  · exact pure ()

theorem bind {x : Recorded α} {f : α → Recorded β} (h : Writes p x) (hf : ∀ a, Writes p (f a)) :
    Writes p (x >>= f) := by
  intro e he
  rw [entries_bind] at he
  rcases List.mem_append.mp he with he | he
  · exact h e he
  · exact hf _ e he

theorem map {x : Recorded α} (h : Writes p x) (f : α → β) : Writes p (f <$> x) := by
  rw [← bind_pure_comp]
  exact h.bind fun _ => pure _

theorem foldl {step : β → α → Recorded β} (h : ∀ b a, Writes p (step b a)) (as : List α) (b : β) :
    Writes p (Recorded.foldl step b as) := by
  induction as generalizing b with
  | nil => exact pure b
  | cons a as ih =>
    rw [foldl_cons]
    exact (h b a).bind ih

theorem iterate {step : β → Recorded β} (h : ∀ b, Writes p (step b)) (n : Nat) (b : β) :
    Writes p (Recorded.iterate step n b) :=
  foldl (fun b _ => h b) _ b

theorem search {step : β → Recorded (Bool × β)} (h : ∀ b, Writes p (step b)) (limit : Nat)
    (b : β) : Writes p (Recorded.search step limit b) := by
  induction limit generalizing b with
  | zero => exact pure _
  | succ limit ih =>
    rw [search_succ]
    refine (h b).bind fun ⟨found, b'⟩ => ?_
    cases found with
    | true => exact pure _
    | false => exact (ih b').bind fun _ => pure _

end Writes

end Recorded

end BitstreamUpload
