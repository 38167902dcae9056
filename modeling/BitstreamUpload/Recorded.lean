import BitstreamUpload.Journal

/-!
# Recorded computations

A `Recorded α` is a value together with the journal that was written on the way to it. Two of them
in a row write one journal after the other (`entries_bind`).

Two loops come with it. `Recorded.foldl` goes over a list, `Recorded.search` repeats a step until it
succeeds. Both collect their journal backwards, so that a loop of any length runs in constant stack;
`foldl_cons` and `search_succ` are their plain equations.
-/

namespace BitstreamUpload

/-- A value and what was done to get it. -/
structure Recorded (α : Type) where
  value : α
  entries : Journal
deriving Repr

namespace Recorded

variable {α β γ : Type}

instance : Monad Recorded where
  pure a := ⟨a, []⟩
  bind r f := ⟨(f r.value).value, r.entries ++ (f r.value).entries⟩

@[ext] theorem ext {r r' : Recorded α} (hv : r.value = r'.value) (he : r.entries = r'.entries) :
    r = r' := by
  cases r; cases r'; simp_all

@[simp] theorem value_pure (a : α) : (pure a : Recorded α).value = a := rfl

@[simp] theorem entries_pure (a : α) : (pure a : Recorded α).entries = [] := rfl

@[simp] theorem value_bind (r : Recorded α) (f : α → Recorded β) :
    (r >>= f).value = (f r.value).value := rfl

@[simp] theorem entries_bind (r : Recorded α) (f : α → Recorded β) :
    (r >>= f).entries = r.entries ++ (f r.value).entries := rfl

instance : LawfulMonad Recorded :=
  LawfulMonad.mk' Recorded
    (fun _ => ext rfl (List.append_nil _))
    (fun _ _ => rfl)
    (fun _ _ _ => ext rfl (List.append_assoc _ _ _))

@[simp] theorem value_map (f : α → β) (r : Recorded α) : (f <$> r).value = f r.value := rfl

@[simp] theorem entries_map (f : α → β) (r : Recorded α) : (f <$> r).entries = r.entries :=
  List.append_nil _

/-! ## Single entries -/

def write (e : Entry) : Recorded Unit := ⟨(), [e]⟩

@[simp] theorem entries_write (e : Entry) : (write e).entries = [e] := rfl

def note (n : Note) : Recorded Unit := write (.note n)

@[simp] theorem entries_note (n : Note) : (note n).entries = [.note n] := rfl

/-- Writes a note if there is cause to. -/
def noteWhen (cause : Prop) [Decidable cause] (n : Note) : Recorded Unit :=
  if cause then note n else pure ()

@[simp] theorem entries_noteWhen (cause : Prop) [Decidable cause] (n : Note) :
    (noteWhen cause n).entries = if cause then [.note n] else [] := by
  unfold noteWhen
  split <;> rfl

/-- Does `r` inside an exclusive section. -/
def exclusively (r : Recorded α) : Recorded α :=
  ⟨r.value, .enter :: (r.entries ++ [.leave])⟩

@[simp] theorem value_exclusively (r : Recorded α) : (exclusively r).value = r.value := rfl

@[simp] theorem entries_exclusively (r : Recorded α) :
    (exclusively r).entries = .enter :: (r.entries ++ [.leave]) := rfl

/-! ## Going over a list -/

/-- `foldl` with the journal so far, newest entry first. -/
def foldlOnto (step : β → α → Recorded β) : β → Journal → List α → Recorded β
  | b, done, [] => ⟨b, done.reverse⟩
  | b, done, a :: as =>
    foldlOnto step (step b a).value ((step b a).entries.reverseAux done) as

/-- Takes a step for each item of a list, from the first to the last. -/
def foldl (step : β → α → Recorded β) (b : β) (as : List α) : Recorded β :=
  foldlOnto step b [] as

theorem foldlOnto_eq (step : β → α → Recorded β) (as : List α) (b : β) (done : Journal) :
    foldlOnto step b done as
      = ⟨(foldl step b as).value, done.reverse ++ (foldl step b as).entries⟩ := by
  induction as generalizing b done with
  | nil => simp [foldl, foldlOnto]
  | cons a as ih =>
    simp only [foldl, foldlOnto]
    rw [ih, ih _ ((step b a).entries.reverseAux [])]
    simp [List.reverseAux_eq]

@[simp] theorem foldl_nil (step : β → α → Recorded β) (b : β) : foldl step b [] = pure b := rfl

@[simp] theorem foldl_cons (step : β → α → Recorded β) (b : β) (a : α) (as : List α) :
    foldl step b (a :: as) = step b a >>= fun b' => foldl step b' as := by
  simp only [foldl, foldlOnto]
  rw [foldlOnto_eq]
  refine ext ?_ ?_ <;> simp [foldl, List.reverseAux_eq]

theorem foldl_append (step : β → α → Recorded β) (b : β) (as as' : List α) :
    foldl step b (as ++ as') = foldl step b as >>= fun b' => foldl step b' as' := by
  induction as generalizing b with
  | nil => simp
  | cons a as ih => simp [ih]

/-- Takes the same step `n` times. -/
def iterate (step : β → Recorded β) (n : Nat) (b : β) : Recorded β :=
  foldl (fun b (_ : Unit) => step b) b (List.replicate n ())

@[simp] theorem iterate_zero (step : β → Recorded β) (b : β) : iterate step 0 b = pure b := rfl

@[simp] theorem iterate_succ (step : β → Recorded β) (n : Nat) (b : β) :
    iterate step (n + 1) b = step b >>= iterate step n := by
  simp only [iterate, List.replicate_succ, foldl_cons]
  rfl

/-! ## Repeating until it succeeds -/

/-- How a search ended. -/
structure Search (β : Type) where
  found : Bool
  tries : Nat
  state : β
deriving Repr

/-- `search` with the tries and the journal so far, newest entry first. -/
def searchOnto (step : β → Recorded (Bool × β)) (tries : Nat) (done : Journal) :
    Nat → β → Recorded (Search β)
  | 0, b => ⟨⟨false, tries, b⟩, done.reverse⟩
  | limit + 1, b =>
    let r := step b
    let done := r.entries.reverseAux done
    if r.value.1 then ⟨⟨true, tries + 1, r.value.2⟩, done.reverse⟩
    else searchOnto step (tries + 1) done limit r.value.2

/-- Repeats a step until it succeeds, at most `limit` times. -/
def search (step : β → Recorded (Bool × β)) (limit : Nat) (b : β) : Recorded (Search β) :=
  searchOnto step 0 [] limit b

theorem searchOnto_eq (step : β → Recorded (Bool × β)) (limit tries : Nat) (done : Journal)
    (b : β) :
    searchOnto step tries done limit b
      = ⟨{ (search step limit b).value with tries := tries + (search step limit b).value.tries },
          done.reverse ++ (search step limit b).entries⟩ := by
  induction limit generalizing tries done b with
  | zero => simp [search, searchOnto]
  | succ limit ih =>
    simp only [search, searchOnto]
    by_cases h : (step b).value.1
    · simp [h, List.reverseAux_eq]
    · simp only [h, Bool.false_eq_true, if_false]
      rw [ih, ih 1]
      simp [List.reverseAux_eq, Nat.add_assoc]

@[simp] theorem search_zero (step : β → Recorded (Bool × β)) (b : β) :
    search step 0 b = pure ⟨false, 0, b⟩ := rfl

theorem search_succ (step : β → Recorded (Bool × β)) (limit : Nat) (b : β) :
    search step (limit + 1) b = do
      let (found, b') ← step b
      if found then return ⟨true, 1, b'⟩
      else
        let rest ← search step limit b'
        return { rest with tries := rest.tries + 1 } := by
  simp only [search, searchOnto]
  by_cases h : (step b).value.1
  · refine ext ?_ ?_ <;> simp [h, List.reverseAux_eq]
  · rw [searchOnto_eq]
    refine ext ?_ ?_ <;> simp [h, search, List.reverseAux_eq, Nat.add_comm]

end Recorded

end BitstreamUpload
