import BitstreamUpload.Recorded

/-!
# Runs

A list of operations, one after the other. `run` has the state they end in and the whole journal,
`turns` keeps apart what each of them answered, wrote and left behind. Both go through
concatenation (`run_append`, `turns_append`), and the journal of a run is that of its turns in a row
(`entries_run`).
-/

namespace BitstreamUpload

/-- What one operation of a run did. -/
structure Turn (ω α σ : Type) where
  operation : ω
  answer : α
  entries : Journal
  /-- The state behind it. -/
  after : σ
deriving Repr

variable {ω α σ : Type}

/-- What some turns wrote, one after the other. -/
def Turn.journal (ts : List (Turn ω α σ)) : Journal :=
  ts.flatMap (·.entries)

@[simp] theorem Turn.journal_nil : journal ([] : List (Turn ω α σ)) = [] := rfl

@[simp] theorem Turn.journal_cons (t : Turn ω α σ) (ts : List (Turn ω α σ)) :
    journal (t :: ts) = t.entries ++ journal ts :=
  List.flatMap_cons

@[simp] theorem Turn.journal_append (ts ts' : List (Turn ω α σ)) :
    journal (ts ++ ts') = journal ts ++ journal ts' :=
  List.flatMap_append

variable (step : ω → σ → Recorded (α × σ))

/-- Does operations in order. -/
def run (ops : List ω) (s : σ) : Recorded σ :=
  Recorded.foldl (fun s op => Prod.snd <$> step op s) s ops

/-- What each of some operations does, in order. -/
def turns : List ω → σ → List (Turn ω α σ)
  | [], _ => []
  | op :: ops, s =>
    let r := step op s
    ⟨op, r.value.1, r.entries, r.value.2⟩ :: turns ops r.value.2

@[simp] theorem run_nil (s : σ) : run step [] s = pure s := rfl

@[simp] theorem run_cons (op : ω) (ops : List ω) (s : σ) :
    run step (op :: ops) s = step op s >>= fun r => run step ops r.2 := by
  refine Recorded.ext ?_ ?_ <;> simp [run]

theorem run_append (ops ops' : List ω) (s : σ) :
    run step (ops ++ ops') s = run step ops s >>= run step ops' :=
  Recorded.foldl_append _ s ops ops'

@[simp] theorem turns_nil (s : σ) : turns step [] s = [] := rfl

theorem turns_append (ops ops' : List ω) (s : σ) :
    turns step (ops ++ ops') s = turns step ops s ++ turns step ops' (run step ops s).value := by
  induction ops generalizing s with
  | nil => rfl
  | cons op ops ih => simp [turns, ih]

theorem entries_run (ops : List ω) (s : σ) :
    (run step ops s).entries = Turn.journal (turns step ops s) := by
  induction ops generalizing s with
  | nil => rfl
  | cons op ops ih => simp [turns, ih]

end BitstreamUpload
