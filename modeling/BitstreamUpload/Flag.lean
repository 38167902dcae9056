import BitstreamUpload.Recorded

/-!
# Event flag

One bit between an interrupt and the main loop. The interrupt raises it, the main loop takes it down
and learns whether it was up; raised any number of times in between, it is reported once.
-/

namespace BitstreamUpload

/-- A flag that is up or down. -/
structure Flag where
  isRaised : Bool
deriving DecidableEq, Repr

namespace Flag

def lowered : Flag := ⟨false⟩

instance : Inhabited Flag := ⟨lowered⟩

def raise (_ : Flag) : Flag := ⟨true⟩

/-- Takes a flag down and tells whether it was up. No interrupt falls in between. -/
def take (f : Flag) : Recorded (Bool × Flag) :=
  Recorded.exclusively (return (f.isRaised, lowered))

/-! ## Operations -/

inductive Operation where
  | raise
  | take
  | look
deriving DecidableEq, Repr

/-- Does an operation. Raising answers nothing. -/
def step (op : Operation) (f : Flag) : Recorded (Option Bool × Flag) :=
  match op with
  | .raise => pure (none, f.raise)
  | .take => (fun (was, f) => (some was, f)) <$> f.take
  | .look => pure (some f.isRaised, f)

/-- Does an operation on one of several flags. -/
def stepAt {ι : Type} [DecidableEq ι] (op : ι × Operation) (flags : ι → Flag) :
    Recorded (Option Bool × (ι → Flag)) :=
  (fun (answer, f) => (answer, fun j => if j = op.1 then f else flags j))
    <$> step op.2 (flags op.1)

end Flag

end BitstreamUpload
