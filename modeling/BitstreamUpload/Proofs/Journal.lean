import BitstreamUpload.Journal

/-!
# What a journal says about the bus

Two more views of a journal: the bytes that were put on the data pins (`Journal.written`), and
whether some sample of `INIT_B` was high (`Journal.sawHigh`). Like the samples, both depend on the
calls alone, so two journals with the same calls agree on them.
-/

namespace BitstreamUpload

/-- An entry of two rows one after the other is one of the first or one of the second. -/
theorem exists_of_append {α : Type} {row row' before after : List α} {a : α}
    (h : row ++ row' = before ++ a :: after) :
    (∃ rest, row = before ++ a :: rest ∧ after = rest ++ row')
      ∨ ∃ first, before = row ++ first ∧ row' = first ++ a :: after := by
  rcases List.append_eq_append_iff.mp h with ⟨first, hbefore, hrow'⟩ | ⟨rest, hrow, hafter⟩
  · exact .inr ⟨first, hbefore, hrow'⟩
  · cases rest with
    | nil => exact .inr ⟨[], by rw [hrow, List.append_nil, List.append_nil], hafter.symm⟩
    | cons a' rest =>
      obtain ⟨rfl, hrest⟩ := List.cons.inj hafter
      exact .inl ⟨rest, hrow, hrest⟩

namespace BusCall

/-- The pins of a call that drives the data pins. -/
def data? : BusCall → Option UInt8
  | data pins => some pins
  | _ => none

/-- The level that was read, if the call is a sample. -/
def sample? : BusCall → Option Bool
  | sample high => some high
  | _ => none

end BusCall

namespace Journal

/-- What was put on the data pins, in order. -/
def written (j : Journal) : List UInt8 :=
  j.calls.filterMap BusCall.data?

/-- Whether `INIT_B` was high at one of the samples. -/
def sawHigh (j : Journal) : Bool :=
  j.samples.any id

@[simp] theorem written_nil : written [] = [] := rfl

@[simp] theorem written_append (j j' : Journal) : written (j ++ j') = written j ++ written j' := by
  rw [written, calls_append, List.filterMap_append]
  rfl

theorem samples_eq_calls (j : Journal) : j.samples = j.calls.filterMap BusCall.sample? := by
  induction j with
  | nil => rfl
  | cons e j ih =>
    cases e with
    | call c =>
      cases c with
      | sample high => exact congrArg (high :: ·) ih
      | _ => exact ih
    | _ => exact ih

/-- Journals with the same calls have the same samples. -/
theorem samples_congr {j j' : Journal} (h : j.calls = j'.calls) : j.samples = j'.samples := by
  rw [samples_eq_calls, samples_eq_calls, h]

/-- Journals with the same calls put the same bytes on the data pins. -/
theorem written_congr {j j' : Journal} (h : j.calls = j'.calls) : j.written = j'.written := by
  rw [written, written, h]

/-- Marks of an exclusive section and notes are no calls. -/
@[simp] theorem calls_exclusively (j : Journal) :
    calls (.enter :: (j ++ [.leave])) = calls j := by
  show calls (j ++ [.leave]) = calls j
  rw [calls_append]
  exact List.append_nil _

@[simp] theorem calls_note (n : Note) (j : Journal) : calls (.note n :: j) = calls j := rfl

@[simp] theorem calls_noteIf (cause : Prop) [Decidable cause] (n : Note) :
    calls (if cause then [.note n] else []) = [] := by
  split <;> rfl

end Journal

end BitstreamUpload
