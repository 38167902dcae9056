import BitstreamUpload.Lines
import BitstreamUpload.Note

/-!
# Journal

Everything the controller does to the outside world, in order: calls on the configuration bus, the
two ends of an exclusive section, and notes for the log. `Journal.calls`, `Journal.notes` and
`Journal.samples` are views of it.
-/

namespace BitstreamUpload

/-- A call on the configuration bus. -/
inductive BusCall where
  | lines (levels : Lines)
  | data (pins : UInt8)
  /-- Read `INIT_B`, with the level that was read. -/
  | sample (high : Bool)
  /-- Switch the data pins to output. -/
  | enableOutput
  /-- Wait for so many microseconds. -/
  | wait (micros : Nat)
deriving DecidableEq, Repr

/-- One thing the controller did. -/
inductive Entry where
  | call (c : BusCall)
  /-- Begin of an exclusive section: from here on no interrupt is served. -/
  | enter
  /-- End of an exclusive section. -/
  | leave
  | note (n : Note)
deriving DecidableEq, Repr

namespace Entry

def call? : Entry → Option BusCall
  | call c => some c
  | _ => none

def note? : Entry → Option Note
  | note n => some n
  | _ => none

/-- The level that was read, if the entry is a sample of `INIT_B`. -/
def sample? : Entry → Option Bool
  | call (.sample high) => some high
  | _ => none

end Entry

/-- What the controller did, oldest first. -/
abbrev Journal := List Entry

namespace Journal

def calls (j : Journal) : List BusCall :=
  j.filterMap Entry.call?

def notes (j : Journal) : List Note :=
  j.filterMap Entry.note?

/-- The levels of `INIT_B` that were read. -/
def samples (j : Journal) : List Bool :=
  j.filterMap Entry.sample?

@[simp] theorem calls_nil : calls [] = [] := rfl

@[simp] theorem calls_append (j j' : Journal) : calls (j ++ j') = calls j ++ calls j' :=
  List.filterMap_append

@[simp] theorem notes_nil : notes [] = [] := rfl

@[simp] theorem notes_append (j j' : Journal) : notes (j ++ j') = notes j ++ notes j' :=
  List.filterMap_append

@[simp] theorem samples_nil : samples [] = [] := rfl

@[simp] theorem samples_append (j j' : Journal) : samples (j ++ j') = samples j ++ samples j' :=
  List.filterMap_append

end Journal

end BitstreamUpload
