/-!
# Outcomes of a chunk operation

An operation on a chunk is refused for one of two causes, or makes progress.
-/

namespace BitstreamUpload

/-- Why an operation on a chunk was refused. -/
inductive Refusal where
  /-- A chunk was announced while bytes of another are outstanding. -/
  | busy
  /-- Bytes came while none are outstanding. -/
  | unannounced
deriving DecidableEq, Repr

/-- The word for a cause in a note. -/
def Refusal.word : Refusal → String
  | busy => "ChunkInProgress"
  | unannounced => "NoChunk"

/-- How far a chunk came. -/
inductive Progress where
  /-- Bytes of the chunk are outstanding. -/
  | pending
  /-- The chunk is complete and another one follows it. -/
  | stored
  /-- The chunk is complete, it was the last one, and the target was started up. -/
  | configured
deriving DecidableEq, Repr

/-- Whether the chunk is complete. -/
def Progress.isComplete (p : Progress) : Bool :=
  p != pending

/-- What came of an operation on a chunk. -/
abbrev Outcome := Except Refusal Progress

end BitstreamUpload
