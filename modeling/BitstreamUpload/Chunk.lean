import BitstreamUpload.Bus
import BitstreamUpload.Outcome

/-!
# Chunks

A bitstream comes in chunks. A chunk is announced with its size, then its bytes come in batches and
go to a bus. A chunk whose size differs from the board's chunk size is the last one of its
bitstream: with its last byte the target is started up.

Whether a chunk is the last one is decided by the board it is announced on. One chunk may go to
several buses, so each operation is told which.
-/

namespace BitstreamUpload

/-- The chunk that is being received, or the one before it if none is. -/
structure Chunk where
  declared : UInt16
  /-- Bytes that have yet to come. -/
  outstanding : UInt16
  /-- Whether the bitstream ends with the chunk. -/
  isLast : Bool
deriving DecidableEq, Repr

namespace Chunk

def initial : Chunk where
  declared := 0
  outstanding := 0
  isLast := false

/-- Whether no chunk is being received. -/
def isIdle (chunk : Chunk) : Bool :=
  chunk.outstanding == 0

/-- What an operation on a chunk leaves behind. -/
structure Result (board : Board) (σ : Type) where
  outcome : Outcome
  chunk : Chunk
  bus : Bus board σ
deriving Repr

variable {board : Board} {σ : Type} [Target σ]

/-- Ends a chunk all of whose bytes were sent. -/
def complete (chunk : Chunk) (bus : Bus board σ) : Recorded (Result board σ) :=
  if chunk.isLast then do
    let bus ← bus.startUp
    return ⟨.ok .configured, chunk, bus.confirm⟩
  else
    return ⟨.ok .stored, chunk, bus⟩

/-- Announces a chunk. It is refused while another one is being received. An empty chunk is complete
at once. -/
def announce (size : UInt16) (chunk : Chunk) (bus : Bus board σ) : Recorded (Result board σ) :=
  if !chunk.isIdle then do
    Recorded.note (.announcedEarly size chunk.outstanding)
    return ⟨.error .busy, chunk, bus⟩
  else do
    let chunk : Chunk := ⟨size, size, size != board.chunkSize⟩
    Recorded.note (.announced size chunk.isLast)
    if size = 0 then chunk.complete bus
    else return ⟨.ok .pending, chunk, bus⟩

/-- Sends a batch of bytes to the target. Bytes past the end of the chunk are dropped. -/
def receive (batch : List UInt8) (chunk : Chunk) (bus : Bus board σ) :
    Recorded (Result board σ) :=
  if chunk.isIdle then
    return ⟨.error .unannounced, chunk, bus⟩
  else do
    let taken := min batch.length chunk.outstanding.toNat
    Recorded.noteWhen (taken < batch.length) (.excess (batch.length - taken))
    let bus ← bus.sendAll (batch.take taken)
    let chunk := { chunk with outstanding := chunk.outstanding - UInt16.ofNat taken }
    if chunk.isIdle then chunk.complete bus
    else return ⟨.ok .pending, chunk, bus⟩

/-- Gives up the chunk that is being received, if there is one. -/
def discard (chunk : Chunk) : Recorded Chunk := do
  Recorded.noteWhen (!chunk.isIdle) (.discarded chunk.outstanding)
  return { chunk with outstanding := 0 }

end Chunk

end BitstreamUpload
