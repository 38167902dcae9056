import BitstreamUpload.Chunk
import BitstreamUpload.Identity
import BitstreamUpload.Setup

/-!
# Answering requests

A `Responder` holds all there is behind the control transfers: the bus, the chunk that is being
received, and the records that a host may read. `Responder.read` answers requests for data,
`Responder.command` takes requests without, `Responder.receive` takes the bytes of a chunk.

Bytes go to the bus inside an exclusive section, so no interrupt falls between them.
-/

namespace BitstreamUpload

/-- Answer to a request that sends something to the device. -/
inductive Answer where
  | accepted
  /-- Bytes of the chunk are outstanding. -/
  | pending
  /-- Not known, or not possible now. -/
  | rejected
deriving DecidableEq, Repr

/-- The answer that tells what came of a chunk operation. A refusal is noted. -/
def Answer.ofOutcome : Outcome → Recorded Answer
  | .ok p => return if p.isComplete then accepted else pending
  | .error cause => do
    Recorded.note (.refused cause)
    return rejected

/-- Answers the requests of a host. -/
structure Responder (board : Board) (σ : Type) where
  bus : Bus board σ
  chunk : Chunk
  /-- The identity as it is sent. -/
  identityRecord : Vector UInt8 Identity.wireSize
  /-- The status as it was last sent. -/
  statusRecord : Vector UInt8 Status.wireSize
deriving Repr

namespace Responder

variable {board : Board} {σ : Type} [Target σ]

def connect (target : σ) (identity : Identity) : Recorded (Responder board σ) := do
  let bus ← Bus.connect target
  return { bus, chunk := .initial, identityRecord := identity.wire, statusRecord := .replicate _ 0 }

/-- Whether bytes of a chunk are outstanding. -/
def isReceiving (r : Responder board σ) : Bool :=
  !r.chunk.isIdle

/-- Answers a request for data: a record, cut to the length that was asked for. A request for no
bytes at all is rejected. -/
def read (setup : Setup) (r : Responder board σ) :
    Recorded (Option (List UInt8) × Responder board σ) :=
  match setup.command?, decide (0 < setup.length) with
  | some .identity, true =>
    return (some (r.identityRecord.toList.take setup.length.toNat), r)
  | some .status, true =>
    let r := { r with statusRecord := r.bus.status.wire }
    return (some (r.statusRecord.toList.take setup.length.toNat), r)
  | _, _ => do
    Recorded.note (.readRejected setup.code setup.length)
    return (none, r)

/-- Gives up the chunk that is being received. The target is not reset, and the bytes that were sent
stay counted. -/
def discard (r : Responder board σ) : Recorded (Responder board σ) := do
  let chunk ← r.chunk.discard
  return { r with chunk }

/-- Takes a request that sends something to the device. An announced chunk is pending until all its
bytes were received. -/
def command (setup : Setup) (r : Responder board σ) :
    Recorded (Answer × Responder board σ) :=
  match setup.command? with
  | some .reset => do
    let r ← r.discard
    let bus ← r.bus.reset
    return (.accepted, { r with bus })
  | some (.chunk size) => do
    let ⟨outcome, chunk, bus⟩ ← r.chunk.announce size r.bus
    let answer ← Answer.ofOutcome outcome
    return (answer, { r with chunk, bus })
  | _ => do
    Recorded.note (.commandRejected setup.code)
    return (.rejected, r)

/-- Takes a batch of bytes for the chunk that is being received. -/
def receive (batch : List UInt8) (r : Responder board σ) :
    Recorded (Answer × Responder board σ) := do
  let ⟨outcome, chunk, bus⟩ ← Recorded.exclusively (r.chunk.receive batch r.bus)
  Recorded.noteWhen (outcome matches .ok .configured) .uploaded
  let answer ← Answer.ofOutcome outcome
  return (answer, { r with chunk, bus })

/-! ## Operations -/

/-- Something a responder is asked to do. -/
inductive Operation where
  | read (setup : Setup)
  | command (setup : Setup)
  | receive (batch : List UInt8)
  | discard
deriving DecidableEq, Repr

inductive Response where
  /-- The data that was asked for, if it is given. -/
  | reply (bytes : Option (List UInt8))
  | answer (a : Answer)
  | silence
deriving DecidableEq, Repr

def Response.isRefusal : Response → Bool
  | reply bytes => bytes.isNone
  | answer a => a = .rejected
  | silence => false

/-- Does an operation. -/
def step (op : Operation) (r : Responder board σ) : Recorded (Response × Responder board σ) :=
  match op with
  | .read setup => (fun (bytes, r) => (.reply bytes, r)) <$> r.read setup
  | .command setup => (fun (a, r) => (.answer a, r)) <$> r.command setup
  | .receive batch => (fun (a, r) => (.answer a, r)) <$> r.receive batch
  | .discard => (.silence, ·) <$> r.discard

end Responder

end BitstreamUpload
