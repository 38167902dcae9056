import BitstreamUpload.Responder
import BitstreamUpload.Transfer

/-!
# The function on a USB device

A `LoaderFunction` is the part of a USB device that loads bitstreams. It takes vendor requests that
are addressed to the device and leaves all others to the rest of it. The data stage of a request to
the device comes with the request, so a chunk is announced and received in one go, and no chunk is
being received between transfers.
-/

namespace BitstreamUpload

/-- What a function does with a request. -/
inductive Handling where
  /-- The request is left to others. -/
  | unhandled
  /-- The data was taken. -/
  | acknowledged
  /-- These bytes are sent. -/
  | replied (bytes : List UInt8)
  /-- The request is refused. -/
  | stalled
deriving DecidableEq, Repr

/-- The bitstream loader of a USB device. -/
structure LoaderFunction (board : Board) (σ : Type) where
  /-- Number of its interface. -/
  interface : UInt8
  /-- Index of its string. -/
  stringIndex : UInt8
  responder : Responder board σ
deriving Repr

namespace LoaderFunction

variable {board : Board} {σ : Type} [Target σ]

/-! ## Descriptors -/

def interfaceName : String := "FPGA configuration"

/-- The interface descriptor: no endpoints, a vendor-specific class, and a string. -/
def interfaceDescriptor (f : LoaderFunction board σ) : List UInt8 :=
  [9, 4, f.interface, 0, 0, 0xFF, 0xFF, 0xFF, f.stringIndex]

/-- The text of a string index, if it is the one of this function. -/
def string? (f : LoaderFunction board σ) (index : UInt8) : Option String :=
  if index = f.stringIndex then some interfaceName else none

/-! ## Requests -/

def connect (interface stringIndex : UInt8) (target : σ) (identity : Identity) :
    Recorded (LoaderFunction board σ) := do
  let responder ← Responder.connect target identity
  return { interface, stringIndex, responder }

/-- Whether a request is for this function. -/
def claims (setup : Setup) : Bool :=
  setup.kind = .vendor && setup.recipient = .device

def controlIn (setup : Setup) (f : LoaderFunction board σ) :
    Recorded (Handling × LoaderFunction board σ) :=
  if claims setup then do
    let (reply, responder) ← f.responder.read setup
    let f := { f with responder }
    match reply with
    | some bytes => return (.replied bytes, f)
    | none => return (.stalled, f)
  else
    return (.unhandled, f)

/-- Passes a request on, and the bytes that came with it if it waits for some. -/
def deliver (setup : Setup) (data : List UInt8) (r : Responder board σ) :
    Recorded (Answer × Responder board σ) := do
  match ← r.command setup with
  | (.pending, r) => r.receive data
  | answered => return answered

/-- Takes a request with the bytes of its data stage. A chunk that is not complete with them is
given up. -/
def controlOut (setup : Setup) (data : List UInt8) (f : LoaderFunction board σ) :
    Recorded (Handling × LoaderFunction board σ) :=
  if claims setup then do
    let (answer, responder) ← deliver setup data f.responder
    match answer with
    | .accepted => return (.acknowledged, { f with responder })
    | .pending =>
      Recorded.note (.shortData responder.chunk.outstanding setup.length)
      let responder ← responder.discard
      return (.stalled, { f with responder })
    | .rejected => return (.stalled, { f with responder })
  else
    return (.unhandled, f)

/-- Takes a transfer, which is for this function or not. -/
def control (t : Transfer) (f : LoaderFunction board σ) :
    Recorded (Handling × LoaderFunction board σ) :=
  match t.setup.direction with
  | .toHost => f.controlIn t.setup
  | .toDevice => f.controlOut t.setup t.data

/-! ## Resets -/

/-- The USB bus was reset. -/
def busReset (f : LoaderFunction board σ) : Recorded (LoaderFunction board σ) := do
  Recorded.noteWhen f.responder.isReceiving .resetMidChunk
  let responder ← f.responder.discard
  return { f with responder }

/-- Resets the target without a request. -/
def resetTarget (f : LoaderFunction board σ) : Recorded (LoaderFunction board σ) := do
  let responder ← f.responder.discard
  let bus ← responder.bus.reset
  return { f with responder := { responder with bus } }

/-! ## Operations -/

inductive Operation where
  | control (t : Transfer)
  | busReset
  | resetTarget
deriving DecidableEq, Repr

/-- Does an operation. Only a transfer is answered. -/
def step (op : Operation) (f : LoaderFunction board σ) :
    Recorded (Option Handling × LoaderFunction board σ) :=
  match op with
  | .control t => (fun (h, f) => (some h, f)) <$> f.control t
  | .busReset => (none, ·) <$> f.busReset
  | .resetTarget => (none, ·) <$> f.resetTarget

end LoaderFunction

end BitstreamUpload
