/-!
# Setup packets

A control transfer begins with a setup packet. `Setup.command?` finds the command of this device
that a packet stands for; a code stands for its command in one direction only.
-/

namespace BitstreamUpload

/-- Which way the data of a control transfer goes. -/
inductive Direction where
  | toHost
  | toDevice
deriving DecidableEq, Repr

/-- Who defines a request. -/
inductive Kind where
  | standard
  | classSpecific
  | vendor
  | reserved
deriving DecidableEq, Repr

/-- What a request is addressed to. -/
inductive Recipient where
  | device
  | interface
  | endpoint
  | other
  | reserved
deriving DecidableEq, Repr

/-- A setup packet. -/
structure Setup where
  direction : Direction
  kind : Kind
  recipient : Recipient
  code : UInt8
  value : UInt16
  index : UInt16
  /-- Bytes of the data stage, or at most so many if they go to the host. -/
  length : UInt16
deriving DecidableEq, Repr

/-- What a host may ask of the device. -/
inductive Command where
  | identity
  | status
  /-- Reset the target and give up the chunk that is being received. -/
  | reset
  | chunk (size : UInt16)
deriving DecidableEq, Repr

namespace Command

def identityCode : UInt8 := 0x22

def statusCode : UInt8 := 0x30

def resetCode : UInt8 := 0x31

def chunkCode : UInt8 := 0x32

/-- Which way the data of a command goes. -/
def direction : Command → Direction
  | identity | status => .toHost
  | reset | chunk _ => .toDevice

/-- The code of a command. -/
def code : Command → UInt8
  | identity => identityCode
  | status => statusCode
  | reset => resetCode
  | chunk _ => chunkCode

end Command

namespace Setup

/-- The command that a packet stands for, by its direction and its code. A chunk is as long as the
data stage. -/
def command? (setup : Setup) : Option Command :=
  match setup.direction with
  | .toHost =>
    if setup.code = Command.identityCode then some .identity
    else if setup.code = Command.statusCode then some .status
    else none
  | .toDevice =>
    if setup.code = Command.resetCode then some .reset
    else if setup.code = Command.chunkCode then some (.chunk setup.length)
    else none

variable {setup : Setup}

theorem command?_of_toHost (h : setup.direction = .toHost) : setup.command?
    = if setup.code = Command.identityCode then some .identity
      else if setup.code = Command.statusCode then some .status
      else none := by
  rw [command?, h]

theorem command?_of_toDevice (h : setup.direction = .toDevice) : setup.command?
    = if setup.code = Command.resetCode then some .reset
      else if setup.code = Command.chunkCode then some (.chunk setup.length)
      else none := by
  rw [command?, h]

/-- A packet stands for a command just if it has the direction and the code of the command and, if
the command is a chunk, its size as length. -/
theorem command?_eq_some_iff {c : Command} :
    setup.command? = some c ↔ setup.direction = c.direction ∧ setup.code = c.code
      ∧ ∀ size, c = .chunk size → setup.length = size := by
  constructor
  · intro h
    cases hdirection : setup.direction with
    | toHost =>
      rw [command?_of_toHost hdirection] at h
      split at h
      · next hcode =>
        cases h
        exact ⟨rfl, hcode, nofun⟩
      · split at h
        · next hcode =>
          cases h
          exact ⟨rfl, hcode, nofun⟩
        · cases h
    | toDevice =>
      rw [command?_of_toDevice hdirection] at h
      split at h
      · next hcode =>
        cases h
        exact ⟨rfl, hcode, nofun⟩
      · split at h
        · next hcode =>
          cases h
          exact ⟨rfl, hcode, fun size hsize => Command.chunk.inj hsize⟩
        · cases h
  · rintro ⟨hdirection, hcode, hlength⟩
    cases c with
    | identity =>
      rw [command?_of_toHost hdirection, hcode]
      rfl
    | status =>
      rw [command?_of_toHost hdirection, hcode]
      rfl
    | reset =>
      rw [command?_of_toDevice hdirection, hcode]
      rfl
    | chunk size =>
      rw [command?_of_toDevice hdirection, hcode, hlength size rfl]
      rfl

/-- Only a request for data can ask for the identity. -/
theorem command?_eq_identity_iff :
    setup.command? = some .identity
      ↔ setup.direction = .toHost ∧ setup.code = Command.identityCode := by
  simp [command?_eq_some_iff, Command.direction, Command.code]

/-- Only a request for data can ask for the status. -/
theorem command?_eq_status_iff :
    setup.command? = some .status
      ↔ setup.direction = .toHost ∧ setup.code = Command.statusCode := by
  simp [command?_eq_some_iff, Command.direction, Command.code]

/-- Only a request that sends something can reset the target. -/
theorem command?_eq_reset_iff :
    setup.command? = some .reset
      ↔ setup.direction = .toDevice ∧ setup.code = Command.resetCode := by
  simp [command?_eq_some_iff, Command.direction, Command.code]

/-- Only a request that sends something can announce a chunk, which is as long as what it sends. -/
theorem command?_eq_chunk_iff {size : UInt16} :
    setup.command? = some (.chunk size)
      ↔ setup.direction = .toDevice ∧ setup.code = Command.chunkCode ∧ setup.length = size := by
  simp [command?_eq_some_iff, Command.direction, Command.code]

/-- What a request for data asks for has nothing to do with how much of it is asked for. -/
theorem command?_length (h : setup.direction = .toHost) (length : UInt16) :
    ({ setup with length } : Setup).command? = setup.command? := by
  rw [command?_of_toHost h, command?_of_toHost (by exact h)]

end Setup

end BitstreamUpload
