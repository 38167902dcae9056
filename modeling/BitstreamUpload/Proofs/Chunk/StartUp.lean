import BitstreamUpload.Proofs.Bus.Bitstream
import BitstreamUpload.Proofs.Chunk.Notes

/-!
# Sending bytes, and starting up behind them

All that an operation on a chunk has its bus do is to send some bytes, and behind them to start the
target up if the chunk was the last one. `Bus.StartedUp` and `Bus.JustSent` say what either looks
like from the outside, and no journal fits both (`Bus.StartedUp.not_justSent`). The outcome of the
operation tells which of the two it was (`Chunk.ran_announce`, `Chunk.ran_receive`).
-/

namespace BitstreamUpload

open Journal

/-- The notes for information. -/
def Journal.infos (j : Journal) : List Note :=
  j.notes.filter (·.level = .info)

namespace Bus

variable {board : Board} {σ : Type}

/-- These bytes were sent, and behind them the target was started up, once: after the start-up
clocks comes one sample, and the interface is deselected. The upload is confirmed, and there is one
note for information, with the numbers of the status that is left. -/
structure StartedUp (bytes : List UInt8) (bus bus' : Bus board σ) (j : Journal) : Prop where
  calls : j.calls = bytes.flatMap (byteCalls board bus.lines)
    ++ startUpCalls board bus.lines bus'.status.initHigh
  lines : bus'.lines = { bus.lines with selected := false }
  confirmed : bus'.status.unconfigured = false
  infos : j.infos = [.finished bus'.status.count bus'.status.checksum bus'.status.diagnostic]

/-- These bytes were sent, and there was neither a checkpoint nor a confirmation. -/
structure JustSent (bytes : List UInt8) (bus bus' : Bus board σ) (j : Journal) : Prop where
  calls : j.calls = bytes.flatMap (byteCalls board bus.lines)
  lines : bus'.lines = bus.lines
  unconfigured : bus'.status.unconfigured = bus.status.unconfigured
  initHigh : bus'.status.initHigh = bus.status.initHigh
  diagnostic : bus'.status.diagnostic = bus.status.diagnostic
  infos : j.infos = []

variable {bytes bytes' : List UInt8} {bus bus' : Bus board σ} {j : Journal}

theorem StartedUp.not_justSent (h : StartedUp bytes bus bus' j) :
    ¬JustSent bytes' bus bus' j := by
  intro hsent
  have hboth := h.infos.symm.trans hsent.infos
  exact absurd hboth (List.cons_ne_nil _ _)

variable [Target σ]

theorem justSent_of_does (h : Does (bytes.map .send) bus bus' j)
    (hlow : bus.lines.clock = false) (hinfos : j.infos = []) : JustSent bytes bus bus' j := by
  have hstatus := status_sends bytes bus
  rw [← h.bus_eq, Status.foldl_countByte] at hstatus
  constructor
  case calls => rw [h.calls_eq, calls_sends bytes hlow]
  case lines => rw [h.bus_eq, lines_sends bytes hlow]
  case unconfigured => rw [hstatus]
  case initHigh => rw [hstatus]
  case diagnostic => rw [hstatus]
  case infos => exact hinfos

theorem startedUp_of_does (h : Does (bytes.map .send ++ [.startUp, .confirm]) bus bus' j)
    (hlow : bus.lines.clock = false) (hinfos : j.infos = [bus'.status.finishedNote]) :
    StartedUp bytes bus bus' j := by
  let sent := (run step (bytes.map .send) bus).value
  have hsends : Does (bytes.map .send) bus sent (run step (bytes.map .send) bus).entries :=
    ⟨rfl, rfl⟩
  have hall := hsends.append (Does.startUp sent)
  have hbus : bus' = sent.startUp.value.confirm := h.bus_eq.trans hall.bus_eq.symm
  have hlines : sent.lines = bus.lines := lines_sends bytes hlow
  have hsent : sent.lines.clock = false := by rw [hlines, hlow]
  have hlevel : bus'.status.initHigh = sent.startUpLevel := by
    rw [hbus]
    exact congrArg Status.initHigh (status_startUp sent)
  constructor
  case calls =>
    rw [h.calls_eq, ← hall.calls_eq, calls_append, calls_sends bytes hlow, calls_startUp hsent,
      hlines, hlevel]
  case lines =>
    rw [hbus, ← hlines]
    exact lines_startUp hsent
  case confirmed => rw [hbus]; rfl
  case infos => exact hinfos

end Bus

namespace Chunk

/-! ## The operations -/

variable {board : Board} {σ : Type} {bytes : List UInt8} {bus : Bus board σ}

/-- With these bytes, what an operation did on its bus is told by its outcome. -/
structure Ran (bytes : List UInt8) (bus : Bus board σ) (r : Recorded (Result board σ)) : Prop where
  startedUp : r.value.outcome = .ok .configured → bus.StartedUp bytes r.value.bus r.entries
  justSent : r.value.outcome ≠ .ok .configured → bus.JustSent bytes r.value.bus r.entries

theorem infos_startUpNotes (r : Result board σ) :
    (startUpNotes r).filter (·.level = .info) = startUpNotes r := by
  rw [List.filter_eq_self]
  intro n hn
  rw [eq_of_mem_startUpNotes hn]
  rfl

variable [Target σ]

/-- What is sent is put on the data pins in the board's bit order, and a start-up adds nothing. -/
theorem written_of_follows {plan : Plan} {r : Recorded (Result board σ)} (h : Follows plan bus r)
    (hacts : plan.acts = bytes.map .send ++ ending plan.outcome) :
    r.entries.written = bytes.map board.bitOrder.apply := by
  have hbytes : plan.acts.filterMap (·.byte?) = bytes := by
    rw [hacts, List.filterMap_append, Bus.filterMap_byte?_sends, filterMap_byte?_ending,
      List.append_nil]
  rw [written_congr h.does.calls_eq, Bus.written_run, hbytes]

theorem ran_of_follows {plan : Plan} {r : Recorded (Result board σ)} (h : Follows plan bus r)
    (hacts : plan.acts = bytes.map .send ++ ending plan.outcome)
    (hinfos : r.entries.infos = startUpNotes r.value) (hlow : bus.lines.clock = false) :
    Ran bytes bus r := by
  have hdoes := h.does
  rw [hacts, ← h.outcome] at hdoes
  constructor
  case startedUp =>
    intro hconfigured
    rw [hconfigured] at hdoes
    rw [startUpNotes_of_configured hconfigured] at hinfos
    exact Bus.startedUp_of_does hdoes hlow hinfos
  case justSent =>
    intro hother
    rw [ending_of_ne hother, List.append_nil] at hdoes
    rw [startUpNotes_of_ne hother] at hinfos
    exact Bus.justSent_of_does hdoes hlow hinfos

theorem infos_announce (size : UInt16) (chunk : Chunk) (bus : Bus board σ) :
    (chunk.announce size bus).entries.infos = startUpNotes (chunk.announce size bus).value := by
  rw [infos, notes_announce]
  cases hidle : chunk.isIdle with
  | true => exact infos_startUpNotes _
  | false =>
    have houtcome := (announce_follows size chunk bus).outcome
    rw [announcePlan_busy hidle] at houtcome
    rw [startUpNotes_of_ne (by rw [houtcome]; exact nofun)]
    rfl

theorem infos_receive (batch : List UInt8) (chunk : Chunk) (bus : Bus board σ) :
    (chunk.receive batch bus).entries.infos = startUpNotes (chunk.receive batch bus).value := by
  rw [infos, notes_receive, List.filter_append, infos_startUpNotes]
  split <;> rfl

theorem ran_announce (size : UInt16) (chunk : Chunk) (hlow : bus.lines.clock = false) :
    Ran [] bus (chunk.announce size bus) :=
  ran_of_follows (announce_follows size chunk bus) (acts_announcePlan board size chunk)
    (infos_announce size chunk bus) hlow

theorem ran_receive (batch : List UInt8) (chunk : Chunk) (hlow : bus.lines.clock = false) :
    Ran (batch.take chunk.outstanding.toNat) bus (chunk.receive batch bus) :=
  ran_of_follows (receive_follows batch chunk bus) (acts_receivePlan batch chunk)
    (infos_receive batch chunk bus) hlow

end Chunk

end BitstreamUpload
