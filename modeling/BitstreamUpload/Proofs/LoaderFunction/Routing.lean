import BitstreamUpload.Proofs.LoaderFunction.Idle
import BitstreamUpload.Proofs.Responder.Replies

/-!
# Which requests a function answers, and how

A function answers the vendor requests that are addressed to the device, each of them once, and
leaves all others to the rest of the device. Its answer can be told from the code of a request, and
for one that asks for data also from its length: that a chunk is never refused is due to the
function being idle between transfers. What a request says in its value and its index counts for
nothing.
-/

namespace BitstreamUpload

open Journal

/-- The commands for the device. -/
theorem LoaderFunction.wholeAnswer_toDevice {setup : Setup} (h : setup.direction = .toDevice) :
    wholeAnswer setup.command?
      = if setup.code = 0x31 ∨ setup.code = 0x32 then .accepted else .rejected := by
  rw [Setup.command?_of_toDevice h]
  by_cases hreset : setup.code = 0x31
  · simp [hreset, Command.resetCode, wholeAnswer]
  · by_cases hchunk : setup.code = 0x32
    · simp [hchunk, Command.resetCode, Command.chunkCode, wholeAnswer]
    · simp [hreset, hchunk, Command.resetCode, Command.chunkCode, wholeAnswer]

variable {board : Board} {σ : Type}

/-- A read is answered if it asks for one of the records, and for some of its bytes. -/
theorem Responder.isSome_read_iff {setup : Setup} (h : setup.direction = .toHost)
    (r : Responder board σ) : (r.read setup).value.1.isSome = true
      ↔ (setup.code = 0x22 ∨ setup.code = 0x30) ∧ 0 < setup.length := by
  rw [isSome_reply_iff]
  exact and_iff_right h

namespace LoaderFunction

theorem claims_iff {setup : Setup} :
    claims setup = true ↔ setup.kind = .vendor ∧ setup.recipient = .device := by
  rw [claims, Bool.and_eq_true, decide_eq_true_iff, decide_eq_true_iff]

/-- What is done with a request for data, by the reply to it. -/
def handlingOfReply : Option (List UInt8) → Handling
  | some bytes => .replied bytes
  | none => .stalled

theorem controlIn_claimed {setup : Setup} (h : claims setup = true) (f : LoaderFunction board σ) :
    (f.controlIn setup).value.1 = handlingOfReply (f.responder.read setup).value.1 := by
  unfold controlIn
  rw [if_pos h]
  generalize f.responder.read setup = x
  obtain ⟨⟨reply, r⟩, j⟩ := x
  cases reply <;> rfl

variable [Target σ]

theorem control_unclaimed {t : Transfer} (h : claims t.setup = false)
    (f : LoaderFunction board σ) : f.control t = pure (.unhandled, f) := by
  unfold control controlIn controlOut
  rw [h]
  cases t.setup.direction <;> rfl

/-- The answer to a whole transfer that is for an idle function. -/
theorem control_toDevice {f : LoaderFunction board σ} (hidle : f.responder.isReceiving = false)
    {t : Transfer} (hwhole : t.IsWhole) (hclaims : claims t.setup = true)
    (hdirection : t.setup.direction = .toDevice) :
    (f.control t).value.1
      = if t.setup.code = 0x31 ∨ t.setup.code = 0x32 then .acknowledged else .stalled := by
  obtain ⟨hcontrol, hdelivers⟩ := controlOut_whole hwhole hidle hclaims
  rw [control_eq_controlOut hdirection, hcontrol, Recorded.value_map, hdelivers.answer,
    wholeAnswer_toDevice hdirection]
  split <;> rfl

/-- Nothing is made of the value and the index of a request. -/
theorem control_value_index (t : Transfer) (value index : UInt16) (f : LoaderFunction board σ) :
    f.control { t with setup := { t.setup with value, index } } = f.control t := by
  rfl

/-- After every run of whole transfers and resets, one more whole transfer is left alone if it is
not a vendor request to the device: there is no answer, nothing is written, and the function stays
as it is. Otherwise there is one answer. A command is acknowledged if it has the code of a reset or
of a chunk and stalled if not. A request for data gets the reply of the responder, and that is one
if it has the code of a record and asks for some bytes; if not it is stalled. All that comes of a
transfer is the same for any other value and index. -/
theorem routes_transfers {board : Board} {σ : Type} [Target σ] (interface stringIndex : UInt8)
    (target : σ) (identity : Identity) (ops : List Operation)
    (hops : ∀ op ∈ ops, op.IsWhole) (t : Transfer) (hwhole : t.IsWhole) :
    let f : LoaderFunction board σ :=
      (connect interface stringIndex target identity >>= run step ops).value
    let setup := t.setup
    let handled := step (.control t) f
    (¬(setup.kind = .vendor ∧ setup.recipient = .device) → handled = pure (some .unhandled, f))
      ∧ (setup.kind = .vendor → setup.recipient = .device → setup.direction = .toDevice →
        handled.value.1
          = some (if setup.code = 0x31 ∨ setup.code = 0x32 then .acknowledged else .stalled))
      ∧ (setup.kind = .vendor → setup.recipient = .device → setup.direction = .toHost →
        let reply := (f.responder.read setup).value.1
        handled.value.1 = some (handlingOfReply reply)
          ∧ (reply.isSome = true ↔ (setup.code = 0x22 ∨ setup.code = 0x30) ∧ 0 < setup.length))
      ∧ ∀ value index,
        step (.control { t with setup := { setup with value, index } }) f = handled := by
  intro f setup handled
  let start : LoaderFunction board σ := (connect interface stringIndex target identity).value
  obtain ⟨hidle, -⟩ := keepsIdle_run (f := start) hops rfl
  have hhandled : handled = (fun x => (some x.1, x.2)) <$> f.control t := step_control t f
  refine ⟨?_, ?_, ?_, ?_⟩
  · intro hforeign
    have hclaims : claims setup = false := by
      rw [Bool.eq_false_iff, ne_eq, claims_iff]
      exact hforeign
    rw [hhandled, control_unclaimed hclaims, map_pure]
  · intro hkind hrecipient hdirection
    have hclaims : claims setup = true := claims_iff.mpr ⟨hkind, hrecipient⟩
    rw [hhandled, Recorded.value_map]
    exact congrArg some (control_toDevice hidle hwhole hclaims hdirection)
  · intro hkind hrecipient hdirection reply
    have hclaims : claims setup = true := claims_iff.mpr ⟨hkind, hrecipient⟩
    refine ⟨?_, Responder.isSome_read_iff hdirection f.responder⟩
    rw [hhandled, Recorded.value_map, control_eq_controlIn hdirection]
    exact congrArg some (controlIn_claimed hclaims f)
  · intro value index
    rw [hhandled, ← control_value_index t value index]
    rfl

/-- The code of a chunk makes a vendor request a command, and a class request nothing. -/
theorem routes_transfers_chunkCode :
    let board : Board := { chunkSize := 4, pollLimit := 5, startupClocks := 3 }
    let bench : Bench := { init := .risesAfter 2 }
    let identity := Identity.basic (.replicate 4 0) (.replicate 4 0) (.replicate 10 0)
    let ops : List Operation := [.control (.ofData (.sending Command.chunkCode 0) [1, 2, 3]), .busReset]
    let t := Transfer.ofData (.sending Command.chunkCode 0) [4, 5, 6, 7]
    let foreign := { t with setup := { t.setup with kind := .classSpecific } }
    let f : LoaderFunction board Bench := (connect 0 4 bench identity >>= run step ops).value
    (∀ op ∈ ops, op.IsWhole) ∧ t.IsWhole ∧ foreign.IsWhole
      ∧ (step (.control t) f).value.1 = some .acknowledged
      ∧ step (.control foreign) f = pure (some .unhandled, f) := by
  intro board bench identity ops t foreign f
  have hops : ∀ op ∈ ops, op.IsWhole := by decide
  have hwhole : t.IsWhole := by decide
  have hforeign : foreign.IsWhole := by decide
  have hroutes := @routes_transfers board Bench _ 0 4 bench identity ops hops
  obtain ⟨-, hanswer, -⟩ := hroutes t hwhole
  obtain ⟨hleft, -⟩ := hroutes foreign hforeign
  exact ⟨hops, hwhole, hforeign, hanswer rfl rfl rfl, hleft (by decide)⟩

end LoaderFunction

end BitstreamUpload
