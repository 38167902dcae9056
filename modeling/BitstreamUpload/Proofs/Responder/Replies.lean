import BitstreamUpload.Proofs.BusDiscipline
import BitstreamUpload.Proofs.Responder.Omission

/-!
# Replies to reads

A read is answered with the beginning of a record. The identity is laid out once and never changes
(`identityRecord_run`). The status is laid out anew for each read, so a reply tells the status of
its own moment, whatever record was sent before. `value_read` is the law for one read, and
`replies_fresh` says of a read behind any work what is in the reply and how long it is.
-/

namespace BitstreamUpload

namespace Responder

variable {board : Board} {σ : Type}

/-! ## One read -/

/-- The record that a command asks for, as it is to be sent now. -/
def record? (r : Responder board σ) : Option Command → Option (List UInt8)
  | some .identity => some r.identityRecord.toList
  | some .status => some r.bus.status.wire.toList
  | _ => none

theorem isSome_record?_iff (r : Responder board σ) (setup : Setup) :
    (r.record? setup.command?).isSome = true
      ↔ setup.direction = .toHost ∧ (setup.code = 0x22 ∨ setup.code = 0x30) := by
  have hcommand : (r.record? setup.command?).isSome = true
      ↔ setup.command? = some .identity ∨ setup.command? = some .status := by
    rcases setup.command? with _ | _ | _ | _ | size <;> simp [record?]
  rw [hcommand, Setup.command?_eq_identity_iff, Setup.command?_eq_status_iff, ← and_or_left]
  rfl

theorem length_pos_of_record? {r : Responder board σ} {command : Option Command}
    {record : List UInt8} (h : r.record? command = some record) : 0 < record.length := by
  rcases command with _ | _ | _ | _ | size
  case some.identity => cases h; simp
  case some.status => cases h; simp
  all_goals cases h

/-- The reply to a read. The status record that was sent last has no part in it. -/
theorem value_read (setup : Setup) (r : Responder board σ) :
    (r.read setup).value.1
      = if 0 < setup.length then (r.record? setup.command?).map (·.take setup.length.toNat)
        else none := by
  unfold read
  by_cases hlength : 0 < setup.length
  · rw [if_pos hlength, decide_eq_true hlength]
    rcases setup.command? with _ | _ | _ | _ | size <;> rfl
  · rw [if_neg hlength, decide_eq_false hlength]
    rcases setup.command? with _ | _ | _ | _ | size <;> rfl

theorem isSome_reply_iff (setup : Setup) (r : Responder board σ) :
    (r.read setup).value.1.isSome = true
      ↔ setup.direction = .toHost ∧ (setup.code = 0x22 ∨ setup.code = 0x30)
        ∧ 0 < setup.length := by
  rw [value_read, ← and_assoc]
  by_cases hlength : 0 < setup.length
  · rw [if_pos hlength, Option.isSome_map, isSome_record?_iff]
    exact (and_iff_left hlength).symm
  · rw [if_neg hlength]
    exact ⟨nofun, fun h => absurd h.2 hlength⟩

/-- A reply is cut from a record. -/
theorem reply_eq_some_iff {setup : Setup} {r : Responder board σ} {bytes : List UInt8} :
    (r.read setup).value.1 = some bytes
      ↔ 0 < setup.length ∧ ∃ record, r.record? setup.command? = some record
        ∧ bytes = record.take setup.length.toNat := by
  rw [value_read]
  by_cases hlength : 0 < setup.length
  · rw [if_pos hlength, Option.map_eq_some_iff]
    simp only [hlength, true_and, eq_comm]
  · rw [if_neg hlength]
    exact ⟨nofun, fun h => absurd h.1 hlength⟩

/-- More of a record is asked for, and the reply goes on where it ended. -/
theorem reply_longer {setup : Setup} {r : Responder board σ} {bytes : List UInt8}
    (h : (r.read setup).value.1 = some bytes) {longer : UInt16} (hlonger : setup.length ≤ longer) :
    ∃ bytes', (r.read { setup with length := longer }).value.1 = some bytes'
      ∧ bytes <+: bytes' := by
  obtain ⟨hdirection, -, hlength⟩ := (isSome_reply_iff setup r).mp (Option.isSome_of_mem h)
  obtain ⟨-, record, hrecord, rfl⟩ := reply_eq_some_iff.mp h
  have hrecord' : r.record? ({ setup with length := longer } : Setup).command? = some record := by
    rw [Setup.command?_length hdirection, hrecord]
  refine ⟨record.take longer.toNat, reply_eq_some_iff.mpr ⟨?_, record, hrecord', rfl⟩, ?_⟩
  · exact UInt16.lt_of_lt_of_le hlength hlonger
  · exact List.take_prefix_take_left (UInt16.le_iff_toNat_le.mp hlonger)

/-! ## A read behind any work -/

variable [Target σ]

theorem identityRecord_run (ws : List Work) (r : Responder board σ) :
    (run work ws r).value.identityRecord = r.identityRecord := by
  induction ws generalizing r with
  | nil => rfl
  | cons w ws ih =>
    rw [run_cons, Recorded.value_bind, ih]
    cases w with
    | request op => exact identityRecord_step op r
    | direct op => rfl

/-- Behind any work there is a reply to a request just if it asks for some bytes of the identity or
of the status. The reply is the beginning of that record, as far as was asked for: of the status as
it is now, of the identity as the responder got it. So it is never empty and never too long, and the
reply to a request for more of the same begins with it. -/
theorem replies_fresh {board : Board} {σ : Type} [Target σ] (target : σ) (identity : Identity)
    (works : List Work) (setup : Setup) :
    let r : Responder board σ := (connect target identity >>= run work works).value
    let reply (setup : Setup) := (r.read setup).value.1
    ((reply setup).isSome = true
        ↔ setup.direction = .toHost ∧ (setup.code = 0x22 ∨ setup.code = 0x30) ∧ 0 < setup.length)
      ∧ ∀ bytes, reply setup = some bytes →
        (setup.code = 0x30 → bytes = r.bus.status.wire.toList.take (min setup.length.toNat 9))
          ∧ (setup.code = 0x22 → bytes = identity.wire.toList.take (min setup.length.toNat 40))
          ∧ bytes ≠ [] ∧ bytes.length ≤ setup.length.toNat
          ∧ ∀ longer, setup.length ≤ longer →
            ∃ bytes', reply { setup with length := longer } = some bytes' ∧ bytes <+: bytes' := by
  intro r reply
  have hidentity : r.identityRecord = identity.wire := identityRecord_run works _
  refine ⟨isSome_reply_iff setup r, fun bytes hbytes => ?_⟩
  obtain ⟨hdirection, -, -⟩ := (isSome_reply_iff setup r).mp (Option.isSome_of_mem hbytes)
  obtain ⟨hlength, record, hrecord, rfl⟩ := reply_eq_some_iff.mp hbytes
  -- A record that is shorter than what is asked for is sent as a whole.
  have hcut {n : Nat} (w : Vector UInt8 n) :
      w.toList.take setup.length.toNat = w.toList.take (min setup.length.toNat n) := by
    rw [List.take_eq_take_min, Vector.length_toList]
  refine ⟨?_, ?_, ?_, List.length_take_le _ _, fun longer => reply_longer hbytes⟩
  · intro hcode
    rw [Setup.command?_eq_status_iff.mpr ⟨hdirection, hcode⟩] at hrecord
    cases hrecord
    exact hcut r.bus.status.wire
  · intro hcode
    rw [Setup.command?_eq_identity_iff.mpr ⟨hdirection, hcode⟩] at hrecord
    cases hrecord
    rw [hidentity]
    exact hcut identity.wire
  · refine List.ne_nil_of_length_pos ?_
    rw [List.length_take]
    exact Nat.lt_min.mpr ⟨UInt16.lt_iff_toNat_lt.mp hlength, length_pos_of_record? hrecord⟩

end Responder

end BitstreamUpload
