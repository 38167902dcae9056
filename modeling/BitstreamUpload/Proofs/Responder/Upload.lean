import BitstreamUpload.Responder
import Mathlib.Algebra.Ring.Nat

/-!
# Uploads

An upload resets the target and sends a bitstream in blocks. Each block is announced as a chunk and
comes in any batches. All blocks but the last one are as long as a chunk of the board; if the
bitstream ends with such a block, or if it is empty, an empty chunk tells so
(`Upload.bytes_ending_eq_nil_iff`).

An upload is made of the operations that a responder is asked for and of the answers that the host
waits for. There is one for every bitstream (`Upload.exists_upload`).
-/

namespace BitstreamUpload

/-- A request that sends something to the device. -/
def Setup.sending (code : UInt8) (length : UInt16) : Setup where
  direction := .toDevice
  kind := .vendor
  recipient := .device
  code
  value := 0
  index := 0
  length

namespace Responder

/-! ## Uploads -/

/-- A block of a bitstream: the request that announces it, and the batches it comes in. -/
structure Block where
  announcement : Setup
  size : UInt16
  announces : announcement.command? = some (.chunk size)
  /-- All batches but the last one. They may be empty. -/
  early : List (List UInt8)
  last : List UInt8
  last_ne : last ≠ []
  size_eq : size.toNat = (early.flatten ++ last).length

/-- The bytes of a block. -/
def Block.bytes (b : Block) : List UInt8 :=
  b.early.flatten ++ b.last

/-- A block of these batches. -/
def Block.ofBatches (early : List (List UInt8)) (last : List UInt8) (last_ne : last ≠ [])
    (h : (early.flatten ++ last).length < 2 ^ 16) : Block where
  announcement := .sending Command.chunkCode (.ofNat (early.flatten ++ last).length)
  size := .ofNat (early.flatten ++ last).length
  announces := rfl
  early
  last
  last_ne
  size_eq := by
    rw [UInt16.toNat_ofNat']
    exact Nat.mod_eq_of_lt h

/-- How the host ends a bitstream that it sends in chunks of `c` bytes. -/
inductive Ending (c : Nat) where
  /-- With a block that is shorter than a chunk. -/
  | short (block : Block) (h : block.bytes.length < c)
  /-- With an empty chunk. -/
  | empty (announcement : Setup) (h : announcement.command? = some (.chunk 0))

namespace Block

def operations (b : Block) : List Operation :=
  .command b.announcement :: b.early.map .receive ++ [.receive b.last]

/-- The answers that a host waits for: a block is pending until its last batch. -/
def answers (b : Block) : List Answer :=
  .pending :: b.early.map (fun _ => .pending) ++ [.accepted]

end Block

namespace Ending

variable {c : Nat}

def bytes : Ending c → List UInt8
  | short block _ => block.bytes
  | empty _ _ => []

def operations : Ending c → List Operation
  | short block _ => block.operations
  | empty announcement _ => [.command announcement]

def answers : Ending c → List Answer
  | short block _ => block.answers
  | empty _ _ => [.accepted]

end Ending

theorem Block.length_bytes_pos (b : Block) : 0 < b.bytes.length := by
  rw [Block.bytes, List.length_append]
  exact Nat.add_pos_right _ (List.length_pos_iff.mpr b.last_ne)

theorem Block.size_ne_zero (b : Block) : b.size ≠ 0 := by
  intro h
  have hsize : (0 : UInt16).toNat = b.bytes.length := h ▸ b.size_eq
  exact Nat.ne_of_lt b.length_bytes_pos hsize

/-- Blocks as long as a chunk make up a multiple of it. -/
theorem dvd_length_blocks {c : Nat} {blocks : List Block} (h : ∀ b ∈ blocks, b.bytes.length = c) :
    c ∣ (blocks.flatMap Block.bytes).length := by
  induction blocks with
  | nil => exact Nat.dvd_zero c
  | cons b blocks ih =>
    rw [List.flatMap_cons, List.length_append, h b List.mem_cons_self]
    exact Nat.dvd_add (Nat.dvd_refl c) (ih fun b' hb' => h b' (List.mem_cons_of_mem b hb'))

theorem Block.not_rejected (b : Block) : Answer.rejected ∉ b.answers := by
  simp [Block.answers]

theorem Ending.not_rejected {c : Nat} (e : Ending c) : Answer.rejected ∉ e.answers := by
  cases e with
  | short block h => exact block.not_rejected
  | empty announcement h => simp [answers]

/-- An upload of a bitstream in chunks of `c` bytes. -/
structure Upload (c : Nat) (bitstream : List UInt8) where
  reset : Setup
  resets : reset.command? = some .reset
  /-- The blocks that are as long as a chunk. -/
  full : List Block
  length_full : ∀ block ∈ full, block.bytes.length = c
  ending : Ending c
  bitstream_eq : full.flatMap Block.bytes ++ ending.bytes = bitstream

namespace Upload

variable {c : Nat} {bitstream : List UInt8}

def operations (u : Upload c bitstream) : List Operation :=
  .command u.reset :: u.full.flatMap Block.operations ++ u.ending.operations

def answers (u : Upload c bitstream) : List Answer :=
  .accepted :: u.full.flatMap Block.answers ++ u.ending.answers

theorem not_rejected (u : Upload c bitstream) : Answer.rejected ∉ u.answers := by
  have hfull : Answer.rejected ∉ u.full.flatMap Block.answers := by
    rw [List.mem_flatMap]
    rintro ⟨b, -, hb⟩
    exact b.not_rejected hb
  simp [answers, hfull, u.ending.not_rejected]

/-- A bitstream ends with an empty chunk if it fills its chunks, and with a block that is shorter
otherwise. -/
theorem bytes_ending_eq_nil_iff (u : Upload c bitstream) :
    u.ending.bytes = [] ↔ c ∣ bitstream.length := by
  have hdvd := dvd_length_blocks u.length_full
  have hlength := congrArg List.length u.bitstream_eq
  rw [List.length_append] at hlength
  rw [← hlength, Nat.dvd_add_right hdvd]
  cases u.ending with
  | empty announcement h => simp [Ending.bytes]
  | short block h =>
    have hpos := block.length_bytes_pos
    constructor
    · intro hnil
      rw [Ending.bytes] at hnil
      rw [hnil] at hpos
      exact absurd hpos (Nat.lt_irrefl 0)
    · intro hd
      exact absurd (Nat.le_of_dvd hpos hd) (Nat.not_le.mpr h)

/-- Every bitstream can be uploaded, for instance with each block in a single batch. -/
theorem exists_upload {c : UInt16} (hc : 0 < c) (bitstream : List UInt8) :
    Nonempty (Upload c.toNat bitstream) := by
  have hpos : 0 < c.toNat := UInt16.lt_iff_toNat_lt.mp hc
  have hlt : c.toNat < 2 ^ 16 := c.toNat_lt
  induction hn : bitstream.length using Nat.strongRecOn generalizing bitstream with
  | ind n ih =>
    rcases Nat.lt_or_ge bitstream.length c.toNat with hshort | hlong
    · by_cases hempty : bitstream = []
      · subst hempty
        exact ⟨.sending Command.resetCode 0, rfl, [], nofun,
          .empty (.sending Command.chunkCode 0) rfl, rfl⟩
      · let block := Block.ofBatches [] bitstream hempty (Nat.lt_trans hshort hlt)
        exact ⟨.sending Command.resetCode 0, rfl, [], nofun, .short block hshort, rfl⟩
    -- The first block is cut off, and the rest is shorter than the bitstream.
    · have hdrop : (bitstream.drop c.toNat).length < n := by
        rw [List.length_drop]
        omega
      have htake : (bitstream.take c.toNat).length = c.toNat := List.length_take_of_le hlong
      have hne : bitstream.take c.toNat ≠ [] := List.length_pos_iff.mp (by rw [htake]; exact hpos)
      let block := Block.ofBatches [] (bitstream.take c.toNat) hne
        (Nat.lt_of_le_of_lt (Nat.le_of_eq htake) hlt)
      obtain ⟨u⟩ := ih _ hdrop (bitstream.drop c.toNat) rfl
      refine ⟨u.reset, u.resets, block :: u.full, ?_, u.ending, ?_⟩
      · intro b hb
        rcases List.mem_cons.mp hb with rfl | hb
        · exact htake
        · exact u.length_full b hb
      · rw [List.flatMap_cons, List.append_assoc, u.bitstream_eq]
        exact List.take_append_drop c.toNat bitstream

end Upload

end Responder

end BitstreamUpload
