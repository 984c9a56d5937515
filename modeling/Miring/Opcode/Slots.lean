import Miring.Opcode.Builders

/-!
# Slots of registered files in entries

Six builders take the slot that a new registered file goes to. Zero means that there is no
slot and `IORING_FILE_INDEX_ALLOC` that the kernel picks one, so slot `n` is encoded as
`n + 1`. `Pipe` and `MsgRingSendFd` take a checked `DestinationSlot`; the others take any
number and compute `idx as i32 + 1`, which goes wrong at three values (`slotRight_iff`).
-/

namespace Miring.Opcode

open Sys Miring.Types

/-! ## Statement -/

/-- How a builder takes a slot. -/
inductive SlotArg where
  | fileIndex
  | destinationSlot
  deriving DecidableEq

namespace Op

def slotArg : Op → Option SlotArg
  | .accept _ => some .fileIndex
  | .openAt _ => some .fileIndex
  | .openAt2 _ => some .fileIndex
  | .socket _ => some .fileIndex
  | .msgRingSendFd _ => some .destinationSlot
  | .pipe _ => some .destinationSlot
  | _ => none

/-- The same arguments with another slot; none where the slot is rejected. -/
def withSlot (slot : UInt32) : Op → Option Op
  | .accept b => some (.accept { b with fileIndex := some slot })
  | .openAt b => some (.openAt { b with fileIndex := some slot })
  | .openAt2 b => some (.openAt2 { b with fileIndex := some slot })
  | .socket b => some (.socket { b with fileIndex := some slot })
  | .msgRingSendFd b =>
    (DestinationSlot.tryFromSlotTarget slot).toOption.map fun dest =>
      .msgRingSendFd { b with destSlot := dest }
  | .pipe b =>
    (DestinationSlot.tryFromSlotTarget slot).toOption.map fun dest =>
      .pipe { b with fileIndex := some dest }
  | op => some op

/-- The field of the entry that holds the slot. -/
def encodedIndex (op : Op) (sqe : IoUringSqe) : Nat :=
  match op with
  | .msgRingSendFd _ => sqe.addr3.toNat
  | _ => sqe.spliceFdIn.toUInt32.toNat

end Op

/-- `slot` is encoded as the next number, where that is possible at all, and rejected where it
is not. -/
structure SlotRight (op : Op) (slot : UInt32) : Prop where
  rejected : op.withSlot slot = none ↔ slot = 0xFFFFFFFE ∨ slot = 0xFFFFFFFF
  /-- with overflow checks, `build` does not panic -/
  built : ∀ op', op.withSlot slot = some op' → ∀ overflowChecks, ∃ sqe,
    op'.sqe overflowChecks = some sqe ∧ op.encodedIndex sqe = slot.toNat + 1 ∧
      op.encodedIndex sqe ≠ 0 ∧ op.encodedIndex sqe ≠ ioringFileIndexAlloc.toUInt32.toNat
  injective : ∀ slot' op₁ op₂ overflowChecks sqe₁ sqe₂, slot' ≠ slot →
    op.withSlot slot = some op₁ → op.withSlot slot' = some op₂ →
    op₁.sqe overflowChecks = some sqe₁ → op₂.sqe overflowChecks = some sqe₂ →
    op.encodedIndex sqe₁ ≠ op.encodedIndex sqe₂

/-! ## The two encodings -/

theorem tryFromSlotTarget_toOption (slot : UInt32) :
    (DestinationSlot.tryFromSlotTarget slot).toOption = none ↔
      slot = 0xFFFFFFFE ∨ slot = 0xFFFFFFFF := by
  have hMax : slot > DestinationSlot.maxIndex ↔ slot = 0xFFFFFFFE ∨ slot = 0xFFFFFFFF := by
    have hLt := UInt32.toNat_lt slot
    have hIndex : DestinationSlot.maxIndex.toNat = 0xFFFFFFFD := by decide
    rw [gt_iff_lt, UInt32.lt_iff_toNat_lt, hIndex, ← UInt32.toNat_inj, ← UInt32.toNat_inj]
    change _ ↔ slot.toNat = 0xFFFFFFFE ∨ slot.toNat = 0xFFFFFFFF
    omega
  rw [← hMax, DestinationSlot.tryFromSlotTarget]
  split
  · next h => exact iff_of_true rfl h
  · next h => exact iff_of_false nofun h

theorem kernelIndexArg_of_toOption {slot : UInt32} {dest : DestinationSlot}
    (h : (DestinationSlot.tryFromSlotTarget slot).toOption = some dest) :
    dest.kernelIndexArg = slot + 1 := by
  unfold DestinationSlot.tryFromSlotTarget at h
  split at h
  · cases h
  · obtain rfl := Option.some.inj h
    rfl

/-- Without overflow checks the sum wraps, to the same bits as an unsigned one. -/
theorem fileIndexArg_eq_some {overflowChecks : Bool} {idx : UInt32} {i : Int32}
    (h : fileIndexArg overflowChecks idx = some i) : i.toUInt32 = idx + 1 := by
  unfold fileIndexArg at h
  split at h
  · cases h
  · obtain rfl := Option.some.inj h
    rw [Int32.toUInt32_add, UInt32.toUInt32_toInt32]
    rfl

theorem fileIndexArg_of_ne {idx : UInt32} (h : idx ≠ 0x7FFFFFFF) (overflowChecks : Bool) :
    ∃ i, fileIndexArg overflowChecks idx = some i := by
  have hMax : idx.toInt32 ≠ Int32.maxValue := by
    intro hEq
    have hBits := congrArg Int32.toUInt32 hEq
    rw [UInt32.toUInt32_toInt32] at hBits
    exact h hBits
  exact ⟨_, if_neg fun hPanic => hMax hPanic.2⟩

/-! ## The builders -/

section Builders

variable {overflowChecks : Bool} {slot : UInt32} {op op' : Op} {sqe : IoUringSqe}

theorem spliceFdIn_of_fileIndex {base : IoUringSqe}
    (h : (((setFileIndex overflowChecks (some slot) base).map Squeue.Entry.mk).map
      Built.entry).map Built.sqe = some sqe) : sqe.spliceFdIn.toUInt32 = slot + 1 := by
  rw [Option.map_map, Option.map_map, Option.map_eq_some_iff] at h
  obtain ⟨sqe₁, hSet, rfl⟩ := h
  obtain ⟨i, hArg, rfl⟩ := Option.map_eq_some_iff.mp hSet
  exact fileIndexArg_eq_some hArg

theorem exists_of_fileIndex (hNe : slot ≠ 0x7FFFFFFF) (base : IoUringSqe) :
    ∃ sqe, (((setFileIndex overflowChecks (some slot) base).map Squeue.Entry.mk).map
      Built.entry).map Built.sqe = some sqe := by
  obtain ⟨i, hIndex⟩ := fileIndexArg_of_ne hNe overflowChecks
  refine ⟨{ base with spliceFdIn := i }, ?_⟩
  rw [setFileIndex, hIndex]
  rfl

/-- Whatever is built holds the wrapping sum. -/
theorem encodedIndex_eq (hArg : op.slotArg.isSome) (hSlot : op.withSlot slot = some op')
    (hSqe : op'.sqe overflowChecks = some sqe) : op.encodedIndex sqe = (slot + 1).toNat := by
  cases op
  case accept b | openAt b | openAt2 b | socket b =>
    obtain rfl := Option.some.inj hSlot
    exact congrArg UInt32.toNat (spliceFdIn_of_fileIndex hSqe)
  case msgRingSendFd b =>
    obtain ⟨dest, hDest, rfl⟩ := Option.map_eq_some_iff.mp hSlot
    obtain rfl := Option.some.inj hSqe
    exact congrArg UInt32.toNat (kernelIndexArg_of_toOption hDest)
  case pipe b =>
    obtain ⟨dest, hDest, rfl⟩ := Option.map_eq_some_iff.mp hSlot
    obtain rfl := Option.some.inj hSqe
    change dest.kernelIndexArg.toInt32.toUInt32.toNat = _
    rw [UInt32.toUInt32_toInt32, kernelIndexArg_of_toOption hDest]
  all_goals cases hArg

/-- The four builders with a raw number accept every slot. -/
theorem withSlot_eq_none_iff (hArg : op.slotArg.isSome) :
    op.withSlot slot = none ↔
      op.slotArg = some .destinationSlot ∧ (slot = 0xFFFFFFFE ∨ slot = 0xFFFFFFFF) := by
  cases op
  case accept b | openAt b | openAt2 b | socket b =>
    exact iff_of_false nofun fun h => nomatch h.1
  case msgRingSendFd b | pipe b =>
    rw [← tryFromSlotTarget_toOption, Op.withSlot, Option.map_eq_none_iff]
    exact (and_iff_right rfl).symm
  all_goals cases hArg

/-- Away from the largest signed number `build` does not panic. -/
theorem sqe_of_withSlot (hArg : op.slotArg.isSome)
    (hSlot : op.withSlot slot = some op')
    (hOk : op.slotArg = some .destinationSlot ∨ slot ≠ 0x7FFFFFFF) :
    ∃ sqe, op'.sqe overflowChecks = some sqe := by
  cases op
  case accept b | openAt b | openAt2 b | socket b =>
    obtain rfl := Option.some.inj hSlot
    rcases hOk with hDest | hNe
    · cases hDest
    · exact exists_of_fileIndex hNe _
  case msgRingSendFd b | pipe b =>
    obtain ⟨dest, -, rfl⟩ := Option.map_eq_some_iff.mp hSlot
    exact ⟨_, rfl⟩
  all_goals cases hArg

/-- At the largest signed number it does, with overflow checks. -/
theorem sqe_eq_none (hArg : op.slotArg = some .fileIndex)
    (hSlot : op.withSlot 0x7FFFFFFF = some op') : op'.sqe true = none := by
  cases op
  case accept b | openAt b | openAt2 b | socket b =>
    obtain rfl := Option.some.inj hSlot
    rfl
  all_goals cases hArg

/-! ## The result -/

/-- Which slots a builder encodes. -/
def SlotOk (op : Op) (slot : UInt32) : Prop :=
  op.slotArg = some .destinationSlot ∨
    slot ≠ 0x7FFFFFFF ∧ slot ≠ 0xFFFFFFFE ∧ slot ≠ 0xFFFFFFFF

theorem slotRight_of_slotOk (hArg : op.slotArg.isSome) (h : SlotOk op slot) :
    SlotRight op slot := by
  have hLargest : op.withSlot slot = none ↔ slot = 0xFFFFFFFE ∨ slot = 0xFFFFFFFF := by
    rw [withSlot_eq_none_iff hArg]
    rcases h with hDest | ⟨-, hFirst, hSecond⟩
    · exact and_iff_right hDest
    · exact iff_of_false (fun hBoth => (not_or.mpr ⟨hFirst, hSecond⟩) hBoth.2)
        (not_or.mpr ⟨hFirst, hSecond⟩)
  refine ⟨hLargest, ?_, ?_⟩
  · intro op' hSlot overflowChecks
    have hNot : ¬ (slot = 0xFFFFFFFE ∨ slot = 0xFFFFFFFF) := by
      rw [← hLargest, hSlot]
      exact nofun
    obtain ⟨sqe, hSqe⟩ : ∃ sqe, op'.sqe overflowChecks = some sqe :=
      sqe_of_withSlot hArg hSlot (h.imp_right And.left)
    have hAlloc : ioringFileIndexAlloc.toUInt32.toNat = 0xFFFFFFFF := by decide
    have hLt := UInt32.toNat_lt slot
    have hSucc : (slot + 1).toNat = slot.toNat + 1 ∧ slot.toNat + 1 < 0xFFFFFFFF := by
      rw [not_or, ← UInt32.toNat_inj, ← UInt32.toNat_inj] at hNot
      change slot.toNat ≠ 0xFFFFFFFE ∧ slot.toNat ≠ 0xFFFFFFFF at hNot
      have hAdd := UInt32.toNat_add slot 1
      have hOne : (1 : UInt32).toNat = 1 := rfl
      omega
    have hIndex := encodedIndex_eq hArg hSlot hSqe
    refine ⟨sqe, hSqe, ?_, ?_, ?_⟩ <;> omega
  · intro slot' op₁ op₂ overflowChecks sqe₁ sqe₂ hNe hSlot hSlot' hSqe hSqe'
    rw [encodedIndex_eq hArg hSlot hSqe, encodedIndex_eq hArg hSlot' hSqe']
    intro hEq
    exact hNe ((UInt32.add_left_inj 1).mp (UInt32.toNat_inj.mp hEq)).symm

theorem slotOk_of_slotRight (hArg : op.slotArg.isSome) (h : SlotRight op slot) :
    SlotOk op slot := by
  obtain ⟨arg, hSome⟩ := Option.isSome_iff_exists.mp hArg
  cases arg with
  | destinationSlot => exact .inl hSome
  | fileIndex =>
    have hAccepted : op.withSlot slot ≠ none := by
      rw [Ne, withSlot_eq_none_iff hArg, hSome]
      exact fun hBoth => nomatch hBoth.1
    obtain ⟨hFirst, hSecond⟩ := not_or.mp (fun hTop => hAccepted (h.rejected.mpr hTop))
    refine .inr ⟨?_, hFirst, hSecond⟩
    rintro rfl
    obtain ⟨op', hSlot⟩ := Option.ne_none_iff_exists'.mp hAccepted
    obtain ⟨sqe, hSqe, -⟩ := h.built op' hSlot true
    rw [sqe_eq_none hSome hSlot] at hSqe
    cases hSqe

end Builders

/-- **Slots.** A checked slot is encoded right or rejected; a raw number is encoded right
except for three values. -/
theorem slotRight_iff {op : Op} (hArg : op.slotArg.isSome) (slot : UInt32) :
    SlotRight op slot ↔
      op.slotArg = some .destinationSlot ∨
        slot ≠ 0x7FFFFFFF ∧ slot ≠ 0xFFFFFFFE ∧ slot ≠ 0xFFFFFFFF :=
  ⟨slotOk_of_slotRight hArg, slotRight_of_slotOk hArg⟩

def openAtSlot : Op := .openAt { dirfd := .fd (-100), pathname := 4096, flags := 2 }

theorem slotRight_iff_openAt :
    SlotRight openAtSlot 5 ↔
      openAtSlot.slotArg = some .destinationSlot ∨
        (5 : UInt32) ≠ 0x7FFFFFFF ∧ (5 : UInt32) ≠ 0xFFFFFFFE ∧ (5 : UInt32) ≠ 0xFFFFFFFF :=
  slotRight_iff rfl 5

/-- The largest signed number overflows; the two largest numbers are accepted and look like
"pick one" and "no slot". -/
theorem openAt_slots_confused :
    (∃ op, openAtSlot.withSlot 0x7FFFFFFF = some op ∧ op.sqe true = none) ∧
      (∃ op sqe, openAtSlot.withSlot 0xFFFFFFFE = some op ∧ op.sqe true = some sqe ∧
        openAtSlot.encodedIndex sqe = ioringFileIndexAlloc.toUInt32.toNat) ∧
      (∃ op sqe, openAtSlot.withSlot 0xFFFFFFFF = some op ∧ op.sqe true = some sqe ∧
        openAtSlot.encodedIndex sqe = 0) ∧
      ¬ SlotRight openAtSlot 0x7FFFFFFF ∧ ¬ SlotRight openAtSlot 0xFFFFFFFE ∧
      ¬ SlotRight openAtSlot 0xFFFFFFFF := by
  have hWrong : ∀ slot, SlotRight openAtSlot slot → SlotOk openAtSlot slot :=
    fun slot => slotOk_of_slotRight rfl
  refine ⟨⟨_, rfl, rfl⟩, ⟨_, _, rfl, rfl, by decide⟩, ⟨_, _, rfl, rfl, by decide⟩, ?_, ?_, ?_⟩
  · intro h
    rcases hWrong _ h with hDest | ⟨hNe, -⟩
    · cases hDest
    · exact hNe rfl
  · intro h
    rcases hWrong _ h with hDest | ⟨-, hNe, -⟩
    · cases hDest
    · exact hNe rfl
  · intro h
    rcases hWrong _ h with hDest | ⟨-, -, hNe⟩
    · cases hDest
    · exact hNe rfl

end Miring.Opcode
