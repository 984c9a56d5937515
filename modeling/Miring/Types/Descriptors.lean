import Miring.Entry

/-!
# Descriptors

The descriptor types of `types.rs`: a `Target` is an ordinary descriptor or the index of a
registered file, a `DestinationSlot` is where a registered file goes to, and a `CancelBuilder`
may select requests by their descriptor. What their constructors guarantee is a field.
-/

namespace Miring.Types

open Sys

/-! ## Descriptor arguments -/

/-- What `impl UseFixed` converts into. -/
inductive Target where
  | fd (n : Int32)
  | fixed (idx : UInt32)
  deriving DecidableEq, Repr

namespace Target

def isFixed : Target → Bool
  | fd _ => false
  | fixed _ => true

/-- The number, as it goes into a field of type `i32`. -/
def number : Target → Int32
  | fd n => n
  | fixed idx => idx.toInt32

end Target

/-! ## Slots of registered files -/

/-- A destination slot for sending fixed resources. -/
structure DestinationSlot where
  dest : UInt32
  dest_ne : dest ≠ 0

namespace DestinationSlot

def autoAlloc : UInt32 := ioringFileIndexAlloc.toUInt32

def autoTarget : DestinationSlot where
  dest := autoAlloc
  dest_ne := by decide

/-- `AUTO_ALLOC.get().checked_sub(2)` -/
def maxIndex : UInt32 := autoAlloc - 2

/-- Below the largest index the addition does not saturate. -/
theorem succ_ne_zero {target : UInt32} (h : ¬ target > maxIndex) : target + 1 ≠ 0 := by
  intro hZero
  have hMax : maxIndex.toNat = 0xFFFFFFFD := by decide
  have hLe : target.toNat ≤ 0xFFFFFFFD := by
    rw [← hMax, ← UInt32.le_iff_toNat_le]
    exact UInt32.not_lt.mp h
  have hSucc := congrArg UInt32.toNat hZero
  rw [UInt32.toNat_add] at hSucc
  have hOne : (1 : UInt32).toNat = 1 := rfl
  have hNone : (0 : UInt32).toNat = 0 := rfl
  omega

def tryFromSlotTarget (target : UInt32) : Except UInt32 DestinationSlot :=
  if h : target > maxIndex then .error target
  else .ok { dest := target + 1, dest_ne := succ_ne_zero h }

def kernelIndexArg (slot : DestinationSlot) : UInt32 := slot.dest

end DestinationSlot

/-! ## Requests to cancel -/

/-- Match criteria for request cancellation. -/
structure CancelBuilder where
  flags : UInt32
  userData : Option UInt64
  fd : Option Target
  /-- the flag tells a registered file from a descriptor -/
  fixed_iff : flags &&& ioringAsyncCancelFdFixed ≠ 0 ↔ ∃ idx, fd = some (.fixed idx)

namespace CancelBuilder

def any : CancelBuilder where
  flags := ioringAsyncCancelAny
  userData := none
  fd := none
  fixed_iff := iff_of_false (by decide) (by rintro ⟨idx, hNone⟩; cases hNone)

/-- `CancelBuilder::user_data` -/
def ofUserData (userData : UInt64) : CancelBuilder where
  flags := 0
  userData := some userData
  fd := none
  fixed_iff := iff_of_false (by decide) (by rintro ⟨idx, hNone⟩; cases hNone)

/-- `CancelBuilder::fd` -/
def ofFd (target : Target) : CancelBuilder where
  flags :=
    if target.isFixed then ioringAsyncCancelFd ||| ioringAsyncCancelFdFixed
    else ioringAsyncCancelFd
  userData := none
  fd := some target
  fixed_iff := by
    cases target with
    | fd n =>
      simp only [Target.isFixed, Bool.false_eq_true, if_false]
      exact iff_of_false (by decide) (by rintro ⟨idx, hFixed⟩; cases hFixed)
    | fixed idx =>
      simp only [Target.isFixed, if_true]
      exact iff_of_true (by decide) ⟨idx, rfl⟩

def all (b : CancelBuilder) : CancelBuilder where
  flags := b.flags ||| ioringAsyncCancelAll
  userData := b.userData
  fd := b.fd
  fixed_iff := by
    have hKept : (b.flags ||| ioringAsyncCancelAll) &&& ioringAsyncCancelFdFixed =
        b.flags &&& ioringAsyncCancelFdFixed := by
      have hDistrib : (b.flags ||| ioringAsyncCancelAll) &&& ioringAsyncCancelFdFixed =
          (b.flags &&& ioringAsyncCancelFdFixed) |||
            (ioringAsyncCancelAll &&& ioringAsyncCancelFdFixed) :=
        UInt32.toBitVec_inj.1 BitVec.and_or_distrib_right
      rw [hDistrib]
      exact UInt32.or_zero
    rw [hKept]
    exact b.fixed_iff

def toFd (b : CancelBuilder) : Int32 := (b.fd.map Target.number).getD (-1)

end CancelBuilder

end Miring.Types
