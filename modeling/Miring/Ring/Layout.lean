import Miring.Program.Bytes
import Miring.Ring.Memory

/-!
# The slot arrays as bytes

The submission array and the completion array are arrays of entries to the client and strings
of bytes to `Submitter`, which adds `index * stride` to the address of the array and reads or
writes a part of what it finds there. `SlotBytes` says what such an access does to the bytes.
-/

namespace Miring

open Sys Bytes Dispatch Program

/-! ## Entries as bytes -/

/-- `io_uring_sqe`, a `repr(C)` structure. -/
def IoUringSqe.toBytes (sqe : IoUringSqe) : List UInt8 :=
  leBytes 1 sqe.opcode.toNat ++ leBytes 1 sqe.flags.toNat ++ leBytes 2 sqe.ioprio.toNat ++
    leBytes 4 sqe.fd.toUInt32.toNat ++ leBytes 8 sqe.off.toNat ++ leBytes 8 sqe.addr.toNat ++
    leBytes 4 sqe.len.toNat ++ leBytes 4 sqe.opFlags.toNat ++ leBytes 8 sqe.userData.toNat ++
    leBytes 2 sqe.bufIndex.toNat ++ leBytes 2 sqe.personality.toNat ++
    leBytes 4 sqe.spliceFdIn.toUInt32.toNat ++ leBytes 8 sqe.addr3.toNat ++
    leBytes 8 sqe.pad2.toNat

/-- `io_uring_cqe` -/
def IoUringCqe.toBytes (cqe : IoUringCqe) : List UInt8 :=
  leBytes 8 cqe.userData.toNat ++ leBytes 4 cqe.res.toUInt32.toNat ++ leBytes 4 cqe.flags.toNat

@[simp] theorem IoUringSqe.toBytes_length (sqe : IoUringSqe) : (toBytes sqe).length = 64 := by
  simp [toBytes]

@[simp] theorem IoUringCqe.toBytes_length (cqe : IoUringCqe) : (toBytes cqe).length = 16 := by
  simp [toBytes]

/-- The bytes of an entry that is pushed. -/
class Squeue.Layout (E : Type) [Squeue.EntryMarker E] where
  bytes : E → List UInt8
  bytes_length : ∀ e, (bytes e).length = Squeue.EntryMarker.size E
  bytes_take : ∀ e, (bytes e).take 64 = IoUringSqe.toBytes (Squeue.EntryMarker.sqe e)
  sqe_zeroed : Squeue.EntryMarker.sqe (Squeue.EntryMarker.zeroed : E) = {}
  le_size : 64 ≤ Squeue.EntryMarker.size E

/-- The bytes of an entry that is popped. -/
class Cqueue.Layout (E : Type) [Cqueue.EntryMarker E] where
  bytes : E → List UInt8
  bytes_length : ∀ e, (bytes e).length = Cqueue.EntryMarker.size E
  bytes_take : ∀ e, (bytes e).take 16 = IoUringCqe.toBytes (Cqueue.EntryMarker.cqe e)
  cqe_zeroed : Cqueue.EntryMarker.cqe (Cqueue.EntryMarker.zeroed : E) = {}
  bytes_zeroed : ∀ b ∈ bytes Cqueue.EntryMarker.zeroed, b = 0
  bytes_writeCqe : ∀ c e, bytes (Cqueue.EntryMarker.writeCqe c e) =
    overwrite (bytes e) 0 (IoUringCqe.toBytes c)
  le_size : 16 ≤ Cqueue.EntryMarker.size E
  /-- an entry that is larger has room for the 16 bytes that are zeroed -/
  extra_le : 16 < Cqueue.EntryMarker.size E → 32 ≤ Cqueue.EntryMarker.size E
  bytes_zeroExtra : 16 < Cqueue.EntryMarker.size E → ∀ e,
    bytes (Cqueue.EntryMarker.zeroExtra e) = overwrite (bytes e) 16 (List.replicate 16 0)

instance : Squeue.Layout Squeue.Entry where
  bytes e := IoUringSqe.toBytes e.sqe
  bytes_length e := IoUringSqe.toBytes_length e.sqe
  bytes_take e := List.take_of_length_le (Nat.le_of_eq (IoUringSqe.toBytes_length e.sqe))
  sqe_zeroed := rfl
  le_size := Nat.le_refl 64

instance : Squeue.Layout Squeue.Entry128 where
  bytes e := IoUringSqe.toBytes e.entry.sqe ++ e.tail.toList
  bytes_length e := by
    rw [List.length_append, IoUringSqe.toBytes_length, Vector.length_toList]
    rfl
  bytes_take e := List.take_left' (IoUringSqe.toBytes_length e.entry.sqe)
  sqe_zeroed := rfl
  le_size := by decide

instance : Cqueue.Layout Cqueue.Entry where
  bytes e := IoUringCqe.toBytes e.cqe
  bytes_length e := IoUringCqe.toBytes_length e.cqe
  bytes_take e := List.take_of_length_le (Nat.le_of_eq (IoUringCqe.toBytes_length e.cqe))
  cqe_zeroed := rfl
  bytes_zeroed b hb := by
    have hZeros : IoUringCqe.toBytes {} = List.replicate 16 0 := by decide
    exact List.eq_of_mem_replicate (hZeros ▸ hb)
  bytes_writeCqe c e := by
    have hLength : (IoUringCqe.toBytes e.cqe).length ≤ 0 + (IoUringCqe.toBytes c).length := by simp
    rw [overwrite, List.drop_eq_nil_of_le hLength, List.append_nil, List.take_zero,
      List.nil_append]
    rfl
  le_size := Nat.le_refl 16
  extra_le h := absurd h (by decide)
  bytes_zeroExtra h := absurd h (by decide)

instance : Cqueue.Layout Cqueue.Entry32 where
  bytes e := IoUringCqe.toBytes e.entry.cqe ++
    (leBytes 8 e.bigCqe.1.toNat ++ leBytes 8 e.bigCqe.2.toNat)
  bytes_length e := by
    simp only [List.length_append, IoUringCqe.toBytes_length, leBytes_length]
    rfl
  bytes_take e := List.take_left' (IoUringCqe.toBytes_length e.entry.cqe)
  cqe_zeroed := rfl
  bytes_zeroed b hb := by
    have hZeros : IoUringCqe.toBytes {} ++ (leBytes 8 (0 : UInt64).toNat ++
        leBytes 8 (0 : UInt64).toNat) = List.replicate 32 0 := by decide
    exact List.eq_of_mem_replicate (hZeros ▸ hb)
  bytes_writeCqe c e := by
    have hLength : 0 + (IoUringCqe.toBytes c).length =
        (IoUringCqe.toBytes e.entry.cqe).length := by simp
    rw [overwrite, hLength, List.drop_left, List.take_zero, List.nil_append]
    rfl
  le_size := by decide
  extra_le _ := Nat.le_refl 32
  bytes_zeroExtra _ e := by
    have hLength := IoUringCqe.toBytes_length e.entry.cqe
    have hZeros : leBytes 8 (0 : UInt64).toNat ++ leBytes 8 (0 : UInt64).toNat =
        List.replicate 16 (0 : UInt8) := by decide
    rw [overwrite, List.take_left' hLength, List.drop_eq_nil_of_le (by simp), List.append_nil,
      ← hZeros]
    rfl

/-! ## The second half of an entry -/

section Extra

variable {C : Type} [Cqueue.EntryMarker C] [Cqueue.Layout C]

/-- The bytes behind the `io_uring_cqe` are zero. -/
def ExtraZero (e : C) : Prop := ∀ b ∈ (Cqueue.Layout.bytes e).drop 16, b = 0

theorem extraZero_zeroed : ExtraZero (Cqueue.EntryMarker.zeroed : C) := by
  intro b hb
  exact Cqueue.Layout.bytes_zeroed b (List.mem_of_mem_drop hb)

theorem ExtraZero.writeCqe {e : C} (h : ExtraZero e) (cqe : IoUringCqe) :
    ExtraZero (Cqueue.EntryMarker.writeCqe cqe e) := by
  intro b hb
  have hLength : (IoUringCqe.toBytes cqe).length = 16 := IoUringCqe.toBytes_length cqe
  rw [Cqueue.Layout.bytes_writeCqe, overwrite, List.take_zero, List.nil_append, hLength,
    List.drop_left' hLength] at hb
  exact h b hb

theorem ExtraZero.zeroExtra {e : C} (h : ExtraZero e) (hSize : 16 < Cqueue.EntryMarker.size C) :
    ExtraZero (Cqueue.EntryMarker.zeroExtra e) := by
  intro b hb
  have hLength : ((Cqueue.Layout.bytes e).take 16).length = 16 := by
    rw [List.length_take, Cqueue.Layout.bytes_length]
    omega
  rw [Cqueue.Layout.bytes_zeroExtra hSize, overwrite, List.append_assoc,
    List.drop_left' hLength] at hb
  rcases List.mem_append.mp hb with hZero | hRest
  · exact (List.mem_replicate.mp hZero).2
  · refine h b ?_
    rw [← List.drop_drop] at hRest
    exact List.mem_of_mem_drop hRest

theorem leValue_of_zeros {bs : List UInt8} (h : ∀ b ∈ bs, b = 0) : leValue bs = 0 := by
  induction bs with
  | nil => rfl
  | cons b bs ih =>
    obtain ⟨rfl, hRest⟩ := List.forall_mem_cons.mp h
    rw [leValue, ih hRest]
    rfl

theorem bigCqe_of_extraZero {e : Cqueue.Entry32} (h : ExtraZero e) : e.bigCqe = (0, 0) := by
  have hWord : ∀ v : UInt64, (∀ b ∈ leBytes 8 v.toNat, b = 0) → v = 0 := by
    intro v hv
    have hValue := leValue_of_zeros hv
    have hLt := UInt64.toNat_lt v
    rw [leValue_leBytes, Nat.mod_eq_of_lt (by omega)] at hValue
    exact UInt64.toNat_inj.mp hValue
  have hLength : (IoUringCqe.toBytes e.entry.cqe).length = 16 := by simp
  have hBoth : ∀ b ∈ leBytes 8 e.bigCqe.1.toNat ++ leBytes 8 e.bigCqe.2.toNat, b = 0 := by
    intro b hb
    refine h b ?_
    change b ∈ List.drop 16 (IoUringCqe.toBytes e.entry.cqe ++ _)
    rwa [List.drop_left' hLength]
  refine Prod.ext (hWord _ fun b hb => ?_) (hWord _ fun b hb => ?_)
  · exact hBoth b (List.mem_append_left _ hb)
  · exact hBoth b (List.mem_append_right _ hb)

end Extra

/-! ## Accesses -/

section Accesses

variable {S C : Type} [Squeue.EntryMarker S] [Cqueue.EntryMarker C] [Squeue.Layout S]
  [Cqueue.Layout C]

/-- The bytes of the submission array. -/
def sqArray (s : RingMem S C) : List UInt8 := s.sqes.flatMap Squeue.Layout.bytes

/-- The bytes of the completion array. -/
def cqArray (s : RingMem S C) : List UInt8 := s.cqes.flatMap Cqueue.Layout.bytes

/-- The `len` bytes from `start` on belong to one slot of an array of `n` slots of `size`
bytes, `offset` being where that slot starts. -/
def InSlot (size n offset start len : Nat) : Prop :=
  ∃ i < n, offset = i * size ∧ i * size ≤ start ∧ start + len ≤ (i + 1) * size

theorem InSlot.le {size n offset start len : Nat} (h : InSlot size n offset start len) :
    start + len ≤ n * size := by
  obtain ⟨i, hi, -, -, hEnd⟩ := h
  exact Nat.le_trans hEnd (Nat.mul_le_mul_right size hi)

/-- What an action of `Submitter` on a slot does to the bytes of both arrays. -/
def SlotBytes : (o : RingOp S C) → RingMem S C → RingOp.Res o → RingMem S C → Prop
  | .readSqe offset, s, sqe, s' =>
      InSlot (Squeue.EntryMarker.size S) s.sqes.length offset offset 64 ∧
        region (sqArray s) offset 64 = IoUringSqe.toBytes sqe ∧
        sqArray s' = sqArray s ∧ cqArray s' = cqArray s
  | .writeCqe offset cqe, s, _, s' =>
      InSlot (Cqueue.EntryMarker.size C) s.cqes.length offset offset 16 ∧
        cqArray s' = overwrite (cqArray s) offset (IoUringCqe.toBytes cqe) ∧
        sqArray s' = sqArray s
  | .zeroExtra offset, s, _, s' =>
      InSlot (Cqueue.EntryMarker.size C) s.cqes.length offset (offset + 16) 16 ∧
        cqArray s' = overwrite (cqArray s) (offset + 16) (List.replicate 16 0) ∧
        sqArray s' = sqArray s
  | _, _, _, _ => True

theorem slotAt_eq_some {size n offset i : Nat} (h : slotAt size n offset = some i) :
    i < n ∧ offset = i * size := by
  unfold slotAt at h
  split at h
  · next hSlot =>
    obtain rfl := Option.some.inj h
    exact ⟨hSlot.2, (Nat.div_mul_cancel (Nat.dvd_of_mod_eq_zero hSlot.1)).symm⟩
  · cases h

theorem inSlot_of_le {size n i k len : Nat} (hi : i < n) (hk : k + len ≤ size) :
    InSlot size n (i * size) (i * size + k) len := by
  refine ⟨i, hi, rfl, Nat.le_add_right _ _, ?_⟩
  rw [Nat.succ_mul]
  omega

/-- **Accesses to slots.** Wherever such an action is defined, it stays in one slot of its
array and changes no byte outside the part that it writes. -/
theorem slotBytes_of_ringSem {results : Nat → List CompletionData} {o : RingOp S C}
    {s s' : RingMem S C} {r : RingOp.Res o} (h : ringSem results o s = some (r, s')) :
    SlotBytes o s r s' := by
  cases o with
  | readSqe offset =>
    obtain ⟨e, hSlot, hEq⟩ := Option.map_eq_some_iff.mp h
    obtain ⟨i, hAt, he⟩ := Option.bind_eq_some_iff.mp hSlot
    obtain ⟨hi, rfl⟩ := slotAt_eq_some hAt
    obtain ⟨rfl, rfl⟩ := Prod.mk.inj hEq
    have hLe : 0 + 64 ≤ Squeue.EntryMarker.size S := by
      rw [Nat.zero_add]
      exact Squeue.Layout.le_size
    refine ⟨inSlot_of_le hi hLe, ?_, rfl, rfl⟩
    · rw [sqArray, region_flatMap Squeue.Layout.bytes_length he Squeue.Layout.le_size]
      exact Squeue.Layout.bytes_take e
  | writeCqe offset cqe =>
    obtain ⟨i, hAt, hEq⟩ := Option.map_eq_some_iff.mp h
    obtain ⟨hi, rfl⟩ := slotAt_eq_some hAt
    obtain ⟨-, rfl⟩ := Prod.mk.inj hEq
    have hLe : 0 + (IoUringCqe.toBytes cqe).length ≤ Cqueue.EntryMarker.size C := by
      rw [IoUringCqe.toBytes_length, Nat.zero_add]
      exact Cqueue.Layout.le_size
    refine ⟨?_, ?_, rfl⟩
    · rw [IoUringCqe.toBytes_length] at hLe
      exact inSlot_of_le hi hLe
    · exact flatMap_modify Cqueue.Layout.bytes_length (List.getElem?_eq_getElem hi)
        (Cqueue.Layout.bytes_writeCqe cqe _) hLe
  | zeroExtra offset =>
    by_cases hSize : 16 < Cqueue.EntryMarker.size C
    · rw [ringSem, if_pos hSize] at h
      obtain ⟨i, hAt, hEq⟩ := Option.map_eq_some_iff.mp h
      obtain ⟨hi, rfl⟩ := slotAt_eq_some hAt
      obtain ⟨-, rfl⟩ := Prod.mk.inj hEq
      have hLe : 16 + (List.replicate 16 (0 : UInt8)).length ≤ Cqueue.EntryMarker.size C := by
        rw [List.length_replicate]
        exact Cqueue.Layout.extra_le hSize
      refine ⟨inSlot_of_le hi (Cqueue.Layout.extra_le hSize), ?_, rfl⟩
      exact flatMap_modify Cqueue.Layout.bytes_length (List.getElem?_eq_getElem hi)
        (Cqueue.Layout.bytes_zeroExtra hSize _) hLe
    · rw [ringSem, if_neg hSize] at h
      cases h
  | _ => trivial

end Accesses

end Miring
