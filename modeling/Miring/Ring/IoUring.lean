import Miring.Ring.Squeue
import Miring.Ring.Cqueue
import Miring.Ring.Submit
import Miring.Ring.Window

/-!
# The instance

`Builder::build` and the operations of `IoUring` from `lib.rs`, and the calls of a client.

An `IoUring` keeps, besides the fields of the source, that its masks fit the sizes of its
rings. `build` is its only constructor, so this holds of every instance.

A client is the caller of one instance that performs one call after another. `Handles` says
which of its queue handles are alive; `submission_shared` and `completion_shared` allow the
same calls as `submission` and `completion`, and a `Submitter` can be used at any time.
-/

namespace Miring

open Sys Miring.Ring Dispatch Program

/-! ## Construction -/

/-- `std::io::ErrorKind`, as far as it occurs. -/
inductive ErrorKind where
  | invalidInput
  deriving DecidableEq

structure Parameters where
  params : IoUringParams

def Parameters.isFeatureNodrop (p : Parameters) : Bool :=
  p.params.features &&& ioringFeatNodrop != 0

def Parameters.isFeatureSubmitStable (p : Parameters) : Bool :=
  p.params.features &&& ioringFeatSubmitStable != 0

/-- An instance with entry types `S` and `C`; its memory is a `RingMem S C`. -/
structure IoUring (S C : Type) where
  sq : Squeue.Inner
  cq : Cqueue.Inner
  params : Parameters
  sq_masks : Masks sq.ringMask sq.ringEntries.toNat
  /-- Without checks of arithmetic overflow `build` can return a completion ring of size 0. -/
  cq_masks : cq.ringEntries ≠ 0 → Masks cq.ringMask cq.ringEntries.toNat

/-- `u32::checked_next_power_of_two` -/
def checkedNextPowerOfTwo (n : UInt32) : Option UInt32 :=
  ((List.range 32).map fun k => UInt32.ofNat (2 ^ k)).find? fun p => n ≤ p

/-- `u32::next_power_of_two`. With overflow checks (a debug build) it panics where the result
does not fit, without them the result is 0. -/
def nextPowerOfTwo (overflowChecks : Bool) (n : UInt32) : Option UInt32 :=
  match checkedNextPowerOfTwo n with
  | some p => some p
  | none => if overflowChecks then none else some 0

theorem masks_of_two_pow {p : UInt32} {k : Nat} (hk : k < 32) (hp : p.toNat = 2 ^ k) :
    Masks (p - 1) p.toNat := by
  have hPos : 0 < 2 ^ k := Nat.two_pow_pos k
  have hLt := UInt32.toNat_lt p
  refine ⟨k, by omega, hp, ?_⟩
  rw [UInt32.toNat_sub, UInt32.toNat_one]
  omega

theorem toNat_two_pow {k : Nat} (hk : k < 32) : (UInt32.ofNat (2 ^ k)).toNat = 2 ^ k := by
  rw [UInt32.toNat_ofNat', Nat.mod_eq_of_lt (Nat.pow_lt_pow_right (by decide) hk)]

theorem two_pow_ne_zero {k : Nat} (hk : k < 32) : UInt32.ofNat (2 ^ k) ≠ 0 := by
  intro h
  have hPow := toNat_two_pow hk
  rw [h] at hPow
  have hPos : 0 < 2 ^ k := Nat.two_pow_pos k
  rw [UInt32.toNat_zero] at hPow
  omega

theorem masks_of_checkedNextPowerOfTwo {n p : UInt32} (h : checkedNextPowerOfTwo n = some p) :
    Masks (p - 1) p.toNat := by
  obtain ⟨k, hk, rfl⟩ := List.mem_map.mp (List.mem_of_find?_eq_some h)
  exact masks_of_two_pow (List.mem_range.mp hk) (toNat_two_pow (List.mem_range.mp hk))

theorem masks_of_nextPowerOfTwo {overflowChecks : Bool} {n p : UInt32}
    (h : nextPowerOfTwo overflowChecks n = some p) (hp : p ≠ 0) : Masks (p - 1) p.toNat := by
  unfold nextPowerOfTwo at h
  split at h
  · next q hq =>
    obtain rfl := Option.some.inj h
    exact masks_of_checkedNextPowerOfTwo hq
  · split at h
    · cases h
    · exact absurd (Option.some.inj h).symm hp

/-- IoUring build params. -/
structure Builder (S C : Type) where
  params : IoUringParams

namespace Builder

variable {S C : Type}

def default [Squeue.EntryMarker S] [Cqueue.EntryMarker C] : Builder S C :=
  ⟨{ flags := Squeue.EntryMarker.buildFlags S ||| Cqueue.EntryMarker.buildFlags C }⟩

/-- The setters that do no more than set a flag. -/
def setFlag (b : Builder S C) (flag : UInt32) : Builder S C :=
  ⟨{ b.params with flags := b.params.flags ||| flag }⟩

def setupIopoll (b : Builder S C) : Builder S C := b.setFlag ioringSetupIopoll

def setupSqpoll (b : Builder S C) (idle : UInt32) : Builder S C :=
  ⟨{ (b.setFlag ioringSetupSqpoll).params with sqThreadIdle := idle }⟩

def setupSqpollCpu (b : Builder S C) (cpu : UInt32) : Builder S C :=
  ⟨{ (b.setFlag ioringSetupSqAff).params with sqThreadCpu := cpu }⟩

def setupCqsize (b : Builder S C) (entries : UInt32) : Builder S C :=
  ⟨{ (b.setFlag ioringSetupCqsize).params with cqEntries := entries }⟩

def setupClamp (b : Builder S C) : Builder S C := b.setFlag ioringSetupClamp

def setupAttachWq (b : Builder S C) (fd : Int32) : Builder S C :=
  ⟨{ (b.setFlag ioringSetupAttachWq).params with wqFd := fd.toUInt32 }⟩

def setupRDisabled (b : Builder S C) : Builder S C := b.setFlag ioringSetupRDisabled

def setupSubmitAll (b : Builder S C) : Builder S C := b.setFlag ioringSetupSubmitAll

def setupCoopTaskrun (b : Builder S C) : Builder S C := b.setFlag ioringSetupCoopTaskrun

def setupTaskrunFlag (b : Builder S C) : Builder S C := b.setFlag ioringSetupTaskrunFlag

def setupDeferTaskrun (b : Builder S C) : Builder S C := b.setFlag ioringSetupDeferTaskrun

def setupSingleIssuer (b : Builder S C) : Builder S C := b.setFlag ioringSetupSingleIssuer

def dontfork (b : Builder S C) : Builder S C := b

/-- The features every instance reports. -/
def features : UInt32 :=
  ioringFeatSingleMmap ||| ioringFeatNodrop ||| ioringFeatSubmitStable ||| ioringFeatRwCurPos |||
    ioringFeatCurPersonality ||| ioringFeatFastPoll ||| ioringFeatPoll32bits |||
    ioringFeatSqpollNonfixed ||| ioringFeatExtArg ||| ioringFeatNativeWorkers |||
    ioringFeatRsrcTags ||| ioringFeatCqeSkip ||| ioringFeatLinkedFile ||| ioringFeatRegRegRing

/-- The size of the completion ring: `none` is a panic. -/
def cqSize (b : Builder S C) (overflowChecks : Bool) (sqEntries : UInt32) :
    Option (Except ErrorKind UInt32) :=
  if b.params.flags &&& ioringSetupCqsize ≠ 0 then
    if b.params.cqEntries = 0 then some (.error .invalidInput)
    else (nextPowerOfTwo overflowChecks b.params.cqEntries).map .ok
  else
    some (.ok (min (sqEntries * 2) ((1 : UInt32) <<< 16)))

/-- The memory of a new instance. -/
def initialMem [Squeue.EntryMarker S] [Cqueue.EntryMarker C] (sqEntries cqEntries : UInt32) :
    RingMem S C where
  cells _ := 0
  sqes := List.replicate sqEntries.toNat Squeue.EntryMarker.zeroed
  cqes := List.replicate cqEntries.toNat Cqueue.EntryMarker.zeroed
  threads := []
  pending := []
  sqeWrites := []
  sqeReads := []
  posts := []
  cqeWrites := []
  cqeReads := []

def parameters (b : Builder S C) (sqEntries cqEntries : UInt32) : Parameters where
  params := {
    sqEntries, cqEntries, features
    flags := b.params.flags
    sqThreadCpu := b.params.sqThreadCpu
    sqThreadIdle := b.params.sqThreadIdle
    wqFd := b.params.wqFd }

end Builder

/-- What `next_power_of_two` answers for the sizes that `build` accepts. -/
theorem checkedNextPowerOfTwo_of_le {n : UInt32} (h : n ≤ (1 : UInt32) <<< 15) :
    ∃ p k, checkedNextPowerOfTwo n = some p ∧ k ≤ 15 ∧ p = UInt32.ofNat (2 ^ k) := by
  have hMem : UInt32.ofNat (2 ^ 15) ∈
      ((List.range 16).map fun k => UInt32.ofNat (2 ^ k)) := by decide
  have hSome : (((List.range 16).map fun k => UInt32.ofNat (2 ^ k)).find?
      fun p => n ≤ p).isSome := by
    rw [List.find?_isSome]
    exact ⟨_, hMem, decide_eq_true h⟩
  obtain ⟨p, hp⟩ := Option.isSome_iff_exists.mp hSome
  obtain ⟨k, hk, rfl⟩ := List.mem_map.mp (List.mem_of_find?_eq_some hp)
  refine ⟨_, k, ?_, by have := List.mem_range.mp hk; omega, rfl⟩
  have hRange : List.range 32 = List.range 16 ++ (List.range 16).map fun k => 16 + k := by decide
  rw [checkedNextPowerOfTwo, hRange, List.map_append, List.find?_append, hp]
  rfl

namespace Builder

variable {S C : Type}

theorem masks_of_cqSize {b : Builder S C} {overflowChecks : Bool} {n sqEntries cqEntries : UInt32}
    (hn : n ≤ (1 : UInt32) <<< 15) (hSq : nextPowerOfTwo overflowChecks n = some sqEntries)
    (h : b.cqSize overflowChecks sqEntries = some (.ok cqEntries)) (hCq : cqEntries ≠ 0) :
    Masks (cqEntries - 1) cqEntries.toNat := by
  unfold cqSize at h
  split at h
  · split at h
    · cases h
    · obtain ⟨p, hp, hpc⟩ := Option.map_eq_some_iff.mp h
      obtain rfl : p = cqEntries := by simpa using hpc
      exact masks_of_nextPowerOfTwo hp hCq
  · obtain rfl : min (sqEntries * 2) ((1 : UInt32) <<< 16) = cqEntries := by simpa using h
    obtain ⟨p, k, hp, hk, rfl⟩ := checkedNextPowerOfTwo_of_le hn
    rw [nextPowerOfTwo, hp] at hSq
    obtain rfl := Option.some.inj hSq
    have hPow : ∀ k, k ≤ 15 →
        (min (UInt32.ofNat (2 ^ k) * 2) ((1 : UInt32) <<< 16)).toNat = 2 ^ (k + 1) := by decide
    exact masks_of_two_pow (by omega) (hPow k hk)

/-- `Builder::build`; `none` is a panic. -/
def build [Squeue.EntryMarker S] [Cqueue.EntryMarker C] (b : Builder S C) (overflowChecks : Bool)
    (entries : UInt32) : Option (Except ErrorKind (IoUring S C × RingMem S C)) :=
  if h : entries = 0 ∨ entries > (1 : UInt32) <<< 15 then some (.error .invalidInput)
  else
    match hSq : nextPowerOfTwo overflowChecks entries with
    | none => none
    | some sqEntries =>
      match hCq : b.cqSize overflowChecks sqEntries with
      | none => none
      | some (.error e) => some (.error e)
      | some (.ok cqEntries) =>
        some (.ok (
          { sq := ⟨sqEntries - 1, sqEntries⟩
            cq := ⟨cqEntries - 1, cqEntries⟩
            params := b.parameters sqEntries cqEntries
            sq_masks := masks_of_nextPowerOfTwo hSq (by
              obtain ⟨p, k, hp, hk, rfl⟩ :=
                checkedNextPowerOfTwo_of_le (UInt32.not_lt.mp (not_or.mp h).2)
              rw [nextPowerOfTwo, hp] at hSq
              obtain rfl := Option.some.inj hSq
              exact two_pow_ne_zero (by omega))
            cq_masks := masks_of_cqSize (UInt32.not_lt.mp (not_or.mp h).2) hSq hCq },
          initialMem sqEntries cqEntries))

/-- What is known of an instance that was built, besides its masks. -/
theorem build_ok [Squeue.EntryMarker S] [Cqueue.EntryMarker C] {b : Builder S C}
    {overflowChecks : Bool} {entries : UInt32} {ring : IoUring S C} {mem : RingMem S C}
    (h : b.build overflowChecks entries = some (.ok (ring, mem))) :
    mem = initialMem ring.sq.ringEntries ring.cq.ringEntries ∧
      ring.params = b.parameters ring.sq.ringEntries ring.cq.ringEntries := by
  unfold build at h
  split at h
  · simp at h
  · split at h
    · simp at h
    · split at h
      · simp at h
      · simp at h
      · obtain ⟨rfl, rfl⟩ := Prod.mk.inj (Except.ok.inj (Option.some.inj h))
        exact ⟨rfl, rfl⟩

/-- Every instance reports the same features. -/
theorem features_of_build [Squeue.EntryMarker S] [Cqueue.EntryMarker C] {b : Builder S C}
    {overflowChecks : Bool} {entries : UInt32} {ring : IoUring S C} {mem : RingMem S C}
    (h : b.build overflowChecks entries = some (.ok (ring, mem))) :
    ring.params.params.features = features := by
  obtain ⟨-, hParams⟩ := build_ok h
  rw [hParams]
  rfl

/-- The masks follow from the sizes. -/
theorem build_inner [Squeue.EntryMarker S] [Cqueue.EntryMarker C] {b : Builder S C}
    {overflowChecks : Bool} {entries : UInt32} {ring : IoUring S C} {mem : RingMem S C}
    (h : b.build overflowChecks entries = some (.ok (ring, mem))) :
    ring.sq = ⟨ring.sq.ringEntries - 1, ring.sq.ringEntries⟩ ∧
      ring.cq = ⟨ring.cq.ringEntries - 1, ring.cq.ringEntries⟩ := by
  unfold build at h
  split at h
  · simp at h
  · split at h
    · simp at h
    · split at h
      · simp at h
      · simp at h
      · obtain ⟨rfl, rfl⟩ := Prod.mk.inj (Except.ok.inj (Option.some.inj h))
        exact ⟨rfl, rfl⟩

/-- The instance, where `build` returns one. -/
def built [Squeue.EntryMarker S] [Cqueue.EntryMarker C] (b : Builder S C) (overflowChecks : Bool)
    (entries : UInt32) : Option (IoUring S C × RingMem S C) :=
  match b.build overflowChecks entries with
  | some (.ok x) => some x
  | _ => none

theorem build_of_built [Squeue.EntryMarker S] [Cqueue.EntryMarker C] {b : Builder S C}
    {overflowChecks : Bool} {entries : UInt32} (h : (b.built overflowChecks entries).isSome) :
    b.build overflowChecks entries = some (.ok ((b.built overflowChecks entries).get h)) := by
  have hSome := Option.some_get h
  generalize (b.built overflowChecks entries).get h = x at hSome
  unfold built at hSome
  split at hSome
  · next y hy => rw [hy, Option.some.inj hSome]
  · cases hSome

end Builder

/-! ## Operations -/

namespace IoUring

variable {S C : Type}

def submitter [Squeue.EntryMarker S] [Cqueue.EntryMarker C] (ring : IoUring S C) : Submitter where
  sqRingMask := ring.sq.ringMask
  sqeStride := Squeue.EntryMarker.size S
  cqRingMask := ring.cq.ringMask
  cqRingEntries := ring.cq.ringEntries
  cqeStride := Cqueue.EntryMarker.size C

variable [Squeue.EntryMarker S] [Cqueue.EntryMarker C] (ring : IoUring S C)

def flushPending : RingProgram S C Unit := ring.submitter.flushPending

def submit : RingProgram S C Nat := ring.submitter.submit

def submitAndWait (want : Nat) : RingProgram S C Nat := ring.submitter.submitAndWait want

/-- The three handles; the submitter has no state. -/
def split : RingProgram S C Unit := do
  ring.flushPending
  Squeue.borrow ring.sq
  Cqueue.borrow ring.cq

omit [Squeue.EntryMarker S] [Cqueue.EntryMarker C] in
def submission : RingProgram S C Unit := Squeue.borrow ring.sq

omit [Squeue.EntryMarker S] [Cqueue.EntryMarker C] in
def submissionShared : RingProgram S C Unit := Squeue.borrowShared ring.sq

def completion : RingProgram S C Unit := do
  ring.flushPending
  Cqueue.borrow ring.cq

def completionShared : RingProgram S C Unit := do
  ring.flushPending
  Cqueue.borrowShared ring.cq

end IoUring

namespace RingMemory

variable {S C : Type}

/-- The loop over the drained handles; what a thread has returned is ignored. -/
def joinEach : List Nat → RingProgram S C Unit
  | [] => pure ()
  | handle :: handles => do
      let _ ← join handle
      joinEach handles

/-- `Drop for RingMemory`, up to the point where the memory of the ring is freed. -/
def drop : RingProgram S C Unit := do
  let batches ← drainPending
  joinEach batches

end RingMemory

end Miring
