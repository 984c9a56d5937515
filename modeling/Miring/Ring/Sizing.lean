import Miring.Ring.IoUring

/-!
# The sizes of an instance

A builder is configured by any calls of its setters, in any order. `entries` is tested against
`1 << 15` before it is rounded up to a power of two, but the size that `setup_cqsize` asks for
is tested only against `0`. So `build` answers an error or an instance with usable rings if
and only if the requested size is at most `2 ^ 31` or `entries` is rejected first
(`build_sizesRight_iff`).
-/

namespace Miring

open Sys Miring.Ring

variable {S C : Type}

/-! ## Statement -/

/-- The setters of `Builder`. -/
inductive Setter where
  | setupIopoll
  | setupSqpoll (idle : UInt32)
  | setupSqpollCpu (cpu : UInt32)
  | setupCqsize (entries : UInt32)
  | setupClamp
  | setupAttachWq (fd : Int32)
  | setupRDisabled
  | setupSubmitAll
  | setupCoopTaskrun
  | setupTaskrunFlag
  | setupDeferTaskrun
  | setupSingleIssuer
  | dontfork

namespace Builder

def set (b : Builder S C) : Setter → Builder S C
  | .setupIopoll => b.setupIopoll
  | .setupSqpoll idle => b.setupSqpoll idle
  | .setupSqpollCpu cpu => b.setupSqpollCpu cpu
  | .setupCqsize entries => b.setupCqsize entries
  | .setupClamp => b.setupClamp
  | .setupAttachWq fd => b.setupAttachWq fd
  | .setupRDisabled => b.setupRDisabled
  | .setupSubmitAll => b.setupSubmitAll
  | .setupCoopTaskrun => b.setupCoopTaskrun
  | .setupTaskrunFlag => b.setupTaskrunFlag
  | .setupDeferTaskrun => b.setupDeferTaskrun
  | .setupSingleIssuer => b.setupSingleIssuer
  | .dontfork => b.dontfork

/-- The builder behind some calls of setters. -/
def configured [Squeue.EntryMarker S] [Cqueue.EntryMarker C] (setters : List Setter) :
    Builder S C :=
  setters.foldl set .default

end Builder

/-- The size of the last `setup_cqsize`. -/
def requestedCq : List Setter → Option UInt32
  | [] => none
  | setter :: setters =>
      match requestedCq setters, setter with
      | some n, _ => some n
      | none, .setupCqsize n => some n
      | none, _ => none

/-- The sizes of an instance that was asked for `entries` and, perhaps, a size of its
completion ring. -/
structure UsableSizes (entries : UInt32) (requested : Option UInt32) (ring : IoUring S C)
    (mem : RingMem S C) : Prop where
  sq_pow : ∃ k, ring.sq.ringEntries.toNat = 2 ^ k
  cq_pow : ∃ k, ring.cq.ringEntries.toNat = 2 ^ k
  sq_le : entries.toNat ≤ ring.sq.ringEntries.toNat
  sq_lt : ring.sq.ringEntries.toNat < 2 * entries.toNat
  cq_default : requested = none → ring.cq.ringEntries.toNat = 2 * ring.sq.ringEntries.toNat
  cq_requested : ∀ n, requested = some n → n.toNat ≤ ring.cq.ringEntries.toNat
  sq_mask : ring.sq.ringMask.toNat + 1 = ring.sq.ringEntries.toNat
  cq_mask : ring.cq.ringMask.toNat + 1 = ring.cq.ringEntries.toNat
  /-- `sq_entries * 2` does not overflow -/
  doubling : ring.sq.ringEntries.toNat * 2 < 2 ^ 32
  sqes : mem.sqes.length = ring.sq.ringEntries.toNat
  cqes : mem.cqes.length = ring.cq.ringEntries.toNat
  reported : ring.params.params.sqEntries = ring.sq.ringEntries ∧
    ring.params.params.cqEntries = ring.cq.ringEntries

/-- `build` rejects its input, or answers an instance with usable rings. -/
def SizesRight (S C : Type) [Squeue.EntryMarker S] [Cqueue.EntryMarker C]
    (setters : List Setter) (overflowChecks : Bool) (entries : UInt32) : Prop :=
  let b : Builder S C := .configured setters
  b.build overflowChecks entries = some (.error .invalidInput) ∨
    ∃ ring mem, b.build overflowChecks entries = some (.ok (ring, mem)) ∧
      UsableSizes entries (requestedCq setters) ring mem

/-! ## Powers of two -/

theorem checkedNextPowerOfTwo_eq_some_iff {n p : UInt32} :
    checkedNextPowerOfTwo n = some p ↔
      ∃ k < 32, p = UInt32.ofNat (2 ^ k) ∧ n.toNat ≤ 2 ^ k ∧ ∀ j < k, 2 ^ j < n.toNat := by
  have hTest : ∀ k, k < 32 → (n ≤ UInt32.ofNat (2 ^ k) ↔ n.toNat ≤ 2 ^ k) := by
    intro k hk
    rw [UInt32.le_iff_toNat_le, toNat_two_pow hk]
  rw [checkedNextPowerOfTwo, List.find?_map, Option.map_eq_some_iff]
  constructor
  · rintro ⟨k, hFind, rfl⟩
    obtain ⟨hLe, hMem, hLeast⟩ := List.find?_range_eq_some.mp hFind
    have hk := List.mem_range.mp hMem
    refine ⟨k, hk, rfl, (hTest k hk).mp (of_decide_eq_true hLe), ?_⟩
    intro j hj
    have hNot := hLeast j hj
    simp only [Function.comp, Bool.not_eq_true', decide_eq_false_iff_not,
      hTest j (by omega)] at hNot
    omega
  · rintro ⟨k, hk, rfl, hLe, hLeast⟩
    refine ⟨k, List.find?_range_eq_some.mpr ⟨?_, List.mem_range.mpr hk, ?_⟩, rfl⟩
    · exact decide_eq_true ((hTest k hk).mpr hLe)
    · intro j hj
      have hLt := hLeast j hj
      simp only [Function.comp, Bool.not_eq_true', decide_eq_false_iff_not,
        hTest j (by omega)]
      omega

/-- The result is the least power of two that is not smaller. -/
theorem checkedNextPowerOfTwo_bounds {n p : UInt32} (h : checkedNextPowerOfTwo n = some p)
    (hn : n ≠ 0) : (∃ k, p.toNat = 2 ^ k) ∧ n.toNat ≤ p.toNat ∧ p.toNat < 2 * n.toNat := by
  obtain ⟨k, hk, rfl, hLe, hLeast⟩ := checkedNextPowerOfTwo_eq_some_iff.mp h
  have hPos : 0 < n.toNat := by
    rw [Nat.pos_iff_ne_zero]
    exact fun hZero => hn (UInt32.toNat_inj.mp hZero)
  rw [toNat_two_pow hk]
  refine ⟨⟨k, rfl⟩, hLe, ?_⟩
  cases k with
  | zero => omega
  | succ k =>
    have hHalf := hLeast k (by omega)
    rw [Nat.pow_succ]
    omega

theorem checkedNextPowerOfTwo_isSome_iff {n : UInt32} :
    (checkedNextPowerOfTwo n).isSome ↔ n ≤ (1 : UInt32) <<< 31 := by
  have hBound : n ≤ (1 : UInt32) <<< 31 ↔ n.toNat ≤ 2 ^ 31 := UInt32.le_iff_toNat_le
  rw [checkedNextPowerOfTwo, List.find?_map, Option.isSome_map, List.find?_isSome, hBound]
  constructor
  · rintro ⟨k, hMem, hLe⟩
    have hk := List.mem_range.mp hMem
    have hLe' := UInt32.le_iff_toNat_le.mp (of_decide_eq_true hLe)
    rw [toNat_two_pow hk] at hLe'
    have hPow : 2 ^ k ≤ 2 ^ 31 := Nat.pow_le_pow_right (by decide) (by omega)
    exact Nat.le_trans hLe' hPow
  · intro hLe
    refine ⟨31, by decide, decide_eq_true ?_⟩
    rw [UInt32.le_iff_toNat_le, toNat_two_pow (by decide)]
    exact hLe

/-! ## Configurations -/

theorem or_and_distrib (a b c : UInt32) : (a ||| b) &&& c = (a &&& c) ||| (b &&& c) := by
  apply UInt32.toNat_inj.mp
  simp only [UInt32.toNat_and, UInt32.toNat_or, Nat.and_or_distrib_right]

namespace Builder

/-- The size of the completion ring that a builder has been asked for. -/
def requested (b : Builder S C) : Option UInt32 :=
  if b.params.flags &&& ioringSetupCqsize ≠ 0 then some b.params.cqEntries else none

theorem requested_setFlag (b : Builder S C) {flag : UInt32}
    (h : flag &&& ioringSetupCqsize = 0) : (b.setFlag flag).requested = b.requested := by
  have hFlag : (b.params.flags ||| flag) &&& ioringSetupCqsize =
      b.params.flags &&& ioringSetupCqsize := by
    rw [or_and_distrib, h, UInt32.or_zero]
  simp only [requested, setFlag, hFlag]

theorem requested_setupCqsize (b : Builder S C) (n : UInt32) :
    (b.setupCqsize n).requested = some n := by
  have hFlag : (b.params.flags ||| ioringSetupCqsize) &&& ioringSetupCqsize ≠ 0 := by
    rw [or_and_distrib, UInt32.and_self]
    intro h
    have hOr := congrArg UInt32.toNat h
    have hLe : ioringSetupCqsize.toNat ≤
        (b.params.flags &&& ioringSetupCqsize ||| ioringSetupCqsize).toNat := by
      rw [UInt32.toNat_or]
      exact Nat.right_le_or
    rw [hOr] at hLe
    exact absurd hLe (by decide)
  exact if_pos hFlag

theorem requestedCq_cons (setter : Setter) (setters : List Setter) :
    requestedCq (setter :: setters) = (requestedCq setters).or (requestedCq [setter]) := by
  cases h : requestedCq setters with
  | some n => simp [requestedCq, h]
  | none => cases setter <;> simp [requestedCq, h]

/-- Only `setup_cqsize` changes what is requested. -/
theorem requested_set (b : Builder S C) (setter : Setter) :
    (b.set setter).requested = (requestedCq [setter]).or b.requested := by
  cases setter with
  | setupCqsize n => exact requested_setupCqsize b n
  | dontfork => rfl
  | setupIopoll | setupSqpoll | setupSqpollCpu | setupClamp | setupAttachWq | setupRDisabled
  | setupSubmitAll | setupCoopTaskrun | setupTaskrunFlag | setupDeferTaskrun
  | setupSingleIssuer => exact requested_setFlag b (by decide)

theorem requested_foldl (b : Builder S C) (setters : List Setter) :
    (setters.foldl set b).requested = (requestedCq setters).or b.requested := by
  induction setters generalizing b with
  | nil => rfl
  | cons setter setters ih =>
    rw [List.foldl_cons, ih, requested_set, requestedCq_cons setter setters, Option.or_assoc]

variable [Squeue.EntryMarker S] [Cqueue.EntryMarker C]

theorem requested_configured (setters : List Setter) :
    (configured setters : Builder S C).requested = requestedCq setters := by
  have hDefault : (default : Builder S C).requested = none := by
    refine if_neg (not_not.mpr ?_)
    change (Squeue.EntryMarker.buildFlags S ||| Cqueue.EntryMarker.buildFlags C) &&&
      ioringSetupCqsize = 0
    rw [or_and_distrib, Squeue.EntryMarker.buildFlags_cqsize,
      Cqueue.EntryMarker.buildFlags_cqsize, UInt32.or_zero]
  rw [configured, requested_foldl, hDefault, Option.or_none]

/-! ## What `build` answers -/

variable {b : Builder S C} {overflowChecks : Bool} {entries sqEntries cqEntries : UInt32}

theorem build_of_rejected (h : entries = 0 ∨ entries > (1 : UInt32) <<< 15) :
    b.build overflowChecks entries = some (.error .invalidInput) := by
  rw [build, dif_pos h]

theorem build_of_sizes (h : ¬ (entries = 0 ∨ entries > (1 : UInt32) <<< 15))
    (hSq : nextPowerOfTwo overflowChecks entries = some sqEntries)
    (hCq : b.cqSize overflowChecks sqEntries = some (.ok cqEntries)) :
    ∃ ring, b.build overflowChecks entries = some (.ok (ring, initialMem sqEntries cqEntries)) ∧
      ring.sq = ⟨sqEntries - 1, sqEntries⟩ ∧ ring.cq = ⟨cqEntries - 1, cqEntries⟩ ∧
      ring.params = b.parameters sqEntries cqEntries := by
  rw [build, dif_neg h]
  split
  · next hNone => cases hNone.symm.trans hSq
  · next p hp =>
    obtain rfl := Option.some.inj (hp.symm.trans hSq)
    split
    · next hNone => cases hNone.symm.trans hCq
    · next e hErr => cases hErr.symm.trans hCq
    · next q hq =>
      obtain rfl : q = cqEntries := Except.ok.inj (Option.some.inj (hq.symm.trans hCq))
      exact ⟨_, rfl, rfl, rfl, rfl⟩

/-- Where the completion ring has no size, `build` ends as its computation does. -/
theorem build_of_cqSize (h : ¬ (entries = 0 ∨ entries > (1 : UInt32) <<< 15))
    (hSq : nextPowerOfTwo overflowChecks entries = some sqEntries) :
    (b.cqSize overflowChecks sqEntries = none → b.build overflowChecks entries = none) ∧
      ∀ e, b.cqSize overflowChecks sqEntries = some (.error e) →
        b.build overflowChecks entries = some (.error e) := by
  rw [build, dif_neg h]
  split
  · next hNone => cases hNone.symm.trans hSq
  · next p hp =>
    obtain rfl := Option.some.inj (hp.symm.trans hSq)
    split
    · next hNone =>
      refine ⟨fun _ => rfl, fun e hErr => ?_⟩
      cases hNone.symm.trans hErr
    · next e hErr =>
      refine ⟨fun hNone => ?_, fun e' hErr' => ?_⟩
      · cases hErr.symm.trans hNone
      · obtain rfl : e = e' := Except.error.inj (Option.some.inj (hErr.symm.trans hErr'))
        rfl
    · next q hq =>
      refine ⟨fun hNone => ?_, fun e hErr => ?_⟩
      · cases hq.symm.trans hNone
      · cases hq.symm.trans hErr

end Builder

/-! ## The result -/

section Result

variable [Squeue.EntryMarker S] [Cqueue.EntryMarker C]

/-- The submission ring of an instance whose `entries` are accepted. -/
theorem sqEntries_of_accepted (overflowChecks : Bool) {entries : UInt32}
    (h : ¬ (entries = 0 ∨ entries > (1 : UInt32) <<< 15)) :
    ∃ sqEntries, nextPowerOfTwo overflowChecks entries = some sqEntries ∧
      (∃ k, k ≤ 15 ∧ sqEntries.toNat = 2 ^ k) ∧ entries.toNat ≤ sqEntries.toNat ∧
      sqEntries.toNat < 2 * entries.toNat := by
  obtain ⟨hZero, hLarge⟩ := not_or.mp h
  obtain ⟨p, k, hp, hk, hpk⟩ := checkedNextPowerOfTwo_of_le (UInt32.not_lt.mp hLarge)
  obtain ⟨-, hLe, hLt⟩ := checkedNextPowerOfTwo_bounds hp hZero
  refine ⟨p, ?_, ⟨k, hk, ?_⟩, hLe, hLt⟩
  · rw [nextPowerOfTwo, hp]
  · rw [hpk, toNat_two_pow (by omega)]

/-- A power of two less one. -/
theorem toNat_sub_one {p : UInt32} (h : ∃ k, p.toNat = 2 ^ k) : (p - 1).toNat + 1 = p.toNat := by
  obtain ⟨k, hk⟩ := h
  have hPos : 0 < 2 ^ k := Nat.two_pow_pos k
  have hLe : (1 : UInt32) ≤ p := by
    rw [UInt32.le_iff_toNat_le, UInt32.toNat_one]
    omega
  rw [UInt32.toNat_sub_of_le _ _ hLe, UInt32.toNat_one]
  omega

/-- The sizes, where `build` computes both. -/
theorem usableSizes_of_sizes {b : Builder S C} {entries sqEntries cqEntries : UInt32}
    {requested : Option UInt32} {ring : IoUring S C} {mem : RingMem S C}
    (hMem : mem = Builder.initialMem sqEntries cqEntries)
    (hSqInner : ring.sq = ⟨sqEntries - 1, sqEntries⟩)
    (hCqInner : ring.cq = ⟨cqEntries - 1, cqEntries⟩)
    (hParams : ring.params = b.parameters sqEntries cqEntries)
    (hSq : ∃ k, k ≤ 15 ∧ sqEntries.toNat = 2 ^ k) (hLe : entries.toNat ≤ sqEntries.toNat)
    (hLt : sqEntries.toNat < 2 * entries.toNat) (hCq : ∃ k, cqEntries.toNat = 2 ^ k)
    (hDefault : requested = none → cqEntries.toNat = 2 * sqEntries.toNat)
    (hRequested : ∀ n, requested = some n → n.toNat ≤ cqEntries.toNat) :
    UsableSizes entries requested ring mem := by
  obtain ⟨k, hk, hPow⟩ := hSq
  have hBound : 2 ^ k ≤ 2 ^ 15 := Nat.pow_le_pow_right (by decide) hk
  rw [← hPow] at hBound
  have hSqEntries : ring.sq.ringEntries = sqEntries := by rw [hSqInner]
  have hCqEntries : ring.cq.ringEntries = cqEntries := by rw [hCqInner]
  exact {
    sq_pow := by rw [hSqEntries]; exact ⟨k, hPow⟩
    cq_pow := by rwa [hCqEntries]
    sq_le := by rwa [hSqEntries]
    sq_lt := by rwa [hSqEntries]
    cq_default := by rwa [hSqEntries, hCqEntries]
    cq_requested := by rwa [hCqEntries]
    sq_mask := by rw [hSqInner]; exact toNat_sub_one ⟨k, hPow⟩
    cq_mask := by rw [hCqInner]; exact toNat_sub_one hCq
    doubling := by rw [hSqEntries]; omega
    sqes := by rw [hSqEntries, hMem]; exact List.length_replicate
    cqes := by rw [hCqEntries, hMem]; exact List.length_replicate
    reported := by rw [hSqEntries, hCqEntries, hParams]; exact ⟨rfl, rfl⟩ }

omit [Squeue.EntryMarker S] [Cqueue.EntryMarker C] in
/-- Without a request the completion ring has twice the size. -/
theorem cqSize_default {b : Builder S C} (overflowChecks : Bool) {sqEntries : UInt32}
    (hNone : b.requested = none) (hSq : ∃ k, k ≤ 15 ∧ sqEntries.toNat = 2 ^ k) :
    ∃ cqEntries, b.cqSize overflowChecks sqEntries = some (.ok cqEntries) ∧
      (∃ k, cqEntries.toNat = 2 ^ k) ∧ cqEntries.toNat = 2 * sqEntries.toNat := by
  obtain ⟨k, hk, hPow⟩ := hSq
  have hMin : ∀ k, k ≤ 15 →
      (min (UInt32.ofNat (2 ^ k) * 2) ((1 : UInt32) <<< 16)).toNat = 2 ^ (k + 1) := by
    decide
  have hOf : sqEntries = UInt32.ofNat (2 ^ k) := by rw [← hPow, UInt32.ofNat_toNat]
  have hFlag : ¬ (b.params.flags &&& ioringSetupCqsize ≠ 0) := by
    intro hSet
    rw [Builder.requested, if_pos hSet] at hNone
    cases hNone
  refine ⟨min (sqEntries * 2) ((1 : UInt32) <<< 16), ?_, ⟨k + 1, ?_⟩, ?_⟩
  · rw [Builder.cqSize, if_neg hFlag]
  · rw [hOf, hMin k hk]
  · rw [hPow, hOf, hMin k hk, Nat.pow_succ, Nat.mul_comm]

omit [Squeue.EntryMarker S] [Cqueue.EntryMarker C] in
theorem cqSize_requested {b : Builder S C} {n : UInt32} (hSome : b.requested = some n)
    (overflowChecks : Bool) (sqEntries : UInt32) :
    b.cqSize overflowChecks sqEntries =
      if n = 0 then some (.error .invalidInput) else (nextPowerOfTwo overflowChecks n).map .ok := by
  unfold Builder.requested at hSome
  split at hSome
  · next hFlag =>
    obtain rfl := Option.some.inj hSome
    rw [Builder.cqSize, if_pos hFlag]
  · cases hSome

/-- What a request for the completion ring comes to, when `entries` are accepted. -/
theorem sizesRight_of_requested {setters : List Setter} {overflowChecks : Bool}
    {entries n : UInt32} (h : ¬ (entries = 0 ∨ entries > (1 : UInt32) <<< 15))
    (hRequested : requestedCq setters = some n) :
    SizesRight S C setters overflowChecks entries ↔ n ≤ (1 : UInt32) <<< 31 := by
  obtain ⟨sqEntries, hSq, hSqPow, hLe, hLt⟩ :=
    sqEntries_of_accepted overflowChecks h
  have hSome : (Builder.configured setters : Builder S C).requested = some n := by
    rw [Builder.requested_configured, hRequested]
  have hSize := cqSize_requested hSome overflowChecks sqEntries
  by_cases hZero : n = 0
  · rw [if_pos hZero] at hSize
    rw [hZero]
    exact iff_of_true (.inl ((Builder.build_of_cqSize h hSq).2 _ hSize)) (by decide)
  · rw [if_neg hZero] at hSize
    cases hNext : checkedNextPowerOfTwo n with
    | some cqEntries =>
      obtain ⟨hPow, hCqLe, -⟩ := checkedNextPowerOfTwo_bounds hNext hZero
      rw [nextPowerOfTwo, hNext] at hSize
      obtain ⟨ring, hBuild, hSqInner, hCqInner, hParams⟩ := Builder.build_of_sizes h hSq hSize
      have hUsable : UsableSizes entries (some n) ring
          (Builder.initialMem sqEntries cqEntries) :=
        usableSizes_of_sizes rfl hSqInner hCqInner hParams hSqPow hLe hLt hPow nofun
          fun m hm => Option.some.inj hm ▸ hCqLe
      refine iff_of_true (.inr ⟨ring, _, hBuild, hRequested ▸ hUsable⟩) ?_
      rw [← checkedNextPowerOfTwo_isSome_iff, hNext]
      rfl
    | none =>
      rw [nextPowerOfTwo, hNext] at hSize
      have hTooLarge : ¬ n ≤ (1 : UInt32) <<< 31 := by
        rw [← checkedNextPowerOfTwo_isSome_iff, hNext]
        exact Bool.false_ne_true
      refine iff_of_false ?_ hTooLarge
      cases overflowChecks with
      | true =>
        -- `next_power_of_two` panics
        have hBuild := (Builder.build_of_cqSize h hSq).1 hSize
        rintro (hErr | ⟨ring, mem, hOk, -⟩)
        · cases hBuild.symm.trans hErr
        · cases hBuild.symm.trans hOk
      | false =>
        -- `next_power_of_two` answers 0
        obtain ⟨ring, hBuild, -, hCqInner, -⟩ := Builder.build_of_sizes h hSq hSize
        rintro (hErr | ⟨ring', mem, hOk, hUsable⟩)
        · cases hBuild.symm.trans hErr
        · obtain ⟨rfl, -⟩ := Prod.mk.inj (Except.ok.inj (Option.some.inj (hBuild.symm.trans hOk)))
          obtain ⟨k, hk⟩ := hUsable.cq_pow
          have hPos : 0 < 2 ^ k := Nat.two_pow_pos k
          rw [← hk, hCqInner] at hPos
          exact absurd hPos (by decide)

/-- **Sizes.** Whatever setters were called and whether overflow is checked or not, `build`
rejects its input or answers an instance with usable rings if and only if `entries` is
rejected or no completion ring of more than `2 ^ 31` slots was asked for. -/
theorem build_sizesRight_iff (setters : List Setter) (overflowChecks : Bool) (entries : UInt32) :
    SizesRight S C setters overflowChecks entries ↔
      (entries = 0 ∨ entries > (1 : UInt32) <<< 15) ∨
        ∀ n, requestedCq setters = some n → n ≤ (1 : UInt32) <<< 31 := by
  by_cases h : entries = 0 ∨ entries > (1 : UInt32) <<< 15
  · exact iff_of_true (.inl (Builder.build_of_rejected h)) (.inl h)
  rw [or_iff_right h]
  cases hRequested : requestedCq setters with
  | some n =>
    rw [sizesRight_of_requested h hRequested]
    exact ⟨fun hLe m hm => Option.some.inj hm ▸ hLe, fun hAll => hAll n rfl⟩
  | none =>
    refine iff_of_true ?_ nofun
    obtain ⟨sqEntries, hSq, hSqPow, hLe, hLt⟩ :=
      sqEntries_of_accepted overflowChecks h
    have hNone : (Builder.configured setters : Builder S C).requested = none := by
      rw [Builder.requested_configured, hRequested]
    obtain ⟨cqEntries, hSize, hPow, hTwice⟩ :=
      cqSize_default overflowChecks hNone hSqPow
    obtain ⟨ring, hBuild, hSqInner, hCqInner, hParams⟩ := Builder.build_of_sizes h hSq hSize
    refine .inr ⟨ring, _, hBuild, ?_⟩
    rw [hRequested]
    exact usableSizes_of_sizes rfl hSqInner hCqInner hParams hSqPow hLe hLt hPow (fun _ => hTwice)
      nofun

end Result

/-- A completion ring of `2 ^ 31 + 1` slots: a panic, or a ring without slots. -/
theorem large_cqsize :
    ¬ SizesRight Squeue.Entry Cqueue.Entry [.setupCqsize 0x80000001] true 8 ∧
      ¬ SizesRight Squeue.Entry Cqueue.Entry [.setupCqsize 0x80000001] false 8 := by
  have hFails : ∀ overflowChecks : Bool,
      ¬ SizesRight Squeue.Entry Cqueue.Entry [.setupCqsize 0x80000001] overflowChecks 8 := by
    intro overflowChecks hRight
    exact absurd ((sizesRight_of_requested (by decide) rfl).mp hRight) (by decide)
  exact ⟨hFails true, hFails false⟩

end Miring
