import Miring.Ring.Submit
import Miring.Dispatch.Observe
import Mathlib.Algebra.Group.Int.Defs

/-!
# Transfers and their results

A transfer is a request that moves data: to or from one buffer, the targets of an iovec array,
those of a message, a list of descriptors, or the value of an extended attribute. `counted`
is its handler with a counter beside the result, which goes up with every byte (or descriptor)
of data that is accessed; without the counter it is the handler (`erase_counted`).

The handlers add up lengths as `usize`, saturating, and narrow the sum to an `i32`. So the sum
must be below `2 ^ 31` modulo `2 ^ 32`. The length of an iovec is read for the sum when its target
has been accessed; so a target must not zero the length that it comes from. And the result of a
GETXATTR is its buffer's length also where the pointer is null (`result_counts_iff`).
-/

namespace Miring.Dispatch

open Sys Program

/-! ## The handlers with a counter -/

def countBuf (t : Touch) (sqe : IoUringSqe) : UserProgram (Int32 × Nat) :=
  let addr := sqe.addr.toNat
  let len := sqe.len.toNat
  if addr = 0 ∨ len = 0 then pure (0, 0)
  else do
    let k ← t.count addr len
    pure (asI32 len, k)

/-- The accesses to the targets are counted, and those to the name and the control data are
not. -/
def counting (t : Touch) : Observer t Nat where
  buffer _ _ k := k
  array _ _ k := k
  target _ n k := k + n
  visit p n := (fun c k => k + c) <$> t.count p n
  erase p n := by
    rw [Functor.map_map]
    exact t.erase p n
  spec h := by
    rw [Runs, exec_map] at h
    obtain ⟨⟨tr, c, m⟩, hCount, hEnd⟩ := Option.map_eq_some_iff.mp h
    simp only [Prod.mk.injEq] at hEnd
    obtain ⟨-, rfl, rfl⟩ := hEnd
    obtain ⟨rfl, hAfter⟩ := t.spec hCount
    exact ⟨rfl, hAfter⟩

def countVec (t : Touch) (sqe : IoUringSqe) : UserProgram (Int32 × Nat) :=
  let iovPtr := sqe.addr.toNat
  let nrVecs := sqe.len.toNat
  if iovPtr = 0 ∨ nrVecs = 0 then pure (0, 0) else observeArray (counting t) iovPtr nrVecs 0

def countMsg (t : Touch) (sqe : IoUringSqe) : UserProgram (Int32 × Nat) :=
  let hdrPtr := sqe.addr.toNat
  if hdrPtr = 0 then pure (-14, 0) else observeMsgHdr (counting t) hdrPtr 0

/-- The descriptors of a list. -/
def countFds (p : Nat) : Nat → UserProgram Nat
  | 0 => pure 0
  | n + 1 => do
      readBytes p 4
      let k ← countFds (p + 4) n
      pure (k + 1)

def countFilesUpdate (sqe : IoUringSqe) : UserProgram (Int32 × Nat) :=
  let fds := sqe.addr.toNat
  let len := sqe.len.toNat
  if fds = 0 ∨ len = 0 then pure (0, 0)
  else do
    let k ← countFds fds len
    pure (asI32 len, k)

/-- The bytes of the value buffer. -/
def countXattrGet (sqe : IoUringSqe) : UserProgram (Int32 × Nat) := do
  let name := sqe.addr.toNat
  (if name = 0 then pure () else walkCstr name)
  let value := sqe.off.toNat
  let len := sqe.len.toNat
  let k ← (if value = 0 ∨ len = 0 then pure 0 else countFill value len)
  let path := sqe.addr3.toNat
  (if sqe.opcode.toNat ≠ ioringOpGetxattr ∨ path = 0 then pure () else walkCstr path)
  pure (asI32 len, k)

/-- The kinds of transfers. -/
inductive Transfer where
  | buf (t : Touch)
  | vec (t : Touch)
  | msg (t : Touch)
  | filesUpdate
  | xattrGet

def Transfer.isXattrGet : Transfer → Bool
  | .xattrGet => true
  | .buf _ | .vec _ | .msg _ | .filesUpdate => false

/-- The kind of a request that transfers data. -/
def transfer (sqe : IoUringSqe) : Option Transfer :=
  match sqe.opcode.toNat with
  | ioringOpRead | ioringOpReadFixed | ioringOpRecv | ioringOpReadMultishot =>
      some (.buf fillTouch)
  | ioringOpWrite | ioringOpWriteFixed | ioringOpSend | ioringOpSendZc => some (.buf readTouch)
  | ioringOpReadv | ioringOpReadvFixed => some (.vec fillTouch)
  | ioringOpWritev | ioringOpWritevFixed => some (.vec readTouch)
  | ioringOpRecvmsg => some (.msg fillTouch)
  | ioringOpSendmsg | ioringOpSendmsgZc => some (.msg readTouch)
  | ioringOpFilesUpdate => some .filesUpdate
  | ioringOpFgetxattr | ioringOpGetxattr => some .xattrGet
  | _ => none

/-- The handler of a transfer, with a counter. -/
def counted (sqe : IoUringSqe) : Transfer → UserProgram (Int32 × Nat)
  | .buf t => countBuf t sqe
  | .vec t => countVec t sqe
  | .msg t => countMsg t sqe
  | .filesUpdate => countFilesUpdate sqe
  | .xattrGet => countXattrGet sqe

/-! ## Without the counter -/

section Erase

theorem erase_countBuf (t : Touch) (sqe : IoUringSqe) :
    Prod.fst <$> countBuf t sqe =
      (if sqe.addr.toNat = 0 ∨ sqe.len.toNat = 0 then pure 0
      else t.run sqe.addr.toNat sqe.len.toNat >>= fun _ => pure (asI32 sqe.len.toNat)) := by
  apply erase_unless
  rw [← t.erase]
  simp only [map_bind, map_pure, bind_map_left]

theorem erase_countVec (t : Touch) (sqe : IoUringSqe) :
    Prod.fst <$> countVec t sqe =
      (if sqe.addr.toNat = 0 ∨ sqe.len.toNat = 0 then pure 0
      else walkIovecs t.run sqe.addr.toNat sqe.len.toNat 0 >>= fun total =>
        pure (asI32 total)) :=
  erase_unless (erase_observeArray (counting t) _ _ _)

theorem erase_countMsg (t : Touch) (sqe : IoUringSqe) :
    Prod.fst <$> countMsg t sqe =
      if sqe.addr.toNat = 0 then pure (-14) else walkMsgHdr t.run sqe.addr.toNat :=
  erase_unless (erase_observeMsgHdr (counting t) _ _)

theorem readBytes_add (p m n : Nat) :
    readBytes p (m + n) = readBytes p m >>= fun _ => readBytes (p + m) n := by
  induction m generalizing p with
  | zero =>
    rw [Nat.zero_add, Nat.add_zero]
    rfl
  | succ m ih =>
    rw [Nat.succ_add, readBytes, readBytes, ih, bind_assoc, Nat.add_right_comm p 1 m]
    rfl

theorem erase_countFds (p n : Nat) : (fun _ => ()) <$> countFds p n = readBytes p (n * 4) := by
  induction n generalizing p with
  | zero => rfl
  | succ n ih =>
    rw [countFds, Nat.succ_mul, Nat.add_comm (n * 4) 4, readBytes_add, ← ih]
    simp only [map_bind, ← map_eq_pure_bind, Functor.map_map]

theorem erase_countFilesUpdate (sqe : IoUringSqe) :
    Prod.fst <$> countFilesUpdate sqe = dispatchFilesUpdate sqe := by
  apply erase_unless
  rw [← erase_countFds]
  simp only [map_bind, map_pure, bind_map_left]

theorem erase_countXattrGet (sqe : IoUringSqe) :
    Prod.fst <$> countXattrGet sqe = dispatchXattrGet sqe := by
  have hValue : (fun _ => ()) <$> (if sqe.off.toNat = 0 ∨ sqe.len.toNat = 0 then pure 0
      else countFill sqe.off.toNat sqe.len.toNat) =
      (if sqe.off.toNat = 0 ∨ sqe.len.toNat = 0 then pure ()
        else fill sqe.off.toNat sqe.len.toNat : UserProgram Unit) := by
    split
    · rfl
    · exact erase_countFill _ _
  unfold countXattrGet dispatchXattrGet
  simp only [map_bind, map_pure, ← hValue, bind_map_left]

/-- **The counter is a mere observer.** -/
theorem erase_counted {sqe : IoUringSqe} {kind : Transfer} (h : transfer sqe = some kind) :
    Prod.fst <$> counted sqe kind = dispatchOp sqe := by
  have hBuf : ∀ t, Prod.fst <$> counted sqe (.buf t) = _ := fun t => erase_countBuf t sqe
  have hVec : ∀ t, Prod.fst <$> counted sqe (.vec t) = _ := fun t => erase_countVec t sqe
  have hMsg : ∀ t, Prod.fst <$> counted sqe (.msg t) = _ := fun t => erase_countMsg t sqe
  unfold transfer at h
  split at h
  all_goals first
    | (cases h; done)
    | (next hOp =>
        obtain rfl := Option.some.inj h
        unfold dispatchOp
        rw [hOp]
        first
          | exact hBuf _
          | exact hVec _
          | exact hMsg _
          | exact erase_countFilesUpdate sqe
          | exact erase_countXattrGet sqe)

end Erase

/-! ## What a transfer asks for -/

/-- The targets of a vectored request. -/
def Transfer.targets (m : UserCells) (sqe : IoUringSqe) : Transfer → List IovTarget
  | .vec t => if sqe.addr.toNat = 0 then [] else Dispatch.targets t m sqe.addr.toNat sqe.len.toNat
  | .msg t => msgTargets t m sqe.addr.toNat
  | .buf _ | .filesUpdate | .xattrGet => []

/-- The size of the data that a request asks to transfer. -/
def requested (m : UserCells) (sqe : IoUringSqe) : Transfer → Nat
  | .buf _ | .filesUpdate => if sqe.addr.toNat = 0 then 0 else sqe.len.toNat
  | .vec t => lenSum ((Transfer.vec t).targets m sqe)
  | .msg t => lenSum ((Transfer.msg t).targets m sqe)
  | .xattrGet => if sqe.off.toNat = 0 then 0 else sqe.len.toNat

/-- The size that a request tells of: its length, or what the targets have left of theirs. -/
def told (m : UserCells) (sqe : IoUringSqe) : Transfer → Nat
  | .buf _ | .filesUpdate => if sqe.addr.toNat = 0 then 0 else sqe.len.toNat
  | .vec t => leftSum ((Transfer.vec t).targets m sqe)
  | .msg t => leftSum ((Transfer.msg t).targets m sqe)
  | .xattrGet => sqe.len.toNat

/-- The saturated size survives the conversion to `i32`. -/
def FitsI32 (n : Nat) : Prop := min n usizeMax % 2 ^ 32 < 2 ^ 31

/-- When the result of a transfer can be right. -/
structure Countable (m : UserCells) (sqe : IoUringSqe) (kind : Transfer) : Prop where
  fits : FitsI32 (told m sqe kind)
  /-- no target zeroes the length of its own iovec -/
  keeps : requested m sqe kind < 2 ^ 31 → ∀ x ∈ kind.targets m sqe, x.left = x.len
  buffer : kind.isXattrGet = true → sqe.off = 0 → sqe.len = 0

/-- The result `r` of a request that has transferred `n` bytes. -/
structure ResultCounts (sqe : IoUringSqe) (n : Nat) (r : Int32) : Prop where
  nonneg : 0 ≤ r
  le : r.toInt ≤ n
  eq : n < 2 ^ 31 → r.toInt = n
  /-- the chain behind the request goes on -/
  chain : nextCancelChain false sqe r = false
  /-- with `SKIP_SUCCESS` there is no completion -/
  skip : skipsSuccess sqe = true → Submitter.suppressed ⟨sqe.userData, r, skipsSuccess sqe⟩ = true

/-! ## What is accessed -/

section Accessed

variable {m m' : UserCells} {tr : List (Event userSig)}

theorem runs_countFds {p n k : Nat} (h : Runs (countFds p n) m tr k m') : k = n := by
  induction n generalizing p m m' tr k with
  | zero => exact (runs_ret h).1
  | succ n ih =>
    obtain ⟨tr₁, _, m₁, tr₂, -, hRest⟩ := runs_bind h
    obtain ⟨tr₃, k₁, m₂, tr₄, hLoop, hRet⟩ := runs_bind hRest
    obtain rfl := ih hLoop
    exact (runs_ret hRet).1

/-- A length of the request does not saturate. -/
theorem min_len_usizeMax (len : UInt32) : min len.toNat usizeMax = len.toNat := by
  have hLen := UInt32.toNat_lt len
  unfold usizeMax
  omega

/-- A handler that transfers `len` bytes, or nothing where there is no buffer. -/
theorem runs_countLen {sqe : IoUringSqe} {p : UserProgram Nat} {x : Int32 × Nat}
    (hCount : ∀ {tr k m'}, Runs p m tr k m' → k = sqe.len.toNat)
    (h : Runs (if sqe.addr.toNat = 0 ∨ sqe.len.toNat = 0 then pure (0, 0) else
      p >>= fun k => pure (asI32 sqe.len.toNat, k)) m tr x m') :
    x.2 = (if sqe.addr.toNat = 0 then 0 else sqe.len.toNat) ∧ x.1 = asI32 (min x.2 usizeMax) := by
  by_cases hNull : sqe.addr.toNat = 0 ∨ sqe.len.toNat = 0
  · rw [if_pos hNull] at h
    obtain ⟨rfl, -⟩ := runs_ret h
    refine ⟨?_, (congrArg asI32 (Nat.zero_min _)).symm⟩
    split
    · rfl
    · exact (hNull.resolve_left ‹_›).symm
  · rw [if_neg hNull] at h
    obtain ⟨tr₁, k, m₁, tr₂, hTouch, hRet⟩ := runs_bind h
    obtain rfl := hCount hTouch
    obtain ⟨rfl, -⟩ := runs_ret hRet
    rw [if_neg (not_or.mp hNull).1]
    exact ⟨rfl, congrArg asI32 (min_len_usizeMax sqe.len).symm⟩

/-- The counter goes up by the lengths of the targets. -/
theorem counting_targets (t : Touch) (xs : List IovTarget) (k : Nat) :
    (counting t).targets xs k = k + lenSum xs := by
  induction xs generalizing k with
  | nil => rfl
  | cons x xs ih => exact (ih (k + x.len)).trans (Nat.add_assoc _ _ _)

theorem counting_hdrBuf (t : Touch) (m : UserCells) (ptr len k : Nat) :
    (counting t).hdrBuf m ptr len k = k :=
  ite_self k

theorem counting_msg (t : Touch) (m : UserCells) (hdr : Nat) :
    (counting t).msg m hdr 0 = lenSum (msgTargets t m hdr) := by
  have hBufs : (counting t).hdrBufs m hdr 0 = 0 := by
    rw [Observer.hdrBufs, counting_hdrBuf, counting_hdrBuf]
  have hIov : ∀ m n iov, (counting t).targets (targets t m iov n) ((counting t).array iov n 0) =
      lenSum (targets t m iov n) :=
    fun m n iov => (counting_targets t _ _).trans (Nat.zero_add _)
  rw [Observer.msg, hBufs, msgTargets, hIov]
  by_cases hNull : peek (afterHdrBufs t m hdr) (hdr + MsgHdr.msgIov) 8 = 0
  · rw [if_pos (.inl hNull), if_pos hNull]
    rfl
  · rw [if_neg hNull]
    by_cases hEmpty : peek (afterHdrBufs t m hdr) (hdr + MsgHdr.msgIovlen) 8 = 0
    · rw [if_pos (.inr hEmpty), hEmpty]
      rfl
    · rw [if_neg (not_or.mpr ⟨hNull, hEmpty⟩)]

/-- A transfer in a completed execution: the counter tells what was asked for, and the result
is narrowed from what the request tells. -/
theorem runs_counted {sqe : IoUringSqe} {kind : Transfer} {x : Int32 × Nat}
    (h : Runs (counted sqe kind) m tr x m') (hHeader : ∀ t, kind = .msg t → sqe.addr.toNat ≠ 0) :
    x.2 = requested m sqe kind ∧ x.1 = asI32 (min (told m sqe kind) usizeMax) := by
  have hZero : asI32 (min 0 usizeMax) = 0 := congrArg asI32 (Nat.zero_min _)
  cases kind with
  | buf t =>
    have hLen : x.2 = requested m sqe (.buf t) ∧ x.1 = asI32 (min x.2 usizeMax) :=
      runs_countLen (fun hTouch => (t.spec hTouch).1) h
    obtain ⟨hCount, hResult⟩ := hLen
    rw [hCount] at hResult
    exact ⟨hCount, hResult⟩
  | vec t =>
    change Runs (if sqe.addr.toNat = 0 ∨ sqe.len.toNat = 0 then pure (0, 0) else
      observeArray (counting t) sqe.addr.toNat sqe.len.toNat 0) _ _ _ _ at h
    rw [requested, told, Transfer.targets]
    by_cases hNull : sqe.addr.toNat = 0 ∨ sqe.len.toNat = 0
    · rw [if_pos hNull] at h
      have hNone : (if sqe.addr.toNat = 0 then [] else
          targets t m sqe.addr.toNat sqe.len.toNat) = [] := by
        rcases hNull with hAddr | hEmpty
        · rw [if_pos hAddr]
        · rw [hEmpty]
          exact ite_self _
      obtain ⟨rfl, -⟩ := runs_ret h
      rw [hNone, leftSum, hZero]
      exact ⟨rfl, rfl⟩
    · rw [if_neg hNull] at h
      rw [if_neg (not_or.mp hNull).1, runs_observeArray (counting t) h, counting_targets]
      exact ⟨Nat.zero_add _, rfl⟩
  | msg t =>
    change Runs (if sqe.addr.toNat = 0 then pure (-14, 0) else
      observeMsgHdr (counting t) sqe.addr.toNat 0) _ _ _ _ at h
    rw [if_neg (hHeader t rfl)] at h
    rw [requested, told, Transfer.targets, runs_observeMsgHdr (counting t) h, counting_msg]
    simp only [and_self]
  | filesUpdate =>
    have hLen : x.2 = requested m sqe .filesUpdate ∧ x.1 = asI32 (min x.2 usizeMax) :=
      runs_countLen runs_countFds h
    obtain ⟨hCount, hResult⟩ := hLen
    rw [hCount] at hResult
    exact ⟨hCount, hResult⟩
  | xattrGet =>
    change Runs (countXattrGet sqe) _ _ _ _ at h
    rw [requested, told, min_len_usizeMax]
    obtain ⟨tr₁, _, m₁, tr₂, -, hRest⟩ := runs_bind h
    obtain ⟨tr₃, k, m₂, tr₄, hValue, hRest⟩ := runs_bind hRest
    obtain ⟨tr₅, _, m₃, tr₆, -, hRet⟩ := runs_bind hRest
    obtain ⟨rfl, -⟩ := runs_ret hRet
    refine ⟨?_, rfl⟩
    by_cases hNull : sqe.off.toNat = 0 ∨ sqe.len.toNat = 0
    · rw [if_pos hNull] at hValue
      obtain ⟨rfl, -⟩ := runs_ret hValue
      change 0 = _
      split
      · rfl
      · exact (hNull.resolve_left ‹_›).symm
    · rw [if_neg hNull] at hValue
      rw [if_neg (not_or.mp hNull).1]
      exact (runs_countFill hValue).1

end Accessed

/-! ## When the result is right -/

section Results

theorem toInt_asI32 (n : Nat) : (asI32 n).toInt =
    if n % 2 ^ 32 < 2 ^ 31 then ((n % 2 ^ 32 : Nat) : Int)
    else ((n % 2 ^ 32 : Nat) : Int) - 2 ^ 32 := by
  rw [asI32, Int32.toInt_ofNat', Int.bmod_def]
  change (if (n : Int) % 4294967296 < (4294967296 + 1) / 2 then (n : Int) % 4294967296
    else (n : Int) % 4294967296 - 4294967296) = _
  split <;> split <;> omega

theorem nonneg_iff (r : Int32) : 0 ≤ r ↔ 0 ≤ r.toInt := by
  rw [Int32.le_iff_toInt_le]
  rfl

/-- The sign decides about the chain and the completion. -/
theorem resultCounts_of_toInt {sqe : IoUringSqe} {n : Nat} {r : Int32} (hNonneg : 0 ≤ r.toInt)
    (hLe : r.toInt ≤ n) (hEq : n < 2 ^ 31 → r.toInt = n) : ResultCounts sqe n r := by
  have hr := (nonneg_iff r).mpr hNonneg
  have hNot : ¬ r < 0 := Int32.not_lt.mpr hr
  refine ⟨hr, hLe, hEq, ?_, ?_⟩
  · simp [nextCancelChain, hNot]
  · intro hSkip
    simp [Submitter.suppressed, hSkip, hr]

/-- The size `k` is narrowed, and `n` bytes were accessed. -/
theorem resultCounts_asI32_iff (sqe : IoUringSqe) (n k : Nat) :
    ResultCounts sqe n (asI32 (min k usizeMax)) ↔
      FitsI32 k ∧ min k usizeMax % 2 ^ 32 ≤ n ∧ (n < 2 ^ 31 → min k usizeMax % 2 ^ 32 = n) := by
  have hInt := toInt_asI32 (min k usizeMax)
  unfold FitsI32
  constructor
  · intro h
    have hNonneg := (nonneg_iff _).mp h.nonneg
    have hLe := h.le
    have hEq := h.eq
    by_cases hFits : min k usizeMax % 2 ^ 32 < 2 ^ 31
    · rw [if_pos hFits] at hInt
      refine ⟨hFits, by omega, fun hn => ?_⟩
      have hSame := hEq hn
      omega
    · rw [if_neg hFits] at hInt
      omega
  · rintro ⟨hFits, hLe, hEq⟩
    rw [if_pos hFits] at hInt
    refine resultCounts_of_toInt (by omega) (by omega) fun hn => ?_
    rw [hInt, hEq hn]

/-- The lengths that are left add up to the lengths exactly if they are all the same. -/
theorem leftSum_eq_iff {xs : List IovTarget} (hLe : ∀ x ∈ xs, x.left ≤ x.len) :
    leftSum xs ≤ lenSum xs ∧ (leftSum xs = lenSum xs ↔ ∀ x ∈ xs, x.left = x.len) := by
  induction xs with
  | nil => exact ⟨Nat.le_refl _, iff_of_true rfl nofun⟩
  | cons x xs ih =>
    have hHere := hLe x List.mem_cons_self
    obtain ⟨hSum, hIff⟩ := ih fun y hy => hLe y (List.mem_cons_of_mem x hy)
    rw [leftSum, lenSum, List.forall_mem_cons, ← hIff]
    constructor <;> omega

section Told

variable (m : UserCells) (sqe : IoUringSqe) (kind : Transfer)

theorem left_le_len : ∀ x ∈ kind.targets m sqe, x.left ≤ x.len := by
  intro x hx
  cases kind with
  | vec t =>
    rw [Transfer.targets] at hx
    split at hx
    · cases hx
    · exact t.left_le_len hx
  | msg t =>
    rw [Transfer.targets, msgTargets] at hx
    split at hx
    · cases hx
    · exact t.left_le_len hx
  | buf | filesUpdate | xattrGet => cases hx

/-- A request tells of no more than it asks for, and of all of it if no length is zeroed. -/
theorem told_eq_iff (hKind : kind.isXattrGet = false) : told m sqe kind ≤ requested m sqe kind ∧
    (told m sqe kind = requested m sqe kind ↔ ∀ x ∈ kind.targets m sqe, x.left = x.len) := by
  cases kind with
  | buf | filesUpdate => exact ⟨Nat.le_refl _, iff_of_true rfl nofun⟩
  | vec t => exact leftSum_eq_iff (left_le_len m sqe (.vec t))
  | msg t => exact leftSum_eq_iff (left_le_len m sqe (.msg t))
  | xattrGet => cases hKind

theorem countable_iff : Countable m sqe kind ↔ FitsI32 (told m sqe kind) ∧
    (requested m sqe kind < 2 ^ 31 → ∀ x ∈ kind.targets m sqe, x.left = x.len) ∧
    (kind.isXattrGet = true → sqe.off = 0 → sqe.len = 0) :=
  ⟨fun h => ⟨h.fits, h.keeps, h.buffer⟩, fun h => ⟨h.1, h.2.1, h.2.2⟩⟩

/-- The result is narrowed from what is told, and what is asked for has been accessed. -/
theorem resultCounts_iff_countable :
    ResultCounts sqe (requested m sqe kind) (asI32 (min (told m sqe kind) usizeMax)) ↔
      Countable m sqe kind := by
  rw [resultCounts_asI32_iff, countable_iff]
  refine and_congr_right fun hFits => ?_
  unfold FitsI32 at hFits
  by_cases hKind : kind.isXattrGet = true
  · obtain rfl : kind = .xattrGet := by
      cases kind with
      | xattrGet => rfl
      | buf | vec | msg | filesUpdate => cases hKind
    have hLen := min_len_usizeMax sqe.len
    have hOff : sqe.off.toNat = 0 ↔ sqe.off = 0 := by
      rw [← UInt64.toNat_inj, UInt64.toNat_zero]
    have hEmpty : sqe.len.toNat = 0 ↔ sqe.len = 0 := by
      rw [← UInt32.toNat_inj, UInt32.toNat_zero]
    rw [told, hLen] at hFits ⊢
    rw [requested, Nat.mod_eq_of_lt (UInt32.toNat_lt sqe.len), ← hOff, ← hEmpty]
    have hNone : ∀ x ∈ Transfer.xattrGet.targets m sqe, x.left = x.len := nofun
    by_cases hNull : sqe.off.toNat = 0
    · rw [if_pos hNull]
      constructor
      · intro h
        exact ⟨fun _ => hNone, fun _ _ => by omega⟩
      · rintro ⟨-, hZero⟩
        have hLenZero := hZero hKind hNull
        omega
    · rw [if_neg hNull]
      exact iff_of_true ⟨Nat.le_refl _, fun _ => rfl⟩
        ⟨fun _ => hNone, fun _ hZero => absurd hZero hNull⟩
  · obtain ⟨hLe, hIff⟩ := told_eq_iff m sqe kind (Bool.eq_false_iff.mpr hKind)
    rw [← hIff]
    unfold usizeMax
    constructor
    · rintro ⟨-, hEq⟩
      refine ⟨fun hSmall => ?_, fun h => absurd h hKind⟩
      have hSame := hEq hSmall
      omega
    · rintro ⟨hEq, -⟩
      refine ⟨by omega, fun hSmall => ?_⟩
      have hSame := hEq hSmall
      omega

end Told

/-- **Results of transfers.** In every completed execution, the result tells how much was
accessed if and only if the size that the request tells of survives the narrowing, no target
zeroes the length of its own iovec, and for GETXATTR and FGETXATTR moreover there is a buffer of
the length that is reported. -/
theorem result_counts_iff {sqe : IoUringSqe} {kind : Transfer} (hKind : transfer sqe = some kind)
    (hHeader : ∀ t, kind = .msg t → sqe.addr.toNat ≠ 0) {m : UserMem} {m' : UserCells}
    {tr : List (Event userSig)} {r : Int32} (hRun : Runs (dispatchOp sqe) m.cells tr r m') :
    ∃ n, Runs (counted sqe kind) m.cells tr (r, n) m' ∧
      (ResultCounts sqe n r ↔ Countable m.cells sqe kind) := by
  rw [Runs, ← erase_counted hKind, exec_map] at hRun
  obtain ⟨⟨tr₁, ⟨r₁, n⟩, m₁⟩, hCounted, hEnd⟩ := Option.map_eq_some_iff.mp hRun
  simp only [Prod.mk.injEq] at hEnd
  obtain ⟨rfl, rfl, rfl⟩ := hEnd
  refine ⟨n, hCounted, ?_⟩
  obtain ⟨hBytes, hResult⟩ := runs_counted hCounted hHeader
  simp only at hBytes hResult
  rw [hBytes, hResult]
  exact resultCounts_iff_countable m.cells sqe kind

/-! ### Three requests whose results are wrong -/

/-- A memory in which every address can be read. -/
def zeros : UserMem where
  cells a := if a < 2 ^ 64 then .byte 0 else .unmapped
  unmapped_of_le a ha := if_neg (by omega)

theorem runs_countRead_zeros {p n : Nat} (h : p + n ≤ 2 ^ 64) :
    ∃ tr, Runs (countRead p n) zeros.cells tr n zeros.cells := by
  induction n generalizing p with
  | zero => exact ⟨[], rfl⟩
  | succ n ih =>
    obtain ⟨tr, hRest⟩ := ih (p := p + 1) (by omega)
    have hByte : memSem (L := Mark) (.read p) zeros.cells = some (0, zeros.cells) :=
      memSem_read_iff.mpr ⟨if_pos (by omega), rfl⟩
    refine ⟨⟨.read p, 0⟩ :: tr, exec_act_iff.mpr ⟨0, zeros.cells, tr, hByte, ?_, rfl⟩⟩
    have hBind : Runs (countRead (p + 1) n >>= fun k => pure (k + 1)) zeros.cells tr (n + 1)
        zeros.cells :=
      exec_bind_iff.mpr ⟨tr, n, zeros.cells, [], hRest, rfl, (List.append_nil _).symm⟩
    exact hBind

/-- A WRITE of 2 GiB. -/
def largeWrite : IoUringSqe := { opcode := 23, addr := 4096, len := 0x80000000 }

/-- A GETXATTR with a size, but without a buffer. -/
def nullGetxattr : IoUringSqe := { opcode := 44, len := 5 }

/-- An iovec at 4096 that is its own target: its base is 4096, and its length 16. -/
def ownIovec : UserMem where
  cells a := if a = 4097 ∨ a = 4104 then .byte 16 else zeros.cells a
  unmapped_of_le a ha := by
    rw [if_neg (by omega)]
    exact zeros.unmapped_of_le a ha

def ownReadv : IoUringSqe := { opcode := 1, addr := 4096, len := 1 }

theorem exists_runs_ownReadv : ∃ tr m',
    Runs (counted ownReadv (.vec fillTouch)) ownIovec.cells tr (0, 16) m' := by
  have hFacts : (exec memSem (counted ownReadv (.vec fillTouch)) ownIovec.cells).map
      (fun x => x.2.1) = some (0, 16) := by
    decide +kernel
  obtain ⟨⟨tr, x, m'⟩, hRun, hEnd⟩ := Option.map_eq_some_iff.mp hFacts
  obtain rfl : x = (0, 16) := hEnd
  exact ⟨tr, m', hRun⟩

/-- A run of the handler, from one with the counter. -/
theorem runs_of_counted {sqe : IoUringSqe} {kind : Transfer} (hKind : transfer sqe = some kind)
    {m m' : UserCells} {tr : List (Event userSig)} {r : Int32} {n : Nat}
    (h : Runs (counted sqe kind) m tr (r, n) m') : Runs (dispatchOp sqe) m tr r m' := by
  rw [Runs, ← erase_counted hKind, exec_map, h]
  rfl

/-- The result of the first is negative, that of the second counts bytes that were not written,
and that of the third is 0, since the target was the iovec. -/
theorem transfers_miscounted :
    (∃ tr, Runs (dispatchOp largeWrite) zeros.cells tr (-2147483648) zeros.cells ∧
        Runs (counted largeWrite (.buf readTouch)) zeros.cells tr (-2147483648, 2147483648)
          zeros.cells ∧
        ¬ ResultCounts largeWrite 2147483648 (-2147483648)) ∧
      (Runs (dispatchOp nullGetxattr) zeros.cells [] 5 zeros.cells ∧
        Runs (counted nullGetxattr .xattrGet) zeros.cells [] (5, 0) zeros.cells ∧
        ¬ ResultCounts nullGetxattr 0 5) ∧
      ∃ tr m', Runs (dispatchOp ownReadv) ownIovec.cells tr 0 m' ∧
        Runs (counted ownReadv (.vec fillTouch)) ownIovec.cells tr (0, 16) m' ∧
        ¬ ResultCounts ownReadv 16 0 := by
  refine ⟨?_, ⟨rfl, rfl, ?_⟩, ?_⟩
  · obtain ⟨tr, hTouch⟩ := runs_countRead_zeros (p := 4096) (n := 0x80000000) (by decide)
    have hCounted : Runs (countRead 4096 0x80000000 >>= fun k => pure (asI32 0x80000000, k))
        zeros.cells tr (-2147483648, 2147483648) zeros.cells :=
      exec_bind_iff.mpr ⟨tr, _, zeros.cells, [], hTouch, rfl, (List.append_nil _).symm⟩
    change Runs (counted largeWrite (.buf readTouch)) _ _ _ _ at hCounted
    refine ⟨tr, runs_of_counted rfl hCounted, hCounted, ?_⟩
    intro h
    exact absurd h.nonneg (by decide)
  · intro h
    exact absurd h.le (by decide)
  · obtain ⟨tr, m', hCounted⟩ := exists_runs_ownReadv
    refine ⟨tr, m', runs_of_counted rfl hCounted, hCounted, ?_⟩
    intro h
    exact absurd (h.eq (by decide)) (by decide)

/-- A READ of one byte. -/
def smallRead : IoUringSqe := { opcode := 22, addr := 4096, len := 1 }

theorem result_counts_iff_read :
    ∃ n, Runs (counted smallRead (.buf fillTouch)) zeros.cells [⟨.write 4096 0, ()⟩] (1, n)
        (Function.update zeros.cells 4096 (.byte 0)) ∧
      (ResultCounts smallRead n 1 ↔ Countable zeros.cells smallRead (.buf fillTouch)) := by
  refine result_counts_iff rfl ?_ rfl
  intro t hMsg
  cases hMsg

end Results

end Miring.Dispatch
