import Miring.Program.Robust
import Miring.Dispatch.Valid

/-!
# Dispatching in a shared memory

The requests of a client are dispatched on threads that share its memory, and one may write
what another one reads. For most requests this does no harm: a byte that is only read does not
decide what is accessed next. Two kinds of bytes do. An iovec array or a message header must be
found as it was (`Vector`). A string, and the length of the address of an ACCEPT, may also be
found with zeros in it, since the walk then ends earlier (`Limit`).

So if the memory is fit for each of the requests, and none of them may write a value where it
misleads another one or itself (`Compatible`), then all of them are robust
(`Compatible.robust`). They can be dispatched in any interleaving. The results are in all of them
the same: the requests determine them together with the memory as it was at the start
(`resultOf`, `outcomes`). And every request that was not cancelled has written to its output,
except that of the address of an ACCEPT it may have filled less (`Delivers`). The references of
the requests stay sound (`Compatible.sound`).
-/

namespace Miring.Dispatch

open Sys Program

/-! ## Requests that share a memory -/

/-- The bytes that say where a vectored request goes. -/
def Vector (m : UserCells) (sqe : IoUringSqe) (a : Nat) : Prop :=
  let addr := sqe.addr.toNat
  match sqe.opcode.toNat with
  | ioringOpReadv | ioringOpReadvFixed | ioringOpWritev | ioringOpWritevFixed =>
      addr ≠ 0 ∧ InBytes addr (iovecSize * sqe.len.toNat) a
  | ioringOpRecvmsg | ioringOpSendmsg | ioringOpSendmsgZc =>
      addr ≠ 0 ∧ (InBytes addr MsgHdr.size a ∨ InMsgIov m addr a)
  | _ => False

/-- The bytes that bound a walk. -/
def Limit (m : UserCells) (sqe : IoUringSqe) (a : Nat) : Prop :=
  let addr := sqe.addr.toNat
  let off := sqe.off.toNat
  let addr3 := sqe.addr3.toNat
  match sqe.opcode.toNat with
  | ioringOpAccept => (addr ≠ 0 ∧ off ≠ 0) ∧ InBytes off 4 a
  | ioringOpOpenat | ioringOpOpenat2 | ioringOpStatx | ioringOpUnlinkat | ioringOpMkdirat
  | ioringOpFsetxattr | ioringOpFgetxattr => addr ≠ 0 ∧ InCstr m addr a
  | ioringOpRenameat | ioringOpSymlinkat | ioringOpLinkat =>
      (addr ≠ 0 ∧ off ≠ 0) ∧ (InCstr m addr a ∨ InCstr m off a)
  | ioringOpSetxattr | ioringOpGetxattr =>
      (addr ≠ 0 ∧ InCstr m addr a) ∨ (addr3 ≠ 0 ∧ InCstr m addr3 a)
  | _ => False

/-- The request may write `v` at `a`: PIPE answers two descriptors, everything else zeros. -/
def Stores (m : UserCells) (sqe : IoUringSqe) (a : Nat) (v : UInt8) : Prop :=
  Output m sqe a ∧ (v = 0 ∨ sqe.opcode.toNat = ioringOpPipe)

/-- The request would go astray if it found `v` at `a`. -/
def Misleads (m : UserCells) (sqe : IoUringSqe) (a : Nat) (v : UInt8) : Prop :=
  m a ≠ .byte v ∧ (Vector m sqe a ∨ v ≠ 0 ∧ Limit m sqe a)

/-- The memory is fit for all requests together. -/
structure Compatible (m : UserCells) (requests : List IoUringSqe) : Prop where
  valid : ∀ sqe ∈ requests, Valid m sqe
  /-- the path of a GETXATTR does not end in its value buffer -/
  path : ∀ sqe ∈ requests, sqe.opcode.toNat = ioringOpGetxattr → sqe.addr3.toNat ≠ 0 →
    Terminated m sqe.addr3.toNat
  apart : ∀ sqe ∈ requests, ∀ sqe' ∈ requests, ∀ a v, Stores m sqe a v → ¬ Misleads m sqe' a v

/-- One of the requests may write `v` at `a`. -/
def StoredBy (m : UserCells) (requests : List IoUringSqe) (a : Nat) (v : UInt8) : Prop :=
  ∃ sqe ∈ requests, Stores m sqe a v

/-! ### Results and effects -/

/-- The sum of the lengths of `n` iovecs. -/
def iovecTotal (m : UserCells) (iov : Nat) : Nat → Nat → Nat
  | 0, total => total
  | n + 1, total =>
      let base := peek m iov 8
      let len := peek m (iov + 8) 8
      iovecTotal m (iov + iovecSize) n
        (if base = 0 ∨ len = 0 then total else saturatingAdd total len)

def msgTotal (m : UserCells) (hdr : Nat) : Nat :=
  let iov := peek m (hdr + MsgHdr.msgIov) 8
  if iov = 0 then 0 else iovecTotal m iov (peek m (hdr + MsgHdr.msgIovlen) 8) 0

/-- What a request is answered. The memory decides only about the lengths of iovecs. -/
def resultOf (m : UserCells) (sqe : IoUringSqe) : Int32 :=
  let addr := sqe.addr.toNat
  let off := sqe.off.toNat
  let len := sqe.len.toNat
  match sqe.opcode.toNat with
  | ioringOpNop => if sqe.opFlags &&& ioringNopInjectResult ≠ 0 then asI32 len else 0
  | ioringOpRead | ioringOpReadFixed | ioringOpRecv | ioringOpReadMultishot
  | ioringOpWrite | ioringOpWriteFixed | ioringOpSend | ioringOpSendZc
  | ioringOpFilesUpdate => if addr = 0 ∨ len = 0 then 0 else asI32 len
  | ioringOpReadv | ioringOpReadvFixed | ioringOpWritev | ioringOpWritevFixed =>
      if addr = 0 ∨ len = 0 then 0 else asI32 (iovecTotal m addr len 0)
  | ioringOpRecvmsg | ioringOpSendmsg | ioringOpSendmsgZc =>
      if addr = 0 then -14 else asI32 (msgTotal m addr)
  | ioringOpTimeout | ioringOpLinkTimeout => if addr = 0 then -14 else -62
  | ioringOpConnect | ioringOpBind | ioringOpRenameat | ioringOpSymlinkat | ioringOpLinkat =>
      if addr = 0 ∨ off = 0 then -14 else 0
  | ioringOpOpenat | ioringOpOpenat2 => if addr = 0 then -14 else 42
  | ioringOpUnlinkat | ioringOpMkdirat | ioringOpFutexWait | ioringOpFutexWake
  | ioringOpPipe => if addr = 0 then -14 else 0
  | ioringOpFutexWaitv => if addr = 0 ∨ len = 0 then -14 else 0
  | ioringOpFgetxattr | ioringOpGetxattr => asI32 len
  | ioringOpAccept | ioringOpSocket | ioringOpFixedFdInstall => 42
  | ioringOpStatx | ioringOpEpollCtl | ioringOpProvideBuffers | ioringOpFsetxattr
  | ioringOpSetxattr | ioringOpEpollWait | ioringOpWaitid | ioringOpClose | ioringOpFsync
  | ioringOpSyncFileRange | ioringOpFallocate | ioringOpFtruncate | ioringOpShutdown
  | ioringOpPollAdd | ioringOpPollRemove | ioringOpAsyncCancel | ioringOpTimeoutRemove
  | ioringOpSplice | ioringOpTee | ioringOpRemoveBuffers | ioringOpFadvise | ioringOpMadvise
  | ioringOpMsgRing | ioringOpListen | ioringOpUringCmd | ioringOpRecvZc => 0
  | _ => -38

/-- What a request is sure to write. How much of the address an ACCEPT writes depends on the
length that it finds. -/
def Delivers (m : UserCells) (sqe : IoUringSqe) (a : Nat) : Prop :=
  Output m sqe a ∧ (sqe.opcode.toNat = ioringOpAccept → InBytes sqe.off.toNat 4 a)

/-- The requests of a batch that are dispatched when `f` answers them. -/
def uncancelled (f : IoUringSqe → Int32) : Bool → List IoUringSqe → List IoUringSqe
  | _, [] => []
  | true, sqe :: sqes => uncancelled f (nextCancelChain true sqe ecanceled) sqes
  | false, sqe :: sqes => sqe :: uncancelled f (nextCancelChain false sqe (f sqe)) sqes

variable {m : UserCells} {J : Nat → UInt8 → Prop}

/-! ## Accesses -/

section Accesses

/-- The bytes stay as they are. -/
def Fixed (J : Nat → UInt8 → Prop) (m : UserCells) (p n : Nat) : Prop :=
  ∀ a, InBytes p n a → ∀ v, J a v → m a = .byte v

/-- The bytes stay as they are or become zeros. -/
def Shrinks (J : Nat → UInt8 → Prop) (m : UserCells) (P : Nat → Prop) : Prop :=
  ∀ a, P a → ∀ v, J a v → m a = .byte v ∨ v = 0

/-- Robust for the sake of what it reads: it need not write. -/
abbrev Reads {α : Type} (J : Nat → UInt8 → Prop) (m : UserCells) (Q : α → Prop)
    (p : UserProgram α) : Prop :=
  Robust J m Q (fun _ => False) p

/-- Robust for the sake of what it writes. -/
abbrev Fills (J : Nat → UInt8 → Prop) (m : UserCells) (R : Nat → Prop)
    (p : UserProgram Unit) : Prop :=
  Robust J m (fun _ => True) R p

theorem Fixed.sub {p n q k : Nat} (h : Fixed J m p n) (hLow : p ≤ q) (hHigh : q + k ≤ p + n) :
    Fixed J m q k :=
  fun a ha => h a (ha.sub hLow hHigh)

theorem reads_ret {α : Type} {Q : α → Prop} {x : α} (h : Q x) :
    Reads J m Q (pure x : UserProgram α) :=
  .ret h fun _ => id

theorem reads_readU8 {p : Nat} {b : UInt8} (h : m p = .byte b) :
    Reads J m (Finds J m p) (readU8 p) :=
  .read h fun _ hv => reads_ret hv

theorem fills_writeU8 {p : Nat} {v : UInt8} (h : m p ≠ .unmapped) (hJ : J p v) :
    Fills J m (fun a => a = p) (writeU8 p v) :=
  .write h hJ (.ret trivial fun _ ha => ha.1 ha.2)

theorem reads_readBytes {p n : Nat} (h : Readable m p n) :
    Reads J m (fun _ => True) (readBytes p n) := by
  induction n generalizing p with
  | zero => exact reads_ret trivial
  | succ n ih =>
    rcases readable_succ.mp h with ⟨⟨b, hByte⟩, hRest⟩
    exact (reads_readU8 hByte).behind fun _ _ => ih hRest

theorem fills_writeLe {p n v : Nat} (h : Writable m p n)
    (hJ : ∀ a, InBytes p n a → ∀ w, w = 0 ∨ v ≠ 0 → J a w) :
    Fills J m (InBytes p n) (writeLe p n v) := by
  induction n generalizing p v with
  | zero => exact .ret trivial (not_inBytes_zero p)
  | succ n ih =>
    rcases writable_succ.mp h with ⟨hMapped, hRest⟩
    have hByte : J p (UInt8.ofNat v) := by
      apply hJ p ⟨Nat.le_refl p, by omega⟩
      by_cases hv : v = 0
      · left
        rw [hv]
        rfl
      · exact .inr hv
    have hLater : Fills J m (InBytes (p + 1) n) (writeLe (p + 1) n (v / 256)) := by
      apply ih hRest
      intro a ha w hw
      apply hJ a (ha.sub (by omega) (by omega)) w
      apply hw.imp_right
      intro hHigh hv
      rw [hv] at hHigh
      exact hHigh rfl
    apply ((fills_writeU8 hMapped hByte).bind fun _ _ => hLater).less
    intro a ha
    by_cases hHere : a = p
    · exact .inl hHere
    · right
      have := ha.1
      have := ha.2
      constructor <;> omega

theorem fills_fill {p n : Nat} (h : Writable m p n) (hJ : ∀ a, InBytes p n a → J a 0) :
    Fills J m (InBytes p n) (fill p n) := by
  rw [← writeLe_zero]
  apply fills_writeLe h
  intro a ha w hw
  rw [hw.resolve_right fun hNe => hNe rfl]
  exact hJ a ha

/-- An integer is made of bytes that were found at different times. -/
theorem reads_readLe {p n : Nat} (h : Readable m p n) :
    Reads J m (fun x => ∃ m', (∀ a, InBytes p n a → ∃ v, m' a = .byte v ∧ Finds J m a v) ∧
      x = peek m' p n) (readLe p n) := by
  induction n generalizing p with
  | zero => exact reads_ret ⟨m, fun a ha => absurd ha (not_inBytes_zero p a), rfl⟩
  | succ n ih =>
    rcases readable_succ.mp h with ⟨⟨b, hByte⟩, hRest⟩
    refine (reads_readU8 hByte).behind fun v hv => (ih hRest).behind fun x hx => reads_ret ?_
    rcases hx with ⟨m', hBytes, rfl⟩
    have hOff : ∀ a, InBytes (p + 1) n a →
        Function.update m' p (.byte v) a = m' a := by
      intro a ha
      apply Function.update_of_ne
      have := ha.1
      omega
    refine ⟨Function.update m' p (.byte v), ?_, ?_⟩
    · intro a ha
      by_cases hHere : a = p
      · rw [hHere, Function.update_self]
        exact ⟨v, rfl, hv⟩
      · have hLater : InBytes (p + 1) n a := by
          have := ha.1
          have := ha.2
          constructor <;> omega
        rw [hOff a hLater]
        exact hBytes a hLater
    · rw [peek, byteAt, Function.update_self, peek_congr hOff]

/-- An integer that stays as it is. -/
theorem reads_readLe_fixed {p n : Nat} (h : Readable m p n) (hFixed : Fixed J m p n) :
    Reads J m (fun x => x = peek m p n) (readLe p n) := by
  apply (reads_readLe h).mono
  intro x hx
  rcases hx with ⟨m', hBytes, rfl⟩
  apply peek_congr
  intro a ha
  rcases hBytes a ha with ⟨v, hByte, hSame | hJ⟩
  · rw [hByte, hSame]
  · rw [hByte, hFixed a ha v hJ]

/-- An integer with zeros in its bytes is not larger. -/
theorem peek_le {m' : UserCells} {p n : Nat}
    (h : ∀ a, InBytes p n a → byteAt m' a = byteAt m a ∨ byteAt m' a = 0) :
    peek m' p n ≤ peek m p n := by
  induction n generalizing p with
  | zero => exact Nat.le_refl _
  | succ n ih =>
    have hRest := ih (p := p + 1) fun a ha => h a (ha.sub (by omega) (by omega))
    have hFirst : (byteAt m' p).toNat ≤ (byteAt m p).toNat := by
      rcases h p ⟨Nat.le_refl p, by omega⟩ with hSame | hZero
      · exact Nat.le_of_eq (congrArg _ hSame)
      · rw [hZero]
        exact Nat.zero_le _
    rw [peek, peek]
    omega

theorem reads_readLe_le {p n : Nat} (h : Readable m p n) (hShrinks : Shrinks J m (InBytes p n)) :
    Reads J m (fun x => x ≤ peek m p n) (readLe p n) := by
  apply (reads_readLe h).mono
  intro x hx
  rcases hx with ⟨m', hBytes, rfl⟩
  apply peek_le
  intro a ha
  rcases hBytes a ha with ⟨v, hByte, hFinds⟩
  have hBounded : m a = .byte v ∨ v = 0 := hFinds.elim .inl (hShrinks a ha v)
  rcases hBounded with hSame | hZero
  · left
    rw [byteAt, byteAt, hByte, hSame]
  · right
    rw [byteAt, hByte]
    exact hZero

/-- The walk of a string ends where it did, or earlier. -/
theorem reads_walkCstrWithin (hTop : Bounded m) {fuel p : Nat} (hFuel : 2 ^ 64 ≤ p + fuel)
    (h : Terminated m p) (hShrinks : Shrinks J m (InCstr m p)) :
    Reads J m (fun _ => True) (walkCstrWithin fuel p) := by
  rcases terminated_iff.mp h with ⟨b, hByte, hRest⟩
  induction fuel generalizing p b with
  | zero =>
    rw [hTop p hFuel] at hByte
    cases hByte
  | succ fuel ih =>
    have hHere : InCstr m p p := ⟨Nat.le_refl p, fun q hLow hHigh => by omega⟩
    refine (reads_readU8 hByte).behind fun v hFinds => ?_
    refine .ite (fun _ => reads_ret trivial) fun hNul => ?_
    have hBounded : m p = .byte v ∨ v = 0 := hFinds.elim .inl (hShrinks p hHere v)
    rcases hBounded with hSame | hZero
    · rw [hByte] at hSame
      obtain rfl := MemCell.byte.inj hSame
      have hNext := hRest hNul
      rcases terminated_iff.mp hNext with ⟨b', hByte', hRest'⟩
      refine ih (by omega) hNext (fun a ha => hShrinks a ?_) b' hByte' hRest'
      -- the byte at `p` is not the NUL
      refine ⟨Nat.le_of_succ_le ha.1, fun q hLow hHigh => ?_⟩
      by_cases hFirst : q = p
      · rw [hFirst, byteAt, hByte]
        exact hNul
      · exact ha.2 q (by omega) hHigh
    · exact absurd hZero hNul

theorem reads_walkCstr (hTop : Bounded m) {p : Nat} (h : Terminated m p)
    (hShrinks : Shrinks J m (InCstr m p)) : Reads J m (fun _ => True) (walkCstr p) := by
  apply reads_walkCstrWithin hTop _ h hShrinks
  omega

/-- `if c { nothing } else { touch }` -/
theorem fills_unless {c : Prop} [Decidable c] {R : Nat → Prop} {p : UserProgram Unit}
    (hNone : c → ∀ a, ¬ R a) (h : ¬ c → Fills J m R p) :
    Fills J m R (if c then pure () else p) :=
  .ite (fun hc => .ret trivial (hNone hc)) h

theorem reads_unless {c : Prop} [Decidable c] {p : UserProgram Unit}
    (h : ¬ c → Reads J m (fun _ => True) p) :
    Reads J m (fun _ => True) (if c then pure () else p) :=
  fills_unless (fun _ _ => id) h

/-- What is done, and then the answer. -/
theorem fills_answer {R : Nat → Prop} {p : UserProgram Unit} {r : Int32} (h : Fills J m R p) :
    Robust J m (fun x => x = r) R (p >>= fun _ => pure r) :=
  h.answer rfl

/-- The refusal of a handler. -/
theorem robust_refused {c : Prop} [Decidable c] {R : Nat → Prop} {p : UserProgram Int32}
    {r r' : Int32} (hNone : c → ∀ a, ¬ R a) (h : ¬ c → Robust J m (fun x => x = r') R p) :
    Robust J m (fun x => x = if c then r else r') R (if c then pure r else p) := by
  refine .ite (fun hc => .ret ?_ (hNone hc)) fun hc => ?_
  · rw [if_pos hc]
  · rw [if_neg hc]
    exact h hc

end Accesses

/-! ## Walks over structures -/

section Walks

-- `c` holds if `touch` writes
variable {touch : Nat → Nat → UserProgram Unit} {ok : Nat → Nat → Prop} {c : Prop}

theorem fills_walkHdrBuf (hTouch : ∀ p n, ok p n → Fills J m (fun a => c ∧ InBytes p n a)
      (touch p n)) {ptr q k : Nat} (hPtr : Fixed J m ptr 8) (hLen : Fixed J m q k)
    (h : ValidHdrBuf ok m ptr q k) :
    Fills J m (fun a => c ∧ InHdrBuf m ptr (peek m q k) a) (walkHdrBuf touch ptr (readLe q k)) := by
  apply (reads_readLe_fixed h.1 hPtr).behind
  rintro base rfl
  apply fills_unless fun hNull a ha => ha.2.1 hNull
  intro hBase
  rcases h.2 hBase with ⟨hReadable, hOk⟩
  apply (reads_readLe_fixed hReadable hLen).behind
  rintro n rfl
  apply fills_unless
  · intro hEmpty a ha
    rcases ha with ⟨-, -, hIn⟩
    rw [hEmpty] at hIn
    exact not_inBytes_zero _ _ hIn
  · intro _
    exact (hTouch _ _ hOk).less fun a ha => ⟨ha.1, ha.2.2⟩

theorem robust_walkIovec (hTouch : ∀ p n, ok p n → Fills J m (fun a => c ∧ InBytes p n a)
      (touch p n)) {iov total : Nat} (hFixed : Fixed J m iov iovecSize)
    (h : ValidIovec ok m iov) :
    Robust J m (fun x => x = if peek m iov 8 = 0 ∨ peek m (iov + 8) 8 = 0 then total
        else saturatingAdd total (peek m (iov + 8) 8))
      (fun a => c ∧ InTarget m iov a) (walkIovec touch iov total) := by
  have hBase : Fixed J m iov 8 := hFixed.sub (Nat.le_refl iov) (by unfold iovecSize; omega)
  have hLen : Fixed J m (iov + 8) 8 := hFixed.sub (by omega) (by unfold iovecSize; omega)
  rw [walkIovec, readUsize]
  refine (reads_readLe_fixed h.1 hBase).behind fun base hBaseIs => ?_
  subst hBaseIs
  refine .ite (fun hNull => .ret (if_pos (.inl hNull)).symm fun a ha => ha.2.1 hNull)
    fun hNull => ?_
  rcases h.2 hNull with ⟨hReadable, hOk⟩
  rw [readUsize]
  refine (reads_readLe_fixed hReadable hLen).behind fun n hLenIs => ?_
  subst hLenIs
  refine .ite (fun hEmpty => .ret (if_pos (.inr hEmpty)).symm fun a ha => ?_) fun hEmpty => ?_
  · rcases ha with ⟨-, -, hIn⟩
    rw [hEmpty] at hIn
    exact not_inBytes_zero _ _ hIn
  · have hAdded : Reads J m (fun x => x = saturatingAdd total (peek m (iov + 8) 8))
        (readUsize (iov + 8) >>= fun added => pure (saturatingAdd total added)) :=
      (reads_readLe_fixed hReadable hLen).behind fun added hAddedIs =>
        reads_ret (congrArg _ hAddedIs)
    rw [if_neg (not_or.mpr ⟨hNull, hEmpty⟩)]
    refine ((hTouch _ _ hOk).bind fun _ _ => hAdded).less fun a ha => .inl ⟨ha.1, ha.2.2⟩

theorem robust_walkIovecs (hTouch : ∀ p n, ok p n → Fills J m (fun a => c ∧ InBytes p n a)
      (touch p n)) {iov n : Nat} (total : Nat) (hFixed : Fixed J m iov (iovecSize * n))
    (h : ValidIovecs ok m iov n) :
    Robust J m (fun x => x = iovecTotal m iov n total) (fun a => c ∧ InTargets m iov n a)
      (walkIovecs touch iov n total) := by
  induction n generalizing iov total with
  | zero =>
    refine .ret rfl fun a ha => ?_
    rcases ha with ⟨-, i, hi, -⟩
    exact Nat.not_lt_zero i hi
  | succ n ih =>
    rcases validIovecs_succ.mp h with ⟨hFirst, hOthers⟩
    rw [Nat.mul_succ] at hFixed
    have hOne : Robust J m _ _ (walkIovec touch iov total) :=
      robust_walkIovec hTouch (hFixed.sub (Nat.le_refl iov) (by omega)) hFirst
    have hRest : ∀ total', Robust J m _ _ (walkIovecs touch (iov + iovecSize) n total') :=
      fun _ => ih _ (hFixed.sub (by omega) (by omega)) hOthers
    refine (hOne.bind fun total' hTotal => (hRest total').mono fun x hx => ?_).less fun a ha => ?_
    · rw [hx, hTotal, iovecTotal]
    · exact (inTargets_succ.mp ha.2).imp (And.intro ha.1) (And.intro ha.1)

theorem robust_walkMsgHdr (hTouch : ∀ p n, ok p n → Fills J m (fun a => c ∧ InBytes p n a)
      (touch p n)) {hdr : Nat} (hHdr : Fixed J m hdr MsgHdr.size)
    (hIov : ∀ a, InMsgIov m hdr a → ∀ v, J a v → m a = .byte v) (h : ValidMsg ok m hdr) :
    Robust J m (fun x => x = asI32 (msgTotal m hdr)) (fun a => c ∧ InMsgBufs m hdr a)
      (walkMsgHdr touch hdr) := by
  have hField : ∀ {k n}, k + n ≤ MsgHdr.size → Fixed J m (hdr + k) n :=
    fun hkn => hHdr.sub (Nat.le_add_right _ _) (by omega)
  rcases h with ⟨hName, hControl, hReadable, hVec⟩
  have hFirst := fills_walkHdrBuf hTouch (hField (by decide)) (hField (by decide)) hName
  have hSecond := fills_walkHdrBuf hTouch (hField (by decide)) (hField (by decide)) hControl
  have hThird : Robust J m (fun x => x = asI32 (msgTotal m hdr)) (fun a => c ∧
      peek m (hdr + MsgHdr.msgIov) 8 ≠ 0 ∧ InTargets m (peek m (hdr + MsgHdr.msgIov) 8)
        (peek m (hdr + MsgHdr.msgIovlen) 8) a) (do
      let msgIov ← readUsize (hdr + MsgHdr.msgIov)
      if msgIov = 0 then pure (asI32 0)
      else do
        let msgIovlen ← readUsize (hdr + MsgHdr.msgIovlen)
        if msgIovlen = 0 then pure (asI32 0)
        else do
          let total ← walkIovecs touch msgIov msgIovlen 0
          pure (asI32 total)) := by
    rw [readUsize]
    refine (reads_readLe_fixed hReadable (hField (by decide))).behind fun msgIov hIovIs => ?_
    subst hIovIs
    rw [msgTotal]
    refine .ite (fun hNull => .ret ?_ fun a ha => ha.2.1 hNull) fun hBase => ?_
    · rw [if_pos hNull]
    rcases hVec hBase with ⟨hReadable', hValid⟩
    rw [if_neg hBase, readUsize]
    refine (reads_readLe_fixed hReadable' (hField (by decide))).behind fun msgIovlen hLenIs => ?_
    subst hLenIs
    refine .ite (fun hEmpty => .ret ?_ fun a ha => ?_) fun _ => ?_
    · rw [hEmpty]
      rfl
    · rcases ha with ⟨-, -, i, hi, -⟩
      rw [hEmpty] at hi
      exact Nat.not_lt_zero i hi
    · have hArray : Fixed J m (peek m (hdr + MsgHdr.msgIov) 8)
          (iovecSize * peek m (hdr + MsgHdr.msgIovlen) 8) :=
        fun a ha => hIov a ⟨hBase, ha⟩
      refine ((robust_walkIovecs hTouch 0 hArray hValid).bind fun total hTotal =>
        reads_ret ?_).less fun a ha => .inl ⟨ha.1, ha.2.2⟩
      rw [hTotal]
  refine (hFirst.bind fun _ _ => hSecond.bind fun _ _ => hThird).less fun a ha => ?_
  exact ha.2.imp (And.intro ha.1) (Or.imp (And.intro ha.1) (And.intro ha.1))

theorem reads_walkFutexWaitv {entry n : Nat}
    (h : ∀ i < n, Readable m (entry + futexWaitvSize * i) 20) :
    Reads J m (fun _ => True) (walkFutexWaitv entry n) := by
  induction n generalizing entry with
  | zero => exact reads_ret trivial
  | succ n ih =>
    refine (reads_readBytes (h 0 (Nat.succ_pos n))).behind fun _ _ => ?_
    apply ih
    intro i hi
    have hShift : entry + futexWaitvSize + futexWaitvSize * i =
        entry + futexWaitvSize * (i + 1) := by
      rw [Nat.mul_succ]
      omega
    rw [hShift]
    exact h (i + 1) (Nat.succ_lt_succ hi)

/-- A buffer that is mapped and that `J` lets the kernel zero. -/
def MayFill (J : Nat → UInt8 → Prop) (m : UserCells) (p n : Nat) : Prop :=
  Writable m p n ∧ ∀ a, InBytes p n a → J a 0

theorem fills_touched (p n : Nat) (h : MayFill J m p n) :
    Fills J m (fun a => True ∧ InBytes p n a) (fill p n) :=
  (fills_fill h.1 h.2).less fun _ ha => ha.2

theorem reads_touched (p n : Nat) (h : Readable m p n) :
    Fills J m (fun a => False ∧ InBytes p n a) (readBytes p n) :=
  (reads_readBytes h).less fun _ ha => ha.1

end Walks

/-! ## Handlers -/

section Handlers

variable {sqe : IoUringSqe}

theorem reads_dispatchNop : Reads J m (fun x => x =
    if sqe.opFlags &&& ioringNopInjectResult ≠ 0 then asI32 sqe.len.toNat else 0)
      (dispatchNop sqe) := by
  refine .ite (fun hInject => reads_ret ?_) fun hInject => reads_ret ?_
  · rw [if_pos hInject]
  · rw [if_neg hInject]

theorem robust_dispatchBufFill (h : sqe.addr.toNat ≠ 0 → Writable m sqe.addr.toNat sqe.len.toNat)
    (hOut : ∀ a, sqe.addr.toNat ≠ 0 ∧ InBytes sqe.addr.toNat sqe.len.toNat a → J a 0) :
    Robust J m (fun x => x = if sqe.addr.toNat = 0 ∨ sqe.len.toNat = 0 then 0
        else asI32 sqe.len.toNat)
      (fun a => sqe.addr.toNat ≠ 0 ∧ InBytes sqe.addr.toNat sqe.len.toNat a)
      (dispatchBufFill sqe) := by
  apply robust_refused
  · intro hNull a ha
    unfold InBytes at ha
    omega
  · intro hGiven
    rcases not_or.mp hGiven with ⟨hAddr, -⟩
    apply fills_answer
    exact (fills_fill (h hAddr) fun a ha => hOut a ⟨hAddr, ha⟩).less fun _ ha => ha.2

theorem reads_dispatchBufSink
    (h : sqe.addr.toNat ≠ 0 → Readable m sqe.addr.toNat sqe.len.toNat) :
    Reads J m (fun x => x = if sqe.addr.toNat = 0 ∨ sqe.len.toNat = 0 then 0
        else asI32 sqe.len.toNat) (dispatchBufSink sqe) := by
  apply robust_refused fun _ _ => id
  intro hGiven
  exact (reads_readBytes (h (not_or.mp hGiven).1)).answer rfl

theorem robust_dispatchReadv
    (h : sqe.addr.toNat ≠ 0 → ValidIovecs (Writable m) m sqe.addr.toNat sqe.len.toNat)
    (hFixed : sqe.addr.toNat ≠ 0 → Fixed J m sqe.addr.toNat (iovecSize * sqe.len.toNat))
    (hOut : ∀ a, sqe.addr.toNat ≠ 0 ∧ InTargets m sqe.addr.toNat sqe.len.toNat a → J a 0) :
    Robust J m (fun x => x = if sqe.addr.toNat = 0 ∨ sqe.len.toNat = 0 then 0
        else asI32 (iovecTotal m sqe.addr.toNat sqe.len.toNat 0))
      (fun a => sqe.addr.toNat ≠ 0 ∧ InTargets m sqe.addr.toNat sqe.len.toNat a)
      (dispatchReadv sqe) := by
  apply robust_refused
  · intro hNull a ha
    rcases ha with ⟨hAddr, i, hi, -⟩
    omega
  intro hGiven
  rcases not_or.mp hGiven with ⟨hAddr, -⟩
  have hValid : ValidIovecs (MayFill J m) m sqe.addr.toNat sqe.len.toNat := by
    intro i hi
    refine ⟨(h hAddr i hi).1, fun hBase => ?_⟩
    rcases (h hAddr i hi).2 hBase with ⟨hReadable, hWritable⟩
    exact ⟨hReadable, hWritable, fun a ha => hOut a ⟨hAddr, i, hi, hBase, ha⟩⟩
  have hWalk := robust_walkIovecs fills_touched 0 (hFixed hAddr) hValid
  refine (hWalk.bind fun total hTotal => reads_ret ?_).less fun a ha => .inl ⟨trivial, ha.2⟩
  rw [hTotal]

theorem reads_dispatchWritev
    (h : sqe.addr.toNat ≠ 0 → ValidIovecs (Readable m) m sqe.addr.toNat sqe.len.toNat)
    (hFixed : sqe.addr.toNat ≠ 0 → Fixed J m sqe.addr.toNat (iovecSize * sqe.len.toNat)) :
    Reads J m (fun x => x = if sqe.addr.toNat = 0 ∨ sqe.len.toNat = 0 then 0
        else asI32 (iovecTotal m sqe.addr.toNat sqe.len.toNat 0)) (dispatchWritev sqe) := by
  apply robust_refused fun _ _ => id
  intro hGiven
  rcases not_or.mp hGiven with ⟨hAddr, -⟩
  have hWalk := robust_walkIovecs reads_touched 0 (hFixed hAddr) (h hAddr)
  refine (hWalk.bind fun total hTotal => reads_ret ?_).less fun _ ha => ha.elim
  rw [hTotal]

theorem robust_dispatchRecvmsg
    (h : sqe.addr.toNat ≠ 0 → ValidMsg (Writable m) m sqe.addr.toNat)
    (hFixed : sqe.addr.toNat ≠ 0 → ∀ a, InBytes sqe.addr.toNat MsgHdr.size a ∨
      InMsgIov m sqe.addr.toNat a → ∀ v, J a v → m a = .byte v)
    (hOut : ∀ a, sqe.addr.toNat ≠ 0 ∧ InMsgBufs m sqe.addr.toNat a → J a 0) :
    Robust J m (fun x => x = if sqe.addr.toNat = 0 then -14
        else asI32 (msgTotal m sqe.addr.toNat))
      (fun a => sqe.addr.toNat ≠ 0 ∧ InMsgBufs m sqe.addr.toNat a) (dispatchRecvmsg sqe) := by
  apply robust_refused fun hNull a ha => ha.1 hNull
  intro hAddr
  have hValid : ValidMsg (MayFill J m) m sqe.addr.toNat := by
    rcases h hAddr with ⟨⟨hPtr, hName⟩, ⟨hPtr', hControl⟩, hReadable, hVec⟩
    refine ⟨⟨hPtr, fun hBase => ?_⟩, ⟨hPtr', fun hBase => ?_⟩, hReadable, fun hBase => ?_⟩
    · rcases hName hBase with ⟨hLen, hWritable⟩
      exact ⟨hLen, hWritable, fun a ha => hOut a ⟨hAddr, .inl ⟨hBase, ha⟩⟩⟩
    · rcases hControl hBase with ⟨hLen, hWritable⟩
      exact ⟨hLen, hWritable, fun a ha => hOut a ⟨hAddr, .inr (.inl ⟨hBase, ha⟩)⟩⟩
    · rcases hVec hBase with ⟨hLen, hTargets⟩
      refine ⟨hLen, fun i hi => ⟨(hTargets i hi).1, fun hTarget => ?_⟩⟩
      rcases (hTargets i hi).2 hTarget with ⟨hReadable', hWritable⟩
      exact ⟨hReadable', hWritable, fun a ha =>
        hOut a ⟨hAddr, .inr (.inr ⟨hBase, i, hi, hTarget, ha⟩)⟩⟩
  exact (robust_walkMsgHdr fills_touched (fun a ha => hFixed hAddr a (.inl ha))
    (fun a ha => hFixed hAddr a (.inr ha)) hValid).less fun a ha => ⟨trivial, ha.2⟩

theorem reads_dispatchSendmsg
    (h : sqe.addr.toNat ≠ 0 → ValidMsg (Readable m) m sqe.addr.toNat)
    (hFixed : sqe.addr.toNat ≠ 0 → ∀ a, InBytes sqe.addr.toNat MsgHdr.size a ∨
      InMsgIov m sqe.addr.toNat a → ∀ v, J a v → m a = .byte v) :
    Reads J m (fun x => x = if sqe.addr.toNat = 0 then -14
        else asI32 (msgTotal m sqe.addr.toNat)) (dispatchSendmsg sqe) := by
  apply robust_refused fun _ _ => id
  intro hAddr
  exact (robust_walkMsgHdr reads_touched (fun a ha => hFixed hAddr a (.inl ha))
    (fun a ha => hFixed hAddr a (.inr ha)) (h hAddr)).less fun _ ha => ha.elim

/-- A handler that refuses a null pointer, or does nothing, and reads a structure. -/
theorem reads_pointer {c : Prop} [Decidable c] {p : UserProgram Unit} {r r' : Int32}
    (h : ¬ c → Reads J m (fun _ => True) p) :
    Reads J m (fun x => x = if c then r else r')
      (if c then pure r else p >>= fun _ => pure r') :=
  robust_refused (fun _ _ => id) fun hc => (h hc).answer rfl

/-- A handler that answers 0 in either case. -/
theorem reads_done {c : Prop} [Decidable c] {p : UserProgram Unit}
    (h : ¬ c → Reads J m (fun _ => True) p) :
    Reads J m (fun x : Int32 => x = 0) (if c then pure 0 else p >>= fun _ => pure 0) :=
  (reads_pointer h).mono fun _ hx => hx.trans (ite_self 0)

/-- The length that is found may be smaller than the one that was there. -/
theorem robust_dispatchAccept
    (h : sqe.addr.toNat ≠ 0 ∧ sqe.off.toNat ≠ 0 → Readable m sqe.off.toNat 4 ∧
      Writable m sqe.addr.toNat (peek m sqe.off.toNat 4))
    (hShrinks : Shrinks J m fun a =>
      (sqe.addr.toNat ≠ 0 ∧ sqe.off.toNat ≠ 0) ∧ InBytes sqe.off.toNat 4 a)
    (hOut : ∀ a, (sqe.addr.toNat ≠ 0 ∧ sqe.off.toNat ≠ 0) ∧
      (InBytes sqe.addr.toNat (peek m sqe.off.toNat 4) a ∨ InBytes sqe.off.toNat 4 a) → J a 0) :
    Robust J m (fun x => x = 42)
      (fun a => (sqe.addr.toNat ≠ 0 ∧ sqe.off.toNat ≠ 0) ∧ InBytes sqe.off.toNat 4 a)
      (dispatchAccept sqe) := by
  refine .ite (fun hGiven => ?_) fun hNull => .ret rfl fun a ha => hNull ha.1
  rcases h hGiven with ⟨hReadable, hWritable⟩
  have hMapped : Writable m sqe.off.toNat 4 := by
    intro a ha
    rcases hReadable a ha with ⟨b, hByte⟩
    rw [hByte]
    simp
  apply (reads_readLe_le hReadable fun a ha => hShrinks a ⟨hGiven, ha⟩).behind
  intro addrlen hLe
  have hAddr : Reads J m (fun _ => True)
      (if addrlen = 0 then pure () else fill sqe.addr.toNat addrlen) := by
    apply reads_unless
    intro _
    refine (fills_fill ?_ ?_).less fun _ ha => ha.elim
    · intro a ha
      exact hWritable a (ha.sub (Nat.le_refl _) (by omega))
    · intro a ha
      exact hOut a ⟨hGiven, .inl (ha.sub (Nat.le_refl _) (by omega))⟩
  apply hAddr.behind
  intro _ _
  rw [writeLe_zero]
  apply fills_answer
  exact (fills_fill hMapped fun a ha => hOut a ⟨hGiven, .inr ha⟩).less fun _ ha => ha.2

theorem reads_dispatchProvideBuffers
    (h : sqe.addr.toNat ≠ 0 → ValidRange m sqe.addr.toNat sqe.len.toNat (asUsize sqe.fd)) :
    Reads J m (fun x => x = 0) (dispatchProvideBuffers sqe) := by
  refine .ite (fun _ => reads_ret rfl) fun hGiven => ?_
  rcases not_or.mp hGiven with ⟨hAddr, hSizes⟩
  rcases not_or.mp hSizes with ⟨hLen, hNum⟩
  rcases h hAddr hLen hNum with ⟨hFirst, hLast⟩
  rcases (readable_succ.mp hFirst).1 with ⟨b, hByte⟩
  rcases (readable_succ.mp hLast).1 with ⟨b', hByte'⟩
  exact (reads_readU8 hByte).behind fun _ _ => (reads_readU8 hByte').answer rfl

theorem robust_dispatchEpollWait
    (h : sqe.addr.toNat ≠ 0 → Writable m sqe.addr.toNat (sqe.len.toNat * epollEventSize))
    (hOut : ∀ a, sqe.addr.toNat ≠ 0 ∧
      InBytes sqe.addr.toNat (sqe.len.toNat * epollEventSize) a → J a 0) :
    Robust J m (fun x => x = 0) (fun a => sqe.addr.toNat ≠ 0 ∧
      InBytes sqe.addr.toNat (sqe.len.toNat * epollEventSize) a) (dispatchEpollWait sqe) := by
  refine .ite (fun hNull => .ret rfl fun a ha => ?_) fun hGiven => ?_
  · unfold InBytes epollEventSize at ha
    omega
  · rcases not_or.mp hGiven with ⟨hAddr, -⟩
    apply fills_answer
    exact (fills_fill (h hAddr) fun a ha => hOut a ⟨hAddr, ha⟩).less fun _ ha => ha.2

theorem reads_dispatchFutexRead (h : sqe.addr.toNat ≠ 0 → Readable m sqe.addr.toNat 4) :
    Reads J m (fun x => x = if sqe.addr.toNat = 0 then -14 else 0) (dispatchFutexRead sqe) :=
  robust_refused (fun _ _ => id) fun hAddr => (reads_readLe (h hAddr)).answer rfl

/-- A buffer that is filled unless its pointer is null. -/
theorem fills_optional {p n : Nat} (h : p ≠ 0 → Writable m p n)
    (hOut : ∀ a, p ≠ 0 ∧ InBytes p n a → J a 0) :
    Fills J m (fun a => p ≠ 0 ∧ InBytes p n a) (if p = 0 then pure () else fill p n) := by
  apply fills_unless fun hNull a ha => ha.1 hNull
  intro hp
  exact (fills_fill (h hp) fun a ha => hOut a ⟨hp, ha⟩).less fun _ ha => ha.2

theorem robust_dispatchWaitid (h : sqe.off.toNat ≠ 0 → Writable m sqe.off.toNat siginfoSize)
    (hOut : ∀ a, sqe.off.toNat ≠ 0 ∧ InBytes sqe.off.toNat siginfoSize a → J a 0) :
    Robust J m (fun x => x = 0)
      (fun a => sqe.off.toNat ≠ 0 ∧ InBytes sqe.off.toNat siginfoSize a) (dispatchWaitid sqe) :=
  (fills_optional h hOut).answer rfl

theorem robust_dispatchPipe (h : sqe.addr.toNat ≠ 0 → Writable m sqe.addr.toNat pipeFdsSize)
    (hOut : ∀ a, sqe.addr.toNat ≠ 0 ∧ InBytes sqe.addr.toNat pipeFdsSize a → ∀ v, J a v) :
    Robust J m (fun x => x = if sqe.addr.toNat = 0 then -14 else 0)
      (fun a => sqe.addr.toNat ≠ 0 ∧ InBytes sqe.addr.toNat pipeFdsSize a)
      (dispatchPipe sqe) := by
  apply robust_refused fun hNull a ha => ha.1 hNull
  intro hAddr
  have hHalf : ∀ k, k + 4 ≤ pipeFdsSize → ∀ v,
      Fills J m (InBytes (sqe.addr.toNat + k) 4) (writeLe (sqe.addr.toNat + k) 4 v) := by
    intro k hk v
    apply fills_writeLe
    · intro a ha
      exact h hAddr a (ha.sub (by omega) (by omega))
    · intro a ha w _
      exact hOut a ⟨hAddr, ha.sub (by omega) (by omega)⟩ w
  have hSecond : Robust J m (fun x : Int32 => x = 0) (InBytes (sqe.addr.toNat + 4) 4) (do
      writeLe (sqe.addr.toNat + 4) 4 43
      pure 0) :=
    (hHalf 4 (by decide) 43).answer rfl
  have hBoth := (hHalf 0 (by decide) 42).bind fun _ _ => hSecond
  refine hBoth.less fun a ha => ?_
  rcases ha with ⟨-, hLow, hHigh⟩
  unfold pipeFdsSize at hHigh
  by_cases hFirst : a < sqe.addr.toNat + 4
  · exact .inl ⟨hLow, hFirst⟩
  · exact .inr ⟨by omega, by omega⟩

/-! ### Pathnames -/

section Paths

variable (hTop : Bounded m)
include hTop

/-- `if path != 0 { walk_cstr(path) }` -/
theorem reads_path {c : Prop} [Decidable c] {p : Nat} (h : ¬ c → Terminated m p)
    (hShrinks : ¬ c → Shrinks J m (InCstr m p)) :
    Reads J m (fun _ => True) (if c then pure () else walkCstr p) :=
  reads_unless fun hc => reads_walkCstr hTop (h hc) (hShrinks hc)

/-- OPENAT, and the operations on one pathname. -/
theorem reads_onePath {p : Nat} {r r' : Int32} (h : p ≠ 0 → Terminated m p)
    (hShrinks : Shrinks J m fun a => p ≠ 0 ∧ InCstr m p a) :
    Reads J m (fun x => x = if p = 0 then r else r')
      (if p = 0 then pure r else walkCstr p >>= fun _ => pure r') :=
  reads_pointer fun hp => reads_walkCstr hTop (h hp) fun a ha => hShrinks a ⟨hp, ha⟩

theorem reads_dispatchPathname2
    (h : sqe.addr.toNat ≠ 0 ∧ sqe.off.toNat ≠ 0 →
      Terminated m sqe.addr.toNat ∧ Terminated m sqe.off.toNat)
    (hShrinks : Shrinks J m fun a => (sqe.addr.toNat ≠ 0 ∧ sqe.off.toNat ≠ 0) ∧
      (InCstr m sqe.addr.toNat a ∨ InCstr m sqe.off.toNat a)) :
    Reads J m (fun x => x = if sqe.addr.toNat = 0 ∨ sqe.off.toNat = 0 then -14 else 0)
      (dispatchPathname2 sqe) := by
  apply robust_refused fun _ _ => id
  intro hNull
  have hGiven := not_or.mp hNull
  rcases h hGiven with ⟨hFirst, hSecond⟩
  apply (reads_walkCstr hTop hFirst fun a ha => hShrinks a ⟨hGiven, .inl ha⟩).behind
  intro _ _
  exact (reads_walkCstr hTop hSecond fun a ha => hShrinks a ⟨hGiven, .inr ha⟩).answer rfl

theorem reads_dispatchOpenat2
    (h : sqe.addr.toNat ≠ 0 → Terminated m sqe.addr.toNat ∧
      (sqe.off.toNat ≠ 0 → Readable m sqe.off.toNat openHowSize))
    (hShrinks : Shrinks J m fun a => sqe.addr.toNat ≠ 0 ∧ InCstr m sqe.addr.toNat a) :
    Reads J m (fun x => x = if sqe.addr.toNat = 0 then -14 else 42) (dispatchOpenat2 sqe) := by
  apply robust_refused fun _ _ => id
  intro hAddr
  rcases h hAddr with ⟨hPath, hHow⟩
  apply (reads_walkCstr hTop hPath fun a ha => hShrinks a ⟨hAddr, ha⟩).behind
  intro _ _
  exact (reads_unless fun hOff => reads_readBytes (hHow hOff)).answer rfl

theorem robust_dispatchStatx
    (h : (sqe.addr.toNat ≠ 0 → Terminated m sqe.addr.toNat) ∧
      (sqe.off.toNat ≠ 0 → Writable m sqe.off.toNat statxSize))
    (hShrinks : Shrinks J m fun a => sqe.addr.toNat ≠ 0 ∧ InCstr m sqe.addr.toNat a)
    (hOut : ∀ a, sqe.off.toNat ≠ 0 ∧ InBytes sqe.off.toNat statxSize a → J a 0) :
    Robust J m (fun x => x = 0)
      (fun a => sqe.off.toNat ≠ 0 ∧ InBytes sqe.off.toNat statxSize a) (dispatchStatx sqe) := by
  apply (reads_path hTop h.1 fun hAddr a ha => hShrinks a ⟨hAddr, ha⟩).behind
  intro _ _
  exact (fills_optional h.2 hOut).answer rfl

/-- The last walk of the two attribute operations, for the opcode that has a path. -/
theorem reads_lastPath {op : Nat} {r : Int32}
    (hPath : sqe.opcode.toNat = op → sqe.addr3.toNat ≠ 0 → Terminated m sqe.addr3.toNat)
    (hShrinks : sqe.opcode.toNat = op →
      Shrinks J m fun a => sqe.addr3.toNat ≠ 0 ∧ InCstr m sqe.addr3.toNat a) :
    Reads J m (fun x => x = r) (do
      (if sqe.opcode.toNat ≠ op ∨ sqe.addr3.toNat = 0 then pure () else
        walkCstr sqe.addr3.toNat)
      pure r) := by
  apply fills_answer
  apply reads_path hTop
  all_goals
    intro hWalked
    rcases not_or.mp hWalked with ⟨hOp, hAddr3⟩
    rw [not_not] at hOp
  · exact hPath hOp hAddr3
  · exact fun a ha => hShrinks hOp a ⟨hAddr3, ha⟩

theorem reads_dispatchXattrSet
    (hName : sqe.addr.toNat ≠ 0 → Terminated m sqe.addr.toNat)
    (hValue : sqe.off.toNat ≠ 0 → Readable m sqe.off.toNat sqe.len.toNat)
    (hPath : sqe.opcode.toNat = ioringOpSetxattr → sqe.addr3.toNat ≠ 0 →
      Terminated m sqe.addr3.toNat)
    (hShrinks : Shrinks J m fun a => sqe.addr.toNat ≠ 0 ∧ InCstr m sqe.addr.toNat a)
    (hShrinks' : sqe.opcode.toNat = ioringOpSetxattr →
      Shrinks J m fun a => sqe.addr3.toNat ≠ 0 ∧ InCstr m sqe.addr3.toNat a) :
    Reads J m (fun x => x = 0) (dispatchXattrSet sqe) := by
  apply (reads_path hTop hName fun hAddr a ha => hShrinks a ⟨hAddr, ha⟩).behind
  intro _ _
  have hRead : Reads J m (fun _ => True) (if sqe.off.toNat = 0 ∨ sqe.len.toNat = 0 then pure ()
      else readBytes sqe.off.toNat sqe.len.toNat) :=
    reads_unless fun hGiven => reads_readBytes (hValue (not_or.mp hGiven).1)
  exact hRead.behind fun _ _ => reads_lastPath hTop hPath hShrinks'

theorem robust_dispatchXattrGet
    (hName : sqe.addr.toNat ≠ 0 → Terminated m sqe.addr.toNat)
    (hValue : sqe.off.toNat ≠ 0 → Writable m sqe.off.toNat sqe.len.toNat)
    (hPath : sqe.opcode.toNat = ioringOpGetxattr → sqe.addr3.toNat ≠ 0 →
      Terminated m sqe.addr3.toNat)
    (hShrinks : Shrinks J m fun a => sqe.addr.toNat ≠ 0 ∧ InCstr m sqe.addr.toNat a)
    (hShrinks' : sqe.opcode.toNat = ioringOpGetxattr →
      Shrinks J m fun a => sqe.addr3.toNat ≠ 0 ∧ InCstr m sqe.addr3.toNat a)
    (hOut : ∀ a, sqe.off.toNat ≠ 0 ∧ InBytes sqe.off.toNat sqe.len.toNat a → J a 0) :
    Robust J m (fun x => x = asI32 sqe.len.toNat)
      (fun a => sqe.off.toNat ≠ 0 ∧ InBytes sqe.off.toNat sqe.len.toNat a)
      (dispatchXattrGet sqe) := by
  apply (reads_path hTop hName fun hAddr a ha => hShrinks a ⟨hAddr, ha⟩).behind
  intro _ _
  have hFill : Fills J m (fun a => sqe.off.toNat ≠ 0 ∧ InBytes sqe.off.toNat sqe.len.toNat a)
      (if sqe.off.toNat = 0 ∨ sqe.len.toNat = 0 then pure ()
        else fill sqe.off.toNat sqe.len.toNat) := by
    apply fills_unless
    · intro hNull a ha
      unfold InBytes at ha
      omega
    · intro hGiven
      rcases not_or.mp hGiven with ⟨hOff, -⟩
      exact (fills_fill (hValue hOff) fun a ha => hOut a ⟨hOff, ha⟩).less fun _ ha => ha.2
  exact (hFill.bind fun _ _ => reads_lastPath hTop hPath hShrinks').less fun _ ha => .inl ha

end Paths

end Handlers

/-! ## The result -/

section Result

variable {sqe : IoUringSqe} {requests : List IoUringSqe}

/-- A handler that writes the whole output. -/
theorem delivers_of_fills {R : Nat → Prop} {P : Nat → Prop} {Q : Int32 → Prop}
    {p : UserProgram Int32} (h : Robust J m Q R p) : Robust J m Q (fun a => R a ∧ P a) p :=
  h.less fun _ ha => ha.1

/-- One case for each handler. -/
theorem robust_dispatchOp (hTop : Bounded m) (hValid : Accessible m sqe)
    (hPath : sqe.opcode.toNat = ioringOpGetxattr → sqe.addr3.toNat ≠ 0 →
      Terminated m sqe.addr3.toNat)
    (hOut : ∀ a v, Stores m sqe a v → J a v) (hFound : ∀ a v, J a v → ¬ Misleads m sqe a v) :
    Robust J m (fun x => x = resultOf m sqe) (Delivers m sqe) (dispatchOp sqe) := by
  have hFixed : ∀ a, Vector m sqe a → ∀ v, J a v → m a = .byte v := by
    intro a ha v hv
    by_contra hOther
    exact hFound a v hv ⟨hOther, .inl ha⟩
  have hShrinks : Shrinks J m (Limit m sqe) := by
    intro a ha v hv
    by_cases hZero : v = 0
    · exact .inr hZero
    · left
      by_contra hOther
      exact hFound a v hv ⟨hOther, .inr ⟨hZero, ha⟩⟩
  have hZeros : ∀ a, Output m sqe a → J a 0 := fun a ha => hOut a 0 ⟨ha, .inl rfl⟩
  have hFds : sqe.opcode.toNat = ioringOpPipe → ∀ a, Output m sqe a → ∀ v, J a v :=
    fun hOp a ha v => hOut a v ⟨ha, .inr hOp⟩
  unfold Accessible at hValid
  unfold Vector at hFixed
  unfold Limit at hShrinks
  unfold Output at hZeros hFds
  unfold dispatchOp
  split
  case h_64 =>
    have hAnswer : resultOf m sqe = -38 := by
      unfold resultOf
      split
      all_goals first | rfl | contradiction
    have hNone : Output m sqe = fun _ => False := by
      unfold Output
      split
      all_goals first | rfl | contradiction
    unfold Delivers
    rw [hNone]
    exact .ret hAnswer.symm fun _ ha => ha.1
  all_goals unfold Delivers Output resultOf
  case h_1 hOp =>
    rw [hOp]
    exact delivers_of_fills reads_dispatchNop
  case h_2 hOp | h_3 hOp | h_4 hOp | h_37 hOp =>
    rw [hOp] at hValid hZeros ⊢
    exact delivers_of_fills (robust_dispatchBufFill hValid hZeros)
  case h_5 hOp | h_6 hOp | h_7 hOp | h_8 hOp =>
    rw [hOp] at hValid ⊢
    exact delivers_of_fills (reads_dispatchBufSink hValid)
  case h_9 hOp | h_35 hOp =>
    rw [hOp] at hValid hFixed hZeros ⊢
    exact delivers_of_fills
      (robust_dispatchReadv hValid (fun hAddr a ha => hFixed a ⟨hAddr, ha⟩) hZeros)
  case h_10 hOp | h_36 hOp =>
    rw [hOp] at hValid hFixed ⊢
    exact delivers_of_fills
      (reads_dispatchWritev hValid fun hAddr a ha => hFixed a ⟨hAddr, ha⟩)
  case h_11 hOp =>
    rw [hOp] at hValid hFixed hZeros ⊢
    exact delivers_of_fills
      (robust_dispatchRecvmsg hValid (fun hAddr a ha => hFixed a ⟨hAddr, ha⟩) hZeros)
  case h_12 hOp | h_13 hOp =>
    rw [hOp] at hValid hFixed ⊢
    exact delivers_of_fills
      (reads_dispatchSendmsg hValid fun hAddr a ha => hFixed a ⟨hAddr, ha⟩)
  case h_14 hOp | h_15 hOp =>
    rw [hOp] at hValid ⊢
    exact delivers_of_fills (reads_pointer fun hAddr => reads_readBytes (hValid hAddr))
  case h_16 hOp | h_26 hOp =>
    rw [hOp] at hValid ⊢
    exact delivers_of_fills
      (reads_pointer fun hGiven => reads_readBytes (hValid (not_or.mp hGiven).1))
  case h_17 hOp =>
    rw [hOp] at hValid hShrinks hZeros ⊢
    exact (robust_dispatchAccept hValid hShrinks hZeros).less fun a ha => ⟨ha.1.1, ha.2 rfl⟩
  case h_18 hOp =>
    rw [hOp] at hValid hShrinks ⊢
    exact delivers_of_fills (reads_onePath hTop hValid hShrinks)
  case h_19 hOp =>
    rw [hOp] at hValid hShrinks ⊢
    exact delivers_of_fills (reads_dispatchOpenat2 hTop hValid hShrinks)
  case h_20 hOp =>
    rw [hOp] at hValid hShrinks hZeros ⊢
    exact delivers_of_fills (robust_dispatchStatx hTop hValid hShrinks hZeros)
  case h_21 hOp | h_22 hOp =>
    rw [hOp] at hValid hShrinks ⊢
    exact delivers_of_fills (reads_onePath hTop hValid hShrinks)
  case h_23 hOp | h_24 hOp | h_25 hOp =>
    rw [hOp] at hValid hShrinks ⊢
    exact delivers_of_fills (reads_dispatchPathname2 hTop hValid hShrinks)
  case h_27 hOp =>
    rw [hOp] at hValid ⊢
    exact delivers_of_fills (reads_done fun hAddr => reads_readBytes (hValid hAddr))
  case h_28 hOp =>
    rw [hOp] at hValid ⊢
    exact delivers_of_fills
      (reads_pointer fun hGiven => reads_readBytes (hValid (not_or.mp hGiven).1))
  case h_29 hOp =>
    rw [hOp] at hValid ⊢
    exact delivers_of_fills (reads_dispatchProvideBuffers hValid)
  case h_30 hOp =>
    have hOther : sqe.opcode.toNat ≠ ioringOpSetxattr := by rw [hOp]; decide
    have hSet := fun hName hValue hWalk => reads_dispatchXattrSet (J := J) hTop hName hValue
      (fun h => absurd h hOther) hWalk fun h => absurd h hOther
    rw [hOp] at hValid hShrinks ⊢
    exact delivers_of_fills (hSet hValid.1 hValid.2 hShrinks)
  case h_31 hOp =>
    rw [hOp] at hValid hShrinks ⊢
    exact delivers_of_fills (reads_dispatchXattrSet hTop hValid.1 hValid.2.1
      (fun _ => hValid.2.2) (fun a ha => hShrinks a (.inl ha)) fun _ a ha =>
        hShrinks a (.inr ha))
  case h_32 hOp =>
    have hOther : sqe.opcode.toNat ≠ ioringOpGetxattr := by rw [hOp]; decide
    rw [hOp] at hValid hShrinks hZeros ⊢
    exact delivers_of_fills (robust_dispatchXattrGet hTop hValid.1 hValid.2
      (fun h => absurd h hOther) hShrinks (fun h => absurd h hOther) hZeros)
  case h_33 hOp =>
    rw [hOp] at hValid hShrinks hZeros ⊢
    exact delivers_of_fills (robust_dispatchXattrGet hTop hValid.1 hValid.2.1 hPath
      (fun a ha => hShrinks a (.inl ha)) (fun _ a ha => hShrinks a (.inr ha)) hZeros)
  case h_34 hOp =>
    rw [hOp] at hValid hZeros ⊢
    exact delivers_of_fills (robust_dispatchEpollWait hValid hZeros)
  case h_38 hOp | h_39 hOp =>
    rw [hOp] at hValid ⊢
    exact delivers_of_fills (reads_dispatchFutexRead hValid)
  case h_40 hOp =>
    rw [hOp] at hValid ⊢
    exact delivers_of_fills
      (reads_pointer fun hGiven => reads_walkFutexWaitv (hValid (not_or.mp hGiven).1))
  case h_41 hOp =>
    rw [hOp] at hValid hZeros ⊢
    exact delivers_of_fills (robust_dispatchWaitid hValid hZeros)
  case h_42 hOp =>
    have hAny := hFds hOp
    rw [hOp] at hValid hAny ⊢
    exact delivers_of_fills (robust_dispatchPipe hValid hAny)
  -- the handlers that answer a constant
  all_goals
    next hOp =>
      rw [hOp]
      exact delivers_of_fills (reads_ret rfl)

/-- A request of a batch. -/
theorem robust_dispatchUnlessCancelled {r : Int32} {D : Nat → Prop}
    (h : Robust J m (fun x => x = r) D (dispatchOp sqe)) (cancelChain : Bool) :
    Robust J m (fun x => x = if cancelChain then ecanceled else r)
      (fun a => cancelChain = false ∧ D a) (dispatchUnlessCancelled cancelChain sqe) := by
  cases cancelChain with
  | true => exact .ret rfl fun a ha => Bool.noConfusion ha.1
  | false =>
    rw [dispatchUnlessCancelled, if_neg Bool.false_ne_true, mark, act_bind]
    apply Robust.note
    have hLeave : ∀ result, result = r → Reads J m (fun x => x = r) (do
        mark (.leave sqe result)
        pure result) :=
      fun _ hResult => .note (reads_ret hResult)
    exact (h.bind hLeave).less fun a ha => .inl ha.2

/-- A batch of requests, some of which may be cancelled. -/
theorem robust_dispatchLoop {f : IoUringSqe → Int32} {D : IoUringSqe → Nat → Prop}
    {sqes : List IoUringSqe}
    (h : ∀ sqe ∈ sqes, Robust J m (fun x => x = f sqe) (D sqe) (dispatchOp sqe))
    (cancelChain : Bool) :
    Robust J m (fun results => results = outcomes f cancelChain sqes)
      (fun a => ∃ sqe ∈ uncancelled f cancelChain sqes, D sqe a)
      (dispatchLoop cancelChain sqes) := by
  induction sqes generalizing cancelChain with
  | nil =>
    refine .ret rfl fun a ha => ?_
    rcases ha with ⟨sqe, hMem, -⟩
    cases cancelChain <;> cases hMem
  | cons sqe sqes ih =>
    rw [dispatchLoop, mark, act_bind]
    apply Robust.note
    have hOne := robust_dispatchUnlessCancelled (h sqe List.mem_cons_self) cancelChain
    have hLater : ∀ result, (result = if cancelChain then ecanceled else f sqe) →
        Robust J m (fun results => results = outcomes f cancelChain (sqe :: sqes))
          (fun a => ∃ sqe' ∈ uncancelled f (nextCancelChain cancelChain sqe
            (if cancelChain then ecanceled else f sqe)) sqes, D sqe' a) (do
          let results ← dispatchLoop (nextCancelChain cancelChain sqe result) sqes
          pure (⟨sqe.userData, result, skipsSuccess sqe⟩ :: results)) := by
      intro result hResult
      subst hResult
      have hRest := ih fun sqe' hMem => h sqe' (List.mem_cons_of_mem _ hMem)
      refine ((hRest _).bind fun results hResults => reads_ret ?_).less fun _ ha => .inl ha
      rw [hResults, outcomes]
    refine (hOne.bind hLater).less fun a ha => ?_
    rcases ha with ⟨sqe', hMem, ha⟩
    cases cancelChain with
    | true => exact .inr ⟨sqe', hMem, ha⟩
    | false =>
      rcases List.mem_cons.mp hMem with rfl | hTail
      · exact .inl ⟨rfl, ha⟩
      · exact .inr ⟨sqe', hTail, ha⟩

/-- **Requests that share a memory.** The batches of compatible requests are robust. -/
theorem Compatible.robust (hTop : Bounded m) (h : Compatible m requests) {sqes : List IoUringSqe}
    (hSqes : ∀ sqe ∈ sqes, sqe ∈ requests) :
    Robust (StoredBy m requests) m (fun results => results = outcomes (resultOf m) false sqes)
      (fun a => ∃ sqe ∈ uncancelled (resultOf m) false sqes, Delivers m sqe a)
      (dispatchBatch sqes) := by
  apply robust_dispatchLoop
  intro sqe hMem
  have hIn := hSqes sqe hMem
  apply robust_dispatchOp hTop (h.valid sqe hIn).accessible (h.path sqe hIn)
  · intro a v hStores
    exact ⟨sqe, hIn, hStores⟩
  · intro a v hStored
    rcases hStored with ⟨sqe', hIn', hStores⟩
    exact h.apart sqe' hIn' sqe hIn a v hStores

/-! ### The references of requests that share a memory -/

section Shared

variable {m' : UserCells}

theorem Reference.Sound.congr {ref : Reference} (h : ref.Sound m)
    (hSame : ∀ a, m' a = .unmapped ↔ m a = .unmapped) : ref.Sound m' :=
  ⟨h.aligned, h.sized, (writable_congr hSame).mpr h.mapped⟩

theorem targetReferences_congr {iov n : Nat}
    (h : ∀ a, InBytes iov (iovecSize * n) a → m' a = m a) :
    targetReferences m' iov n = targetReferences m iov n := by
  induction n generalizing iov with
  | zero => rfl
  | succ n ih =>
    have hSub : ∀ {p k : Nat}, iov ≤ p → p + k ≤ iov + iovecSize * (n + 1) →
        ∀ a, InBytes p k a → m' a = m a :=
      fun hLow hHigh a ha => h a (ha.sub hLow hHigh)
    rw [Nat.mul_succ] at hSub
    rw [targetReferences, targetReferences, ih (hSub (by omega) (by omega)),
      peek_congr (hSub (Nat.le_refl iov) (by unfold iovecSize; omega)),
      peek_congr (hSub (p := iov + 8) (by omega) (by unfold iovecSize; omega))]

theorem arrayReferences_congr {iov n : Nat}
    (h : iov ≠ 0 → ∀ a, InBytes iov (iovecSize * n) a → m' a = m a) :
    arrayReferences m' iov n = arrayReferences m iov n := by
  rw [arrayReferences, arrayReferences]
  split
  · rfl
  · next hSome => rw [targetReferences_congr (h (not_or.mp hSome).1)]

theorem msgReferences_congr {hdr : Nat}
    (h : ∀ a, InBytes hdr MsgHdr.size a ∨ InMsgIov m hdr a → m' a = m a) :
    msgReferences m' hdr = msgReferences m hdr := by
  have hField : ∀ {k n : Nat}, k + n ≤ MsgHdr.size → peek m' (hdr + k) n = peek m (hdr + k) n :=
    fun hkn => peek_congr fun a ha => h a (.inl (ha.field hkn))
  rw [msgReferences, msgReferences, hField (by decide), hField (by decide), hField (by decide),
    hField (by decide), hField (by decide), hField (by decide),
    arrayReferences_congr fun hNull a ha => h a (.inr ⟨hNull, ha⟩)]

/-- The address of an ACCEPT, when its length has become smaller. -/
theorem sound_accept {addr off n n' : Nat}
    (h : ∀ ref ∈ (if addr ≠ 0 ∧ off ≠ 0 then ⟨off, 4, 4⟩ :: bufferReference addr n else []),
      ref.Sound m') (hLe : addr ≠ 0 ∧ off ≠ 0 → n' ≤ n) :
    ∀ ref ∈ (if addr ≠ 0 ∧ off ≠ 0 then ⟨off, 4, 4⟩ :: bufferReference addr n' else []),
      ref.Sound m' := by
  by_cases hGiven : addr ≠ 0 ∧ off ≠ 0
  · rw [if_pos hGiven] at h ⊢
    rw [List.forall_mem_cons] at h ⊢
    refine ⟨h.1, fun ref hRef => ?_⟩
    obtain ⟨⟨hAddr, hSome⟩, rfl⟩ := mem_bufferReference.mp hRef
    have hLen := hLe hGiven
    have hWhole := h.2 _ (mem_bufferReference.mpr ⟨⟨hAddr, by omega⟩, rfl⟩)
    refine ⟨hWhole.aligned, Nat.le_trans hLen hWhole.sized, fun a ha => hWhole.mapped a ?_⟩
    exact ha.sub (Nat.le_refl _) (Nat.add_le_add_left hLen _)
  · rw [if_neg hGiven]
    intro ref hRef
    cases hRef

theorem references_accept (hOp : sqe.opcode.toNat = ioringOpAccept) :
    references m sqe = if sqe.addr.toNat ≠ 0 ∧ sqe.off.toNat ≠ 0 then
      ⟨sqe.off.toNat, 4, 4⟩ :: bufferReference sqe.addr.toNat (peek m sqe.off.toNat 4) else [] := by
  unfold references
  rw [hOp]
  rfl

/-- The vectors decide what the references are, but for those of an ACCEPT. -/
theorem references_congr (hOp : sqe.opcode.toNat ≠ ioringOpAccept)
    (h : ∀ a, Vector m sqe a → m' a = m a) : references m' sqe = references m sqe := by
  unfold references
  unfold Vector at h
  split
  case h_1 hVec | h_2 hVec | h_3 hVec | h_4 hVec =>
    rw [hVec] at h
    exact arrayReferences_congr fun hNull a ha => h a ⟨hNull, ha⟩
  case h_5 hMsg | h_6 hMsg | h_7 hMsg =>
    rw [hMsg] at h
    exact ite_congr rfl (fun _ => rfl) fun hNull => by
      rw [msgReferences_congr fun a ha => h a ⟨hNull, ha⟩]
  case h_8 hAccept => exact absurd hAccept hOp
  case h_9 => rfl

/-- **References of requests that share a memory** are sound, whatever the others have made of
it. The structures are found as they were, and the address of an ACCEPT not longer. -/
theorem Compatible.sound (h : Compatible m requests)
    (hWithin : Within (StoredBy m requests) m m') (hIn : sqe ∈ requests) :
    ∀ ref ∈ references m' sqe, ref.Sound m' := by
  have hFound : ∀ a, m' a = m a ∨ ∃ v, m' a = .byte v ∧ ¬ Misleads m sqe a v := by
    intro a
    refine (hWithin.cell a).imp_right ?_
    rintro ⟨v, hByte, sqe', hIn', hStores⟩
    exact ⟨v, hByte, h.apart sqe' hIn' sqe hIn a v hStores⟩
  have hOld : ∀ ref ∈ references m sqe, ref.Sound m' :=
    fun ref hRef => ((h.valid sqe hIn).sound ref hRef).congr hWithin.unmapped_iff
  by_cases hOp : sqe.opcode.toNat = ioringOpAccept
  · have hLimit : ∀ a, Limit m sqe a → m' a = m a ∨ m' a = .byte 0 := by
      intro a ha
      rcases hFound a with hSame | ⟨v, hByte, hNot⟩
      · exact .inl hSame
      · by_cases hZero : v = 0
        · exact .inr (by rw [hByte, hZero])
        · left
          by_contra hOther
          rw [hByte] at hOther
          exact hNot ⟨fun hEq => hOther hEq.symm, .inr ⟨hZero, ha⟩⟩
    unfold Limit at hLimit
    rw [hOp] at hLimit
    rw [references_accept hOp] at hOld ⊢
    exact sound_accept hOld fun hGiven =>
      peek_le_of_zeroed fun a hLow hHigh => hLimit a ⟨hGiven, hLow, hHigh⟩
  · have hCell : ∀ a, Vector m sqe a → m' a = m a := by
      intro a ha
      rcases hFound a with hSame | ⟨v, hByte, hNot⟩
      · exact hSame
      · by_contra hOther
        rw [hByte] at hOther
        exact hNot ⟨fun hEq => hOther hEq.symm, .inl ha⟩
    rw [references_congr hOp hCell]
    exact hOld

end Shared

end Result

end Miring.Dispatch
