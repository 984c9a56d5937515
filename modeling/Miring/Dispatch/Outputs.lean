import Miring.Program.Effect
import Miring.Program.Bytes
import Miring.Dispatch.Metadata

/-!
# What a dispatch writes

`Output m sqe` are the bytes that the request `sqe` designates for what the kernel returns, in
the memory `m`: a buffer, the targets of an iovec array, the name and the control data of a
message, a socket address and its length, and so on. A dispatch that does not fault leaves
zeros in these bytes, except that PIPE leaves two descriptors, and it changes no other byte
(`dispatchOp_writes`).

The regions of one request may overlap, and their lengths are read from the memory themselves.
So a vectored request must not write to the iovec array or the message header it is walking
(`VectorsApart`).
-/

namespace Miring.Dispatch

open Sys Program

/-! ## Regions -/

/-- A byte of the target of the iovec at `iov`. -/
def InTarget (m : UserCells) (iov a : Nat) : Prop :=
  peek m iov 8 ≠ 0 ∧ InBytes (peek m iov 8) (peek m (iov + 8) 8) a

/-- A byte of one of the targets of `n` iovecs. -/
def InTargets (m : UserCells) (iov n a : Nat) : Prop :=
  ∃ i < n, InTarget m (iov + iovecSize * i) a

/-- A byte of a buffer whose address is stored at `ptr`. -/
def InHdrBuf (m : UserCells) (ptr len a : Nat) : Prop :=
  peek m ptr 8 ≠ 0 ∧ InBytes (peek m ptr 8) len a

/-- A byte of the name, of the control data or of a target of the message at `hdr`. -/
def InMsgBufs (m : UserCells) (hdr a : Nat) : Prop :=
  InHdrBuf m (hdr + MsgHdr.msgName) (peek m (hdr + MsgHdr.msgNamelen) 4) a ∨
  InHdrBuf m (hdr + MsgHdr.msgControl) (peek m (hdr + MsgHdr.msgControllen) 8) a ∨
  (peek m (hdr + MsgHdr.msgIov) 8 ≠ 0 ∧
    InTargets m (peek m (hdr + MsgHdr.msgIov) 8) (peek m (hdr + MsgHdr.msgIovlen) 8) a)

/-- `size_of::<[i32; 2]>()` -/
def pipeFdsSize : Nat := 8

/-- The bytes that a request designates for its output. -/
def Output (m : UserCells) (sqe : IoUringSqe) : Nat → Prop :=
  let addr := sqe.addr.toNat
  let off := sqe.off.toNat
  let len := sqe.len.toNat
  match sqe.opcode.toNat with
  | ioringOpRead | ioringOpReadFixed | ioringOpRecv | ioringOpReadMultishot =>
      fun a => addr ≠ 0 ∧ InBytes addr len a
  | ioringOpReadv | ioringOpReadvFixed => fun a => addr ≠ 0 ∧ InTargets m addr len a
  | ioringOpRecvmsg => fun a => addr ≠ 0 ∧ InMsgBufs m addr a
  | ioringOpAccept => fun a =>
      (addr ≠ 0 ∧ off ≠ 0) ∧ (InBytes addr (peek m off 4) a ∨ InBytes off 4 a)
  | ioringOpStatx => fun a => off ≠ 0 ∧ InBytes off statxSize a
  | ioringOpFgetxattr | ioringOpGetxattr => fun a => off ≠ 0 ∧ InBytes off len a
  | ioringOpEpollWait => fun a => addr ≠ 0 ∧ InBytes addr (len * epollEventSize) a
  | ioringOpWaitid => fun a => off ≠ 0 ∧ InBytes off siginfoSize a
  | ioringOpPipe => fun a => addr ≠ 0 ∧ InBytes addr pipeFdsSize a
  | _ => fun _ => False

/-- The iovec array and the header of a vectored request that the kernel writes for are apart
from the buffers they name. -/
def VectorsApart (m : UserCells) (sqe : IoUringSqe) : Prop :=
  let addr := sqe.addr.toNat
  match sqe.opcode.toNat with
  | ioringOpReadv | ioringOpReadvFixed =>
      addr ≠ 0 → ∀ a, InBytes addr (iovecSize * sqe.len.toNat) a →
        ¬ InTargets m addr sqe.len.toNat a
  | ioringOpRecvmsg =>
      addr ≠ 0 → ∀ a, InBytes addr MsgHdr.size a ∨ InMsgIov m addr a → ¬ InMsgBufs m addr a
  | _ => True

/-- The `n` bytes at `p` hold the integer `v`. -/
def HoldsLe (m : UserCells) (p : Nat) : Nat → Nat → Prop
  | 0, v => v = 0
  | n + 1, v => m p = .byte (UInt8.ofNat v) ∧ HoldsLe m (p + 1) n (v / 256)

instance decidableHoldsLe (m : UserCells) : (p n v : Nat) → Decidable (HoldsLe m p n v)
  | _, 0, v => inferInstanceAs (Decidable (v = 0))
  | p, n + 1, v =>
      have := decidableHoldsLe m (p + 1) n (v / 256)
      inferInstanceAs (Decidable (_ ∧ _))

/-! ## Parts of memory -/

section Parts

variable {m m' : UserCells}

theorem InBytes.sub {p q k n a : Nat} (h : InBytes q k a) (hLow : p ≤ q) (hHigh : q + k ≤ p + n) :
    InBytes p n a := by
  obtain ⟨hq, hk⟩ := h
  constructor <;> omega

theorem not_inBytes_zero (p a : Nat) : ¬ InBytes p 0 a := by
  intro h
  obtain ⟨hLow, hHigh⟩ := h
  omega

theorem peek_congr {p n : Nat} (h : ∀ a, InBytes p n a → m' a = m a) : peek m' p n = peek m p n := by
  induction n generalizing p with
  | zero => rfl
  | succ n ih =>
    have hHere : m' p = m p := h p ⟨Nat.le_refl _, by omega⟩
    have hRest := ih (p := p + 1) fun a ha => h a (ha.sub (by omega) (by omega))
    rw [peek, peek, byteAt, byteAt, hHere, hRest]

theorem holdsLe_congr {p n v : Nat} (h : ∀ a, InBytes p n a → m' a = m a)
    (hHolds : HoldsLe m p n v) : HoldsLe m' p n v := by
  induction n generalizing p v with
  | zero => exact hHolds
  | succ n ih =>
    obtain ⟨hByte, hRest⟩ := hHolds
    refine ⟨(h p ⟨Nat.le_refl _, by omega⟩).trans hByte, ?_⟩
    exact ih (fun a ha => h a (ha.sub (by omega) (by omega))) hRest

/-- The first target, and those of the other iovecs. -/
theorem inTargets_succ {iov n a : Nat} : InTargets m iov (n + 1) a ↔
    InTarget m iov a ∨ InTargets m (iov + iovecSize) n a := by
  have hShift : ∀ i, iov + iovecSize * (i + 1) = iov + iovecSize + iovecSize * i := by
    intro i
    rw [Nat.mul_succ]
    omega
  constructor
  · rintro ⟨i, hi, hTarget⟩
    cases i with
    | zero => exact .inl hTarget
    | succ i =>
      rw [hShift] at hTarget
      exact .inr ⟨i, Nat.lt_of_succ_lt_succ hi, hTarget⟩
  · rintro (hTarget | ⟨i, hi, hTarget⟩)
    · exact ⟨0, Nat.succ_pos n, hTarget⟩
    · rw [← hShift] at hTarget
      exact ⟨i + 1, Nat.succ_lt_succ hi, hTarget⟩

/-- The iovecs that are still to be walked are as they were in `m₀`, and no target is among
them. -/
structure ArrayIntact (m₀ m : UserCells) (iov n : Nat) : Prop where
  same : ∀ a, InBytes iov (iovecSize * n) a → m a = m₀ a
  apart : ∀ a, InBytes iov (iovecSize * n) a → ¬ InTargets m₀ iov n a

theorem ArrayIntact.start {iov n : Nat}
    (h : ∀ a, InBytes iov (iovecSize * n) a → ¬ InTargets m iov n a) : ArrayIntact m m iov n :=
  ⟨fun _ _ => rfl, h⟩

section Intact

variable {m₀ m₁ : UserCells} {iov n : Nat} (h : ArrayIntact m₀ m iov (n + 1))
include h

/-- The first iovec. -/
theorem ArrayIntact.head : ∀ a, InBytes iov iovecSize a → m a = m₀ a := by
  intro a ha
  refine h.same a (ha.sub (Nat.le_refl _) ?_)
  rw [Nat.mul_succ]
  omega

/-- Its target is elsewhere. -/
theorem ArrayIntact.ownTarget : ∀ a, InBytes iov iovecSize a → ¬ InTarget m₀ iov a := by
  intro a ha hTarget
  refine h.apart a (ha.sub (Nat.le_refl _) ?_) (inTargets_succ.mpr (.inl hTarget))
  rw [Nat.mul_succ]
  omega

theorem ArrayIntact.inTarget (a : Nat) : InTarget m iov a ↔ InTarget m₀ iov a := by
  have hField : ∀ k, k ≤ 8 → peek m (iov + k) 8 = peek m₀ (iov + k) 8 := by
    intro k hk
    refine peek_congr fun b hb => h.head b (hb.sub (by omega) ?_)
    unfold iovecSize
    omega
  have hBase := hField 0 (by decide)
  rw [Nat.add_zero] at hBase
  rw [InTarget, InTarget, hBase, hField 8 (by decide)]

/-- The other iovecs stay intact while the first target is written. -/
theorem ArrayIntact.tail (hFilled : Filled (InTarget m₀ iov) 0 m m₁) :
    ArrayIntact m₀ m₁ (iov + iovecSize) n := by
  have hRest : ∀ a, InBytes (iov + iovecSize) (iovecSize * n) a →
      InBytes iov (iovecSize * (n + 1)) a := by
    intro a ha
    refine ha.sub (by omega) ?_
    rw [Nat.mul_succ]
    omega
  constructor
  · intro a ha
    have hNot := mt inTargets_succ.mpr (h.apart a (hRest a ha))
    exact (hFilled.outside a (not_or.mp hNot).1).trans (h.same a (hRest a ha))
  · intro a ha hTarget
    exact h.apart a (hRest a ha) (inTargets_succ.mpr (.inr hTarget))

end Intact

end Parts

/-! ## Programs that only read -/

section Readers

variable {touch : Nat → Nat → UserProgram Unit}

theorem keeps_readU8 (p : Nat) : Keeps (readU8 p) := .read p

theorem keeps_readLe (p n : Nat) : Keeps (readLe p n) := by
  intro m tr v m' hRun
  exact (runs_readLe hRun).2

theorem keeps_readBytes (p n : Nat) : Keeps (readBytes p n) := by
  intro m tr u m' hRun
  exact readTouch.runs hRun

theorem keeps_walkCstr (p : Nat) : Keeps (walkCstr p) := by
  unfold walkCstr
  generalize 2 ^ 64 - p = fuel
  induction fuel generalizing p with
  | zero => exact (keeps_readU8 p).bind fun _ => .ret ()
  | succ fuel ih => exact (keeps_readU8 p).bind fun _ => .ite (.ret ()) (ih (p + 1))

theorem keeps_walkIovec (hTouch : ∀ p n, Keeps (touch p n)) (iov total : Nat) :
    Keeps (walkIovec touch iov total) := by
  refine (keeps_readLe iov 8).bind fun base => .ite (.ret total) ?_
  refine (keeps_readLe (iov + 8) 8).bind fun len => .ite (.ret total) ?_
  exact (hTouch base len).bind fun _ => (keeps_readLe (iov + 8) 8).bind fun _ => .ret _

theorem keeps_walkIovecs (hTouch : ∀ p n, Keeps (touch p n)) (iov n total : Nat) :
    Keeps (walkIovecs touch iov n total) := by
  induction n generalizing iov total with
  | zero => exact .ret total
  | succ n ih =>
    exact (keeps_walkIovec hTouch iov total).bind fun total => ih (iov + iovecSize) total

theorem keeps_walkHdrBuf (hTouch : ∀ p n, Keeps (touch p n)) (ptr : Nat) {len : UserProgram Nat}
    (hLen : Keeps len) : Keeps (walkHdrBuf touch ptr len) := by
  refine (keeps_readLe ptr 8).bind fun base => .ite (.ret ()) ?_
  exact hLen.bind fun n => .ite (.ret ()) (hTouch base n)

theorem keeps_walkMsgHdr (hTouch : ∀ p n, Keeps (touch p n)) (hdr : Nat) :
    Keeps (walkMsgHdr touch hdr) := by
  refine (keeps_walkHdrBuf hTouch _ (keeps_readLe _ 4)).bind fun _ => ?_
  refine (keeps_walkHdrBuf hTouch _ (keeps_readLe _ 8)).bind fun _ => ?_
  refine (keeps_readLe _ 8).bind fun iov => .ite (.ret _) ?_
  refine (keeps_readLe _ 8).bind fun n => .ite (.ret _) ?_
  exact (keeps_walkIovecs hTouch iov n 0).bind fun _ => .ret _

theorem keeps_walkFutexWaitv (p n : Nat) : Keeps (walkFutexWaitv p n) := by
  induction n generalizing p with
  | zero => exact .ret ()
  | succ n ih => exact (keeps_readBytes p 20).bind fun _ => ih (p + futexWaitvSize)

variable (sqe : IoUringSqe)

theorem keeps_dispatchNop : Keeps (dispatchNop sqe) := .ite (.ret _) (.ret _)

theorem keeps_dispatchBufSink : Keeps (dispatchBufSink sqe) :=
  .ite (.ret _) ((keeps_readBytes _ _).bind fun _ => .ret _)

theorem keeps_dispatchWritev : Keeps (dispatchWritev sqe) :=
  .ite (.ret _) ((keeps_walkIovecs keeps_readBytes _ _ 0).bind fun _ => .ret _)

theorem keeps_dispatchSendmsg : Keeps (dispatchSendmsg sqe) :=
  .ite (.ret _) (keeps_walkMsgHdr keeps_readBytes _)

theorem keeps_dispatchTimeout : Keeps (dispatchTimeout sqe) :=
  .ite (.ret _) ((keeps_readBytes _ _).bind fun _ => .ret _)

theorem keeps_dispatchConnect : Keeps (dispatchConnect sqe) :=
  .ite (.ret _) ((keeps_readBytes _ _).bind fun _ => .ret _)

theorem keeps_dispatchOpenat : Keeps (dispatchOpenat sqe) :=
  .ite (.ret _) ((keeps_walkCstr _).bind fun _ => .ret _)

theorem keeps_dispatchOpenat2 : Keeps (dispatchOpenat2 sqe) := by
  refine .ite (.ret _) ((keeps_walkCstr _).bind fun _ => ?_)
  exact Keeps.bind (.ite (.ret _) (keeps_readBytes _ _)) fun _ => .ret _

theorem keeps_dispatchPathname : Keeps (dispatchPathname sqe) :=
  .ite (.ret _) ((keeps_walkCstr _).bind fun _ => .ret _)

theorem keeps_dispatchPathname2 : Keeps (dispatchPathname2 sqe) :=
  .ite (.ret _) ((keeps_walkCstr _).bind fun _ => (keeps_walkCstr _).bind fun _ => .ret _)

theorem keeps_dispatchEpollCtl : Keeps (dispatchEpollCtl sqe) :=
  .ite (.ret _) ((keeps_readBytes _ _).bind fun _ => .ret _)

theorem keeps_dispatchFilesUpdate : Keeps (dispatchFilesUpdate sqe) :=
  .ite (.ret _) ((keeps_readBytes _ _).bind fun _ => .ret _)

theorem keeps_dispatchProvideBuffers : Keeps (dispatchProvideBuffers sqe) :=
  .ite (.ret _) ((keeps_readU8 _).bind fun _ => (keeps_readU8 _).bind fun _ => .ret _)

theorem keeps_dispatchXattrSet : Keeps (dispatchXattrSet sqe) := by
  refine Keeps.bind (.ite (.ret _) (keeps_walkCstr _)) fun _ => ?_
  refine Keeps.bind (.ite (.ret _) (keeps_readBytes _ _)) fun _ => ?_
  exact Keeps.bind (.ite (.ret _) (keeps_walkCstr _)) fun _ => .ret _

theorem keeps_dispatchFutexRead : Keeps (dispatchFutexRead sqe) :=
  .ite (.ret _) ((keeps_readLe _ 4).bind fun _ => .ret _)

theorem keeps_dispatchFutexWaitv : Keeps (dispatchFutexWaitv sqe) :=
  .ite (.ret _) ((keeps_walkFutexWaitv _ _).bind fun _ => .ret _)

end Readers

/-! ## Programs that write -/

section Writers

variable {m m₀ : UserCells}

/-- Behind the read of an integer. -/
theorem sets_readLe_bind {α : Type} {p n : Nat} {f : Nat → UserProgram α} {R : Nat → Prop}
    {v : UInt8} (h : Sets (f (peek m p n)) m R v) : Sets (readLe p n >>= f) m R v := by
  intro tr a m' hRun
  obtain ⟨tr', hRest⟩ := runs_readLe_bind hRun
  exact h tr' a m' hRest

theorem filled_zeroed (m : UserCells) (p n : Nat) : Filled (InBytes p n) 0 m (zeroed m p n) :=
  ⟨fun _ ha => if_pos ha, fun _ ha => if_neg ha⟩

theorem sets_fill (p n : Nat) : Sets (fill p n) m (InBytes p n) 0 := by
  intro tr u m' hRun
  rw [show m' = zeroed m p n from fillTouch.runs hRun]
  exact filled_zeroed m p n

/-- `if !ptr.is_null() && len > 0 { slice.fill(0) }` -/
theorem sets_fill_unless {c : Prop} [Decidable c] (p n : Nat) (hn : c → n = 0) :
    Sets (if c then pure () else fill p n) m (InBytes p n) 0 := by
  refine (Sets.guarded fun _ => sets_fill p n).congr fun a => ?_
  refine ⟨fun ha => ⟨fun hc => ?_, ha⟩, And.right⟩
  rw [hn hc] at ha
  exact not_inBytes_zero p a ha

theorem sets_walkIovec (iov total : Nat) :
    Sets (walkIovec fill iov total) m (InTarget m iov) 0 := by
  refine sets_readLe_bind (Sets.guarded fun hBase => sets_readLe_bind ?_)
  have hLast : ∀ u : Unit, Keeps (readUsize (iov + 8) >>= fun added =>
      pure (saturatingAdd total added)) :=
    fun _ => (keeps_readLe (iov + 8) 8).bind fun _ => .ret _
  refine (Sets.guarded fun hLen => (sets_fill _ _).before hLast).congr fun a => ?_
  refine ⟨fun ha => ⟨fun hZero => ?_, ha⟩, And.right⟩
  rw [hZero] at ha
  exact not_inBytes_zero _ a ha

/-- The loop over the iovecs, by induction on their number. -/
theorem sets_walkIovecs {iov n : Nat} (total : Nat) (h : ArrayIntact m₀ m iov n) :
    Sets (walkIovecs fill iov n total) m (InTargets m₀ iov n) 0 := by
  induction n generalizing iov m total with
  | zero =>
    refine (Sets.of_keeps (.ret total) m 0).congr fun a => iff_of_false ?_ id
    rintro ⟨i, hi, -⟩
    exact absurd hi (Nat.not_lt_zero i)
  | succ n ih =>
    have hFirst : Sets (walkIovec fill iov total) m (InTarget m₀ iov) 0 :=
      (sets_walkIovec iov total).congr fun a => (h.inTarget a).symm
    refine (hFirst.bind fun total' m₁ hFilled => ?_).congr fun a => inTargets_succ
    exact ih total' (h.tail hFilled)

theorem sets_walkHdrBuf (ptr q k : Nat) : Sets (walkHdrBuf fill ptr (readLe q k)) m
    (InHdrBuf m ptr (peek m q k)) 0 := by
  refine sets_readLe_bind (Sets.guarded fun hBase => sets_readLe_bind ?_)
  exact sets_fill_unless _ _ id

/-- A field of a message header. -/
theorem peek_header {m' : UserCells} {hdr : Nat}
    (h : ∀ a, InBytes hdr MsgHdr.size a → m' a = m a) {k n : Nat} (hField : k + n ≤ MsgHdr.size) :
    peek m' (hdr + k) n = peek m (hdr + k) n := by
  refine peek_congr fun a ha => h a (ha.sub (by omega) ?_)
  omega

/-- The header stays as it was while the name and the control data are written, and the iovec
array until its targets are. -/
theorem sets_walkMsgHdr {hdr : Nat}
    (hApart : ∀ a, InBytes hdr MsgHdr.size a ∨ InMsgIov m hdr a → ¬ InMsgBufs m hdr a) :
    Sets (walkMsgHdr fill hdr) m (InMsgBufs m hdr) 0 := by
  refine (sets_walkHdrBuf _ _ 4).bind fun _ m₁ hName => ?_
  have hKept₁ : ∀ a, InBytes hdr MsgHdr.size a ∨ InMsgIov m hdr a → m₁ a = m a :=
    fun a ha => hName.outside a fun h => hApart a ha (.inl h)
  have hHeader₁ : ∀ a, InBytes hdr MsgHdr.size a → m₁ a = m a := fun a ha => hKept₁ a (.inl ha)
  have hControl : ∀ a, InHdrBuf m₁ (hdr + MsgHdr.msgControl)
      (peek m₁ (hdr + MsgHdr.msgControllen) 8) a ↔ InHdrBuf m (hdr + MsgHdr.msgControl)
      (peek m (hdr + MsgHdr.msgControllen) 8) a := by
    intro a
    rw [InHdrBuf, InHdrBuf, peek_header hHeader₁ (by decide), peek_header hHeader₁ (by decide)]
  refine Sets.bind ((sets_walkHdrBuf _ _ 8).congr fun a => (hControl a).symm)
    fun _ m₂ hControlled => ?_
  have hKept₂ : ∀ a, InBytes hdr MsgHdr.size a ∨ InMsgIov m hdr a → m₂ a = m a :=
    fun a ha => (hControlled.outside a fun h => hApart a ha (.inr (.inl h))).trans (hKept₁ a ha)
  have hHeader₂ : ∀ a, InBytes hdr MsgHdr.size a → m₂ a = m a := fun a ha => hKept₂ a (.inl ha)
  -- the iovec array
  have hIov : peek m₂ (hdr + MsgHdr.msgIov) 8 = peek m (hdr + MsgHdr.msgIov) 8 :=
    peek_header hHeader₂ (by decide)
  have hIovlen : peek m₂ (hdr + MsgHdr.msgIovlen) 8 = peek m (hdr + MsgHdr.msgIovlen) 8 :=
    peek_header hHeader₂ (by decide)
  refine sets_readLe_bind ?_
  rw [hIov]
  refine Sets.guarded fun hBase => sets_readLe_bind ?_
  rw [hIovlen]
  have hLoop : ∀ k, Sets (walkIovecs fill (peek m (hdr + MsgHdr.msgIov) 8)
      (peek m (hdr + MsgHdr.msgIovlen) 8) k) m₂ (InTargets m (peek m (hdr + MsgHdr.msgIov) 8)
      (peek m (hdr + MsgHdr.msgIovlen) 8)) 0 := by
    intro k
    refine sets_walkIovecs k ⟨?_, ?_⟩
    · intro a ha
      exact hKept₂ a (.inr ⟨hBase, ha⟩)
    · intro a ha hTarget
      exact hApart a (.inr ⟨hBase, ha⟩) (.inr (.inr ⟨hBase, hTarget⟩))
  refine (Sets.guarded fun _ => (hLoop 0).before fun _ => .ret _).congr fun a => ?_
  refine ⟨fun hTarget => ⟨fun hZero => ?_, hTarget⟩, And.right⟩
  obtain ⟨i, hi, -⟩ := hTarget
  omega

/-! ### The handlers -/

variable {sqe : IoUringSqe}

theorem sets_dispatchBufFill : Sets (dispatchBufFill sqe) m
    (fun a => sqe.addr.toNat ≠ 0 ∧ InBytes sqe.addr.toNat sqe.len.toNat a) 0 := by
  refine (Sets.guarded fun _ => (sets_fill _ _).before fun _ => .ret _).congr fun a => ?_
  unfold InBytes
  omega

theorem sets_dispatchReadv
    (hApart : sqe.addr.toNat ≠ 0 → ∀ a, InBytes sqe.addr.toNat (iovecSize * sqe.len.toNat) a →
      ¬ InTargets m sqe.addr.toNat sqe.len.toNat a) :
    Sets (dispatchReadv sqe) m
      (fun a => sqe.addr.toNat ≠ 0 ∧ InTargets m sqe.addr.toNat sqe.len.toNat a) 0 := by
  refine (Sets.guarded fun hNull => (sets_walkIovecs 0
    (.start (hApart (not_or.mp hNull).1))).before fun _ => .ret _).congr fun a => ?_
  refine ⟨?_, fun h => ⟨(not_or.mp h.1).1, h.2⟩⟩
  rintro ⟨hAddr, i, hi, hTarget⟩
  exact ⟨by omega, i, hi, hTarget⟩

theorem sets_dispatchRecvmsg
    (hApart : sqe.addr.toNat ≠ 0 → ∀ a, InBytes sqe.addr.toNat MsgHdr.size a ∨
      InMsgIov m sqe.addr.toNat a → ¬ InMsgBufs m sqe.addr.toNat a) :
    Sets (dispatchRecvmsg sqe) m (fun a => sqe.addr.toNat ≠ 0 ∧ InMsgBufs m sqe.addr.toNat a) 0 :=
  .guarded fun hNull => sets_walkMsgHdr (hApart hNull)

theorem writeLe_zero (p n : Nat) : writeLe p n 0 = fill p n := by
  induction n generalizing p with
  | zero => rfl
  | succ n ih =>
    rw [writeLe, fill, Nat.zero_div, ih]
    rfl

/-- The length is read before anything is written, and zeroed in the end. -/
theorem sets_dispatchAccept : Sets (dispatchAccept sqe) m (fun a =>
    (sqe.addr.toNat ≠ 0 ∧ sqe.off.toNat ≠ 0) ∧ (InBytes sqe.addr.toNat
      (peek m sqe.off.toNat 4) a ∨ InBytes sqe.off.toNat 4 a)) 0 := by
  unfold dispatchAccept
  by_cases hGiven : sqe.addr.toNat ≠ 0 ∧ sqe.off.toNat ≠ 0
  · rw [if_pos hGiven]
    refine Sets.congr (sets_readLe_bind (Sets.bind (sets_fill_unless _ _ id) fun _ m₁ _ => ?_))
      fun a => and_iff_right hGiven
    rw [writeLe_zero]
    exact (sets_fill _ 4).before fun _ => .ret _
  · rw [if_neg hGiven]
    exact (Sets.of_keeps (.ret _) m 0).congr fun a => iff_of_false (fun h => hGiven h.1) id

theorem sets_dispatchStatx : Sets (dispatchStatx sqe) m
    (fun a => sqe.off.toNat ≠ 0 ∧ InBytes sqe.off.toNat statxSize a) 0 := by
  refine Sets.behind (.ite (.ret _) (keeps_walkCstr _)) fun _ => ?_
  exact (Sets.guarded fun _ => sets_fill _ _).before fun _ => .ret _

theorem sets_dispatchXattrGet : Sets (dispatchXattrGet sqe) m
    (fun a => sqe.off.toNat ≠ 0 ∧ InBytes sqe.off.toNat sqe.len.toNat a) 0 := by
  refine Sets.behind (.ite (.ret _) (keeps_walkCstr _)) fun _ => ?_
  refine Sets.before (.congr (.guarded fun _ => sets_fill _ _) fun a => ?_) fun _ => ?_
  · unfold InBytes
    omega
  · exact Keeps.bind (.ite (.ret _) (keeps_walkCstr _)) fun _ => .ret _

theorem sets_dispatchEpollWait : Sets (dispatchEpollWait sqe) m
    (fun a => sqe.addr.toNat ≠ 0 ∧ InBytes sqe.addr.toNat (sqe.len.toNat * epollEventSize) a)
    0 := by
  refine (Sets.guarded fun _ => (sets_fill _ _).before fun _ => .ret _).congr fun a => ?_
  unfold InBytes epollEventSize
  omega

theorem sets_dispatchWaitid : Sets (dispatchWaitid sqe) m
    (fun a => sqe.off.toNat ≠ 0 ∧ InBytes sqe.off.toNat siginfoSize a) 0 :=
  (Sets.guarded fun _ => sets_fill _ _).before fun _ => .ret _

/-! ### Pipe -/

/-- A written integer. -/
theorem runs_writeLe {p n v : Nat} {m' : UserCells} {tr : List (Event userSig)} {u : Unit}
    (hRun : Runs (writeLe p n v) m tr u m') (hv : v < 256 ^ n) :
    HoldsLe m' p n v ∧ ∀ a, ¬ InBytes p n a → m' a = m a := by
  induction n generalizing p v m tr with
  | zero =>
    obtain ⟨-, rfl⟩ := runs_ret hRun
    exact ⟨Nat.lt_one_iff.mp hv, fun _ _ => rfl⟩
  | succ n ih =>
    obtain ⟨tr', hRest⟩ := runs_write_bind hRun
    have hHigh : v / 256 < 256 ^ n := by
      rw [Nat.pow_succ, Nat.mul_comm] at hv
      exact Nat.div_lt_of_lt_mul hv
    obtain ⟨hHolds, hFrame⟩ := ih hRest hHigh
    refine ⟨⟨?_, hHolds⟩, fun a ha => ?_⟩
    · rw [hFrame p fun h => by unfold InBytes at h; omega, Function.update_self]
    · have hNe : a ≠ p := fun h => ha (by unfold InBytes; omega)
      rw [hFrame a fun h => ha (h.sub (by omega) (by omega)), Function.update_of_ne hNe]

/-- The two descriptors. -/
theorem runs_dispatchPipe {m' : UserCells} {tr : List (Event userSig)} {r : Int32}
    (hRun : Runs (dispatchPipe sqe) m tr r m') :
    (sqe.addr.toNat ≠ 0 →
      HoldsLe m' sqe.addr.toNat 4 42 ∧ HoldsLe m' (sqe.addr.toNat + 4) 4 43) ∧
    ∀ a, ¬ (sqe.addr.toNat ≠ 0 ∧ InBytes sqe.addr.toNat pipeFdsSize a) → m' a = m a := by
  unfold dispatchPipe at hRun
  by_cases hNull : sqe.addr.toNat = 0
  · rw [if_pos hNull] at hRun
    obtain ⟨-, rfl⟩ := runs_ret hRun
    exact ⟨fun h => absurd hNull h, fun _ _ => rfl⟩
  · rw [if_neg hNull] at hRun
    obtain ⟨tr₁, _, m₁, tr₂, hFirst, hRest⟩ := runs_bind hRun
    obtain ⟨tr₃, _, m₂, tr₄, hSecond, hRet⟩ := runs_bind hRest
    obtain ⟨-, rfl⟩ := runs_ret hRet
    obtain ⟨hFd, hFrame⟩ := runs_writeLe hFirst (by decide)
    obtain ⟨hFd', hFrame'⟩ := runs_writeLe hSecond (by decide)
    refine ⟨fun _ => ⟨?_, hFd'⟩, fun a ha => ?_⟩
    · refine holdsLe_congr (fun a ha => hFrame' a fun h => ?_) hFd
      unfold InBytes at ha h
      omega
    · have hOut : ¬ InBytes sqe.addr.toNat 8 a := fun h => ha ⟨hNull, h⟩
      rw [hFrame' a fun h => hOut (h.sub (by omega) (by omega)),
        hFrame a fun h => hOut (h.sub (by omega) (by omega))]

end Writers

/-! ## The result -/

section Result

variable {sqe : IoUringSqe} {m : UserCells}

/-- One case for each handler. -/
theorem sets_dispatchOp (hApart : VectorsApart m sqe) (hPipe : sqe.opcode.toNat ≠ ioringOpPipe) :
    Sets (dispatchOp sqe) m (Output m sqe) 0 := by
  have hKeeps : ∀ {p : UserProgram Int32}, Keeps p → Sets p m (fun _ => False) 0 :=
    fun h => .of_keeps h m 0
  unfold VectorsApart at hApart
  unfold dispatchOp Output
  split
  case h_2 hOp | h_3 hOp | h_4 hOp | h_37 hOp =>
    rw [hOp]
    exact sets_dispatchBufFill
  case h_9 hOp | h_35 hOp =>
    rw [hOp] at hApart ⊢
    exact sets_dispatchReadv hApart
  case h_11 hOp =>
    rw [hOp] at hApart ⊢
    exact sets_dispatchRecvmsg hApart
  case h_17 hOp =>
    rw [hOp]
    exact sets_dispatchAccept
  case h_20 hOp =>
    rw [hOp]
    exact sets_dispatchStatx
  case h_32 hOp | h_33 hOp =>
    rw [hOp]
    exact sets_dispatchXattrGet
  case h_34 hOp =>
    rw [hOp]
    exact sets_dispatchEpollWait
  case h_41 hOp =>
    rw [hOp]
    exact sets_dispatchWaitid
  case h_42 hOp => exact absurd hOp hPipe
  -- the handlers that only read
  case h_1 hOp =>
    rw [hOp]
    exact hKeeps (keeps_dispatchNop sqe)
  case h_5 hOp | h_6 hOp | h_7 hOp | h_8 hOp =>
    rw [hOp]
    exact hKeeps (keeps_dispatchBufSink sqe)
  case h_10 hOp | h_36 hOp =>
    rw [hOp]
    exact hKeeps (keeps_dispatchWritev sqe)
  case h_12 hOp | h_13 hOp =>
    rw [hOp]
    exact hKeeps (keeps_dispatchSendmsg sqe)
  case h_14 hOp | h_15 hOp =>
    rw [hOp]
    exact hKeeps (keeps_dispatchTimeout sqe)
  case h_16 hOp | h_26 hOp =>
    rw [hOp]
    exact hKeeps (keeps_dispatchConnect sqe)
  case h_18 hOp =>
    rw [hOp]
    exact hKeeps (keeps_dispatchOpenat sqe)
  case h_19 hOp =>
    rw [hOp]
    exact hKeeps (keeps_dispatchOpenat2 sqe)
  case h_21 hOp | h_22 hOp =>
    rw [hOp]
    exact hKeeps (keeps_dispatchPathname sqe)
  case h_23 hOp | h_24 hOp | h_25 hOp =>
    rw [hOp]
    exact hKeeps (keeps_dispatchPathname2 sqe)
  case h_27 hOp =>
    rw [hOp]
    exact hKeeps (keeps_dispatchEpollCtl sqe)
  case h_28 hOp =>
    rw [hOp]
    exact hKeeps (keeps_dispatchFilesUpdate sqe)
  case h_29 hOp =>
    rw [hOp]
    exact hKeeps (keeps_dispatchProvideBuffers sqe)
  case h_30 hOp | h_31 hOp =>
    rw [hOp]
    exact hKeeps (keeps_dispatchXattrSet sqe)
  case h_38 hOp | h_39 hOp =>
    rw [hOp]
    exact hKeeps (keeps_dispatchFutexRead sqe)
  case h_40 hOp =>
    rw [hOp]
    exact hKeeps (keeps_dispatchFutexWaitv sqe)
  case h_64 =>
    split
    all_goals first | exact hKeeps (.ret _) | contradiction
  -- the handlers that answer a constant
  all_goals
    next hOp =>
      rw [hOp]
      exact hKeeps (.ret _)

/-- **A dispatch writes where the request says**: every completed dispatch leaves the bytes
outside of the output as they were, and zeros in it; the output of PIPE are two descriptors. -/
theorem dispatchOp_writes (hApart : VectorsApart m sqe) {m' : UserCells}
    {tr : List (Event userSig)} {r : Int32} (hRun : Runs (dispatchOp sqe) m tr r m') :
    (∀ a, ¬ Output m sqe a → m' a = m a) ∧
    (sqe.opcode.toNat ≠ ioringOpPipe → ∀ a, Output m sqe a → m' a = .byte 0) ∧
    (sqe.opcode.toNat = ioringOpPipe → sqe.addr.toNat ≠ 0 →
      HoldsLe m' sqe.addr.toNat 4 42 ∧ HoldsLe m' (sqe.addr.toNat + 4) 4 43) := by
  by_cases hPipe : sqe.opcode.toNat = ioringOpPipe
  · rw [dispatchOp, hPipe] at hRun
    obtain ⟨hFds, hFrame⟩ := runs_dispatchPipe hRun
    refine ⟨fun a ha => hFrame a ?_, fun h => absurd hPipe h, fun _ => hFds⟩
    rw [Output, hPipe] at ha
    exact ha
  · have hFilled := sets_dispatchOp hApart hPipe tr r m' hRun
    exact ⟨hFilled.outside, fun _ => hFilled.inside, fun h => absurd h hPipe⟩

/-! ### A request with overlapping targets -/

/-- The bytes `bs` at `p`. -/
def placed (m : UserCells) (p : Nat) (bs : List UInt8) : UserCells := fun a =>
  if p ≤ a then (bs[a - p]?).elim (m a) .byte else m a

/-- The bytes of an iovec array. -/
def iovecArray (iovs : List (Nat × Nat)) : List UInt8 :=
  iovs.flatMap fun iov => Bytes.leBytes 8 iov.1 ++ Bytes.leBytes 8 iov.2

/-- A memory that is mapped below 16384, with four iovecs at 8192 (a null base, no length, and
two that overlap) and at 4096 the header of a message that has these iovecs and nothing else. -/
def scatterMem : UserCells :=
  let mapped : UserCells := fun a => if a < 16384 then .byte 7 else .unmapped
  placed (placed mapped 8192 (iovecArray [(0, 5), (12288, 0), (12288, 4), (12290, 4)])) 4096
    ([0, 0, 8192, 4, 0, 0, 0].flatMap (Bytes.leBytes 8))

/-- A READV of these iovecs. -/
def scatterReadv : IoUringSqe := { opcode := 1, addr := 8192, len := 4 }

theorem scatterMem_targets {a : Nat} (h : InTargets scatterMem 8192 4 a) :
    12288 ≤ a ∧ a < 12294 := by
  have hAll : ∀ i < 4, peek scatterMem (8192 + iovecSize * i) 8 ≠ 0 →
      12288 ≤ peek scatterMem (8192 + iovecSize * i) 8 ∧
        peek scatterMem (8192 + iovecSize * i) 8 +
          peek scatterMem (8192 + iovecSize * i + 8) 8 ≤ 12294 := by
    decide +kernel
  obtain ⟨i, hi, hBase, hLow, hHigh⟩ := h
  obtain ⟨hFirst, hLast⟩ := hAll i hi hBase
  constructor <;> omega

theorem scatterMem_apart (a : Nat) (ha : InBytes 8192 (iovecSize * 4) a) :
    ¬ InTargets scatterMem 8192 4 a := by
  intro hTarget
  have hLow := (scatterMem_targets hTarget).1
  have hHigh := ha.2
  unfold iovecSize at hHigh
  omega

theorem dispatchOp_writes_readv : ∃ tr m', Runs (dispatchOp scatterReadv) scatterMem tr 8 m' ∧
    m' 12293 = .byte 0 ∧ m' 12294 = .byte 7 := by
  have hResult : (exec memSem (dispatchOp scatterReadv) scatterMem).map (fun x => x.2.1) =
      some 8 := by
    decide +kernel
  obtain ⟨⟨tr, r, m'⟩, hRun, rfl⟩ := Option.map_eq_some_iff.mp hResult
  have hApart : VectorsApart scatterMem scatterReadv := fun _ => scatterMem_apart
  obtain ⟨hFrame, hZero, -⟩ := dispatchOp_writes hApart hRun
  refine ⟨tr, m', hRun, hZero (by decide) 12293 ?_, (hFrame 12294 ?_).trans (by decide +kernel)⟩
  · -- a byte of the last target only
    exact ⟨by decide, 3, by decide, by decide +kernel, by decide +kernel, by decide +kernel⟩
  · intro hOut
    have hLow := scatterMem_targets hOut.2
    omega

end Result

end Miring.Dispatch
