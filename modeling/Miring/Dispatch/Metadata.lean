import Miring.Dispatch.Touched

/-!
# Metadata of requests

Beside the buffers it transfers, a request may point to metadata: an iovec array, a message
header, a timespec, a socket address, a pathname or an `open_how`. A request that bears such
metadata reads it when it is dispatched (`reaches_of_bears`). The result of any other request
is decided by its submission queue entry (`gives_dispatchOp`).
-/

namespace Miring.Dispatch

open Sys Program Trace

/-! ## Metadata -/

/-- One of the `n` bytes at `p`. -/
def InBytes (p n a : Nat) : Prop := p ≤ a ∧ a < p + n

/-- A byte of the NUL-terminated string at `p`, the NUL included. -/
def InCstr (m : UserCells) (p a : Nat) : Prop :=
  p ≤ a ∧ ∀ q, p ≤ q → q < a → byteAt m q ≠ 0

/-- A byte of the iovec array of the message header at `hdr`. -/
def InMsgIov (m : UserCells) (hdr a : Nat) : Prop :=
  let iov := peek m (hdr + MsgHdr.msgIov) 8
  iov ≠ 0 ∧ InBytes iov (iovecSize * peek m (hdr + MsgHdr.msgIovlen) 8) a

/-- A byte of the metadata of a request in the memory `m`. -/
def Metadata (m : UserCells) (sqe : IoUringSqe) (a : Nat) : Prop :=
  let addr := sqe.addr.toNat
  let off := sqe.off.toNat
  match sqe.opcode.toNat with
  | ioringOpReadv | ioringOpWritev | ioringOpReadvFixed | ioringOpWritevFixed =>
      addr ≠ 0 ∧ InBytes addr (iovecSize * sqe.len.toNat) a
  | ioringOpRecvmsg | ioringOpSendmsg | ioringOpSendmsgZc =>
      addr ≠ 0 ∧ (InBytes addr MsgHdr.size a ∨ InMsgIov m addr a)
  | ioringOpTimeout | ioringOpLinkTimeout => addr ≠ 0 ∧ InBytes addr timespecSize a
  | ioringOpConnect | ioringOpBind => addr ≠ 0 ∧ InBytes addr off a
  | ioringOpOpenat => addr ≠ 0 ∧ InCstr m addr a
  | ioringOpOpenat2 => (addr ≠ 0 ∧ InCstr m addr a) ∨ (off ≠ 0 ∧ InBytes off openHowSize a)
  | _ => False

/-- The pointer to the metadata is not null, and neither is its length. -/
def BearsMetadata (sqe : IoUringSqe) : Prop :=
  match sqe.opcode.toNat with
  | ioringOpReadv | ioringOpWritev | ioringOpReadvFixed | ioringOpWritevFixed =>
      sqe.addr.toNat ≠ 0 ∧ sqe.len.toNat ≠ 0
  | ioringOpRecvmsg | ioringOpSendmsg | ioringOpSendmsgZc | ioringOpTimeout
  | ioringOpLinkTimeout | ioringOpOpenat | ioringOpOpenat2 => sqe.addr.toNat ≠ 0
  | ioringOpConnect | ioringOpBind => sqe.addr.toNat ≠ 0 ∧ sqe.off.toNat ≠ 0
  | _ => False

/-- A request that bears no metadata and fails: a null pointer, a length that is negative as an
`i32`, or an opcode that is not handled. -/
def Fails (sqe : IoUringSqe) : Prop :=
  match sqe.opcode.toNat with
  | ioringOpNop => sqe.opFlags &&& ioringNopInjectResult ≠ 0 ∧ 2 ^ 31 ≤ sqe.len.toNat
  | ioringOpRead | ioringOpReadFixed | ioringOpRecv | ioringOpReadMultishot | ioringOpWrite
  | ioringOpWriteFixed | ioringOpSend | ioringOpSendZc | ioringOpFilesUpdate =>
      sqe.addr.toNat ≠ 0 ∧ 2 ^ 31 ≤ sqe.len.toNat
  | ioringOpFgetxattr | ioringOpGetxattr => 2 ^ 31 ≤ sqe.len.toNat
  | ioringOpUnlinkat | ioringOpMkdirat | ioringOpFutexWait | ioringOpFutexWake | ioringOpPipe =>
      sqe.addr.toNat = 0
  | ioringOpRenameat | ioringOpSymlinkat | ioringOpLinkat =>
      sqe.addr.toNat = 0 ∨ sqe.off.toNat = 0
  | ioringOpFutexWaitv => sqe.addr.toNat = 0 ∨ sqe.len.toNat = 0
  | ioringOpReadv | ioringOpWritev | ioringOpReadvFixed | ioringOpWritevFixed | ioringOpAccept
  | ioringOpStatx | ioringOpEpollCtl | ioringOpProvideBuffers | ioringOpFsetxattr
  | ioringOpSetxattr | ioringOpEpollWait | ioringOpWaitid | ioringOpClose | ioringOpFsync
  | ioringOpSyncFileRange | ioringOpFallocate | ioringOpFtruncate | ioringOpShutdown
  | ioringOpPollAdd | ioringOpPollRemove | ioringOpAsyncCancel | ioringOpTimeoutRemove
  | ioringOpSplice | ioringOpTee | ioringOpRemoveBuffers | ioringOpFadvise | ioringOpMadvise
  | ioringOpMsgRing | ioringOpListen | ioringOpUringCmd | ioringOpRecvZc | ioringOpSocket
  | ioringOpFixedFdInstall => False
  | _ => True

/-! ## The results of requests without metadata -/

section Answers

theorem asI32_neg_iff {n : Nat} (h : n < 2 ^ 32) : asI32 n < 0 ↔ 2 ^ 31 ≤ n := by
  rw [← not_iff_not, Int32.not_lt, nonneg_iff, toInt_asI32]
  split <;> omega

variable {sqe : IoUringSqe} {c B : Prop} [Decidable c]

theorem gives_dispatchNop : Gives (dispatchNop sqe) fun r =>
    r < 0 ↔ sqe.opFlags &&& ioringNopInjectResult ≠ 0 ∧ 2 ^ 31 ≤ sqe.len.toNat := by
  refine .ite (fun hInject => .ret ?_) fun hPlain => .ret ?_
  · rw [asI32_neg_iff (UInt32.toNat_lt _)]
    exact (and_iff_right hInject).symm
  · exact iff_of_false (by decide) fun h => hPlain h.1

/-- A handler that answers the length. -/
theorem gives_len {walk : UserProgram Unit} (h : Silent walk) :
    Gives (if sqe.addr.toNat = 0 ∨ sqe.len.toNat = 0 then pure 0 else do
      walk
      pure (asI32 sqe.len.toNat)) fun r => r < 0 ↔ sqe.addr.toNat ≠ 0 ∧ 2 ^ 31 ≤ sqe.len.toNat := by
  refine .ite (fun hNull => .ret ?_) fun hNull => h.bind fun _ => .ret ?_
  · refine iff_of_false (by decide) ?_
    rintro ⟨hAddr, hLen⟩
    have hEmpty := hNull.resolve_left hAddr
    omega
  · rw [asI32_neg_iff (UInt32.toNat_lt _)]
    exact (and_iff_right (not_or.mp hNull).1).symm

/-- A handler that never fails. -/
theorem gives_fine {p : UserProgram Int32} (h : Gives p fun r => 0 ≤ r) :
    Gives p fun r => r < 0 ↔ False := by
  refine h.mono fun r hr => iff_of_false ?_ id
  exact Int32.not_lt.mpr hr

/-- A handler that only fails where it has checked for a null pointer. -/
theorem gives_refused {p : UserProgram Int32} (h : Gives p fun r => 0 ≤ r) :
    Gives (if c then pure (-14) else p) fun r => r < 0 ↔ c := by
  refine .ite (fun hc => .ret ?_) fun hc => h.mono fun r hr => ?_
  · exact iff_of_true (by decide) hc
  · exact iff_of_false (Int32.not_lt.mpr hr) hc

/-- A handler of metadata. -/
theorem gives_walk {p : UserProgram Int32} {F : Prop} {bad : Int32} (hBad : bad < 0 ↔ F)
    (hB : ¬ c → B) (h : Silent p) :
    Gives (if c then pure bad else p) fun r => ¬ B → (r < 0 ↔ F) := by
  refine .ite (fun hc => .ret fun _ => hBad) fun hc => h.mono fun r _ hNone => ?_
  exact absurd (hB hc) hNone

theorem silent_walkFutexWaitv (p n : Nat) : Silent (walkFutexWaitv p n) := by
  induction n generalizing p with
  | zero => exact .ret trivial
  | succ n ih => exact (silent_readBytes p 20).bind fun _ => ih (p + futexWaitvSize)

theorem gives_dispatchAccept : Gives (dispatchAccept sqe) fun r => 0 ≤ r := by
  refine .ite (fun _ => ?_) fun _ => .ret (by decide)
  refine (silent_readLe _ 4).bind fun n => (silent_unless (silent_fill _ n)).bind fun _ => ?_
  exact (silent_writeLe _ 4 0).bind fun _ => .ret (by decide)

theorem gives_dispatchStatx : Gives (dispatchStatx sqe) fun r => 0 ≤ r := by
  refine (silent_unless (silent_walkCstr _)).bind fun _ => ?_
  exact (silent_unless (silent_fill _ statxSize)).bind fun _ => .ret (by decide)

theorem gives_dispatchProvideBuffers : Gives (dispatchProvideBuffers sqe) fun r => 0 ≤ r := by
  refine .ite (fun _ => .ret (by decide)) fun _ => ?_
  exact (silent_readU8 _).bind fun _ => (silent_readU8 _).bind fun _ => .ret (by decide)

theorem gives_dispatchXattrSet : Gives (dispatchXattrSet sqe) fun r => 0 ≤ r := by
  refine (silent_unless (silent_walkCstr _)).bind fun _ => ?_
  refine (silent_unless (silent_readBytes _ _)).bind fun _ => ?_
  exact (silent_unless (silent_walkCstr _)).bind fun _ => .ret (by decide)

theorem gives_dispatchXattrGet : Gives (dispatchXattrGet sqe) fun r =>
    r < 0 ↔ 2 ^ 31 ≤ sqe.len.toNat := by
  refine (silent_unless (silent_walkCstr _)).bind fun _ => ?_
  refine (silent_unless (silent_fill _ _)).bind fun _ => ?_
  exact (silent_unless (silent_walkCstr _)).bind fun _ => .ret (asI32_neg_iff (UInt32.toNat_lt _))

theorem gives_dispatchWaitid : Gives (dispatchWaitid sqe) fun r => 0 ≤ r :=
  (silent_unless (silent_fill _ siginfoSize)).bind fun _ => .ret (by decide)

/-- Walk something unless there is nothing to walk. -/
theorem gives_optional {walk : UserProgram Unit} (h : Silent walk) :
    Gives (if c then pure 0 else do
      walk
      pure 0) fun r => (0 : Int32) ≤ r :=
  .ite (fun _ => .ret (by decide)) fun _ => h.bind fun _ => .ret (by decide)

theorem silent_dispatchOpenat2 (path how : Nat) : Silent (α := Int32) (do
    walkCstr path
    (if how = 0 then pure () else readBytes how openHowSize)
    pure 42) := by
  refine (silent_walkCstr path).bind fun _ => ?_
  exact (silent_unless (silent_readBytes how openHowSize)).bind fun _ => .ret trivial

theorem gives_dispatchPipe : Gives (dispatchPipe sqe) fun r => r < 0 ↔ sqe.addr.toNat = 0 := by
  refine gives_refused ?_
  exact (silent_writeLe _ 4 42).bind fun _ => (silent_writeLe _ 4 43).bind fun _ => .ret (by decide)

theorem gives_dispatchPathname : Gives (dispatchPathname sqe) fun r =>
    r < 0 ↔ sqe.addr.toNat = 0 :=
  gives_refused ((silent_walkCstr _).bind fun _ => .ret (by decide))

theorem gives_dispatchPathname2 : Gives (dispatchPathname2 sqe) fun r =>
    r < 0 ↔ sqe.addr.toNat = 0 ∨ sqe.off.toNat = 0 :=
  gives_refused ((silent_walkCstr _).bind fun _ => (silent_walkCstr _).bind fun _ =>
    .ret (by decide))

theorem gives_dispatchFutexRead : Gives (dispatchFutexRead sqe) fun r =>
    r < 0 ↔ sqe.addr.toNat = 0 :=
  gives_refused ((silent_readLe _ 4).bind fun _ => .ret (by decide))

theorem gives_dispatchFutexWaitv : Gives (dispatchFutexWaitv sqe) fun r =>
    r < 0 ↔ sqe.addr.toNat = 0 ∨ sqe.len.toNat = 0 :=
  gives_refused ((silent_walkFutexWaitv _ _).bind fun _ => .ret (by decide))

theorem gives_dispatchReadv : Gives (dispatchReadv sqe) fun r =>
    ¬ (sqe.addr.toNat ≠ 0 ∧ sqe.len.toNat ≠ 0) → (r < 0 ↔ False) :=
  gives_walk (by decide) not_or.mp ((silent_walkIovecs silent_fill _ _ 0).bind fun _ =>
    .ret trivial)

theorem gives_dispatchWritev : Gives (dispatchWritev sqe) fun r =>
    ¬ (sqe.addr.toNat ≠ 0 ∧ sqe.len.toNat ≠ 0) → (r < 0 ↔ False) :=
  gives_walk (by decide) not_or.mp ((silent_walkIovecs silent_readBytes _ _ 0).bind fun _ =>
    .ret trivial)

theorem gives_dispatchRecvmsg : Gives (dispatchRecvmsg sqe) fun r =>
    ¬ sqe.addr.toNat ≠ 0 → (r < 0 ↔ True) :=
  gives_walk (by decide) id (silent_walkMsgHdr silent_fill _)

theorem gives_dispatchSendmsg : Gives (dispatchSendmsg sqe) fun r =>
    ¬ sqe.addr.toNat ≠ 0 → (r < 0 ↔ True) :=
  gives_walk (by decide) id (silent_walkMsgHdr silent_readBytes _)

theorem gives_dispatchTimeout : Gives (dispatchTimeout sqe) fun r =>
    ¬ sqe.addr.toNat ≠ 0 → (r < 0 ↔ True) :=
  gives_walk (by decide) id ((silent_readBytes _ _).bind fun _ => .ret trivial)

theorem gives_dispatchConnect : Gives (dispatchConnect sqe) fun r =>
    ¬ (sqe.addr.toNat ≠ 0 ∧ sqe.off.toNat ≠ 0) → (r < 0 ↔ True) :=
  gives_walk (by decide) not_or.mp ((silent_readBytes _ _).bind fun _ => .ret trivial)

theorem gives_dispatchOpenat : Gives (dispatchOpenat sqe) fun r =>
    ¬ sqe.addr.toNat ≠ 0 → (r < 0 ↔ True) :=
  gives_walk (by decide) id ((silent_walkCstr _).bind fun _ => .ret trivial)

theorem gives_dispatchOpenat2 : Gives (dispatchOpenat2 sqe) fun r =>
    ¬ sqe.addr.toNat ≠ 0 → (r < 0 ↔ True) :=
  gives_walk (by decide) id (silent_dispatchOpenat2 _ _)

theorem gives_dispatchBufFill : Gives (dispatchBufFill sqe) fun r =>
    r < 0 ↔ sqe.addr.toNat ≠ 0 ∧ 2 ^ 31 ≤ sqe.len.toNat :=
  gives_len (silent_fill _ _)

theorem gives_dispatchBufSink : Gives (dispatchBufSink sqe) fun r =>
    r < 0 ↔ sqe.addr.toNat ≠ 0 ∧ 2 ^ 31 ≤ sqe.len.toNat :=
  gives_len (silent_readBytes _ _)

theorem gives_dispatchFilesUpdate : Gives (dispatchFilesUpdate sqe) fun r =>
    r < 0 ↔ sqe.addr.toNat ≠ 0 ∧ 2 ^ 31 ≤ sqe.len.toNat :=
  gives_len (silent_readBytes _ _)

theorem gives_dispatchEpollCtl : Gives (dispatchEpollCtl sqe) fun r => 0 ≤ r :=
  gives_optional (silent_readBytes _ _)

theorem gives_dispatchEpollWait : Gives (dispatchEpollWait sqe) fun r => 0 ≤ r :=
  gives_optional (silent_fill _ _)

theorem gives_dispatchOp (sqe : IoUringSqe) :
    Gives (dispatchOp sqe) fun r => ¬ BearsMetadata sqe → (r < 0 ↔ Fails sqe) := by
  unfold dispatchOp BearsMetadata Fails
  split
  case h_1 hOp =>
    rw [hOp]
    exact gives_dispatchNop.mono fun r hr _ => hr
  case h_2 hOp | h_3 hOp | h_4 hOp | h_37 hOp =>
    rw [hOp]
    exact gives_dispatchBufFill.mono fun r hr _ => hr
  case h_5 hOp | h_6 hOp | h_7 hOp | h_8 hOp =>
    rw [hOp]
    exact gives_dispatchBufSink.mono fun r hr _ => hr
  case h_9 hOp | h_35 hOp =>
    rw [hOp]
    exact gives_dispatchReadv
  case h_10 hOp | h_36 hOp =>
    rw [hOp]
    exact gives_dispatchWritev
  case h_11 hOp =>
    rw [hOp]
    exact gives_dispatchRecvmsg
  case h_12 hOp | h_13 hOp =>
    rw [hOp]
    exact gives_dispatchSendmsg
  case h_14 hOp | h_15 hOp =>
    rw [hOp]
    exact gives_dispatchTimeout
  case h_16 hOp | h_26 hOp =>
    rw [hOp]
    exact gives_dispatchConnect
  case h_17 hOp =>
    rw [hOp]
    exact (gives_fine gives_dispatchAccept).mono fun r hr _ => hr
  case h_18 hOp =>
    rw [hOp]
    exact gives_dispatchOpenat
  case h_19 hOp =>
    rw [hOp]
    exact gives_dispatchOpenat2
  case h_20 hOp =>
    rw [hOp]
    exact (gives_fine gives_dispatchStatx).mono fun r hr _ => hr
  case h_21 hOp | h_22 hOp =>
    rw [hOp]
    exact gives_dispatchPathname.mono fun r hr _ => hr
  case h_23 hOp | h_24 hOp | h_25 hOp =>
    rw [hOp]
    exact gives_dispatchPathname2.mono fun r hr _ => hr
  case h_27 hOp =>
    rw [hOp]
    exact (gives_fine gives_dispatchEpollCtl).mono fun r hr _ => hr
  case h_28 hOp =>
    rw [hOp]
    exact gives_dispatchFilesUpdate.mono fun r hr _ => hr
  case h_29 hOp =>
    rw [hOp]
    exact (gives_fine gives_dispatchProvideBuffers).mono fun r hr _ => hr
  case h_30 hOp | h_31 hOp =>
    rw [hOp]
    exact (gives_fine gives_dispatchXattrSet).mono fun r hr _ => hr
  case h_32 hOp | h_33 hOp =>
    rw [hOp]
    exact gives_dispatchXattrGet.mono fun r hr _ => hr
  case h_34 hOp =>
    rw [hOp]
    exact (gives_fine gives_dispatchEpollWait).mono fun r hr _ => hr
  case h_38 hOp | h_39 hOp =>
    rw [hOp]
    exact gives_dispatchFutexRead.mono fun r hr _ => hr
  case h_40 hOp =>
    rw [hOp]
    exact gives_dispatchFutexWaitv.mono fun r hr _ => hr
  case h_41 hOp =>
    rw [hOp]
    exact (gives_fine gives_dispatchWaitid).mono fun r hr _ => hr
  case h_42 hOp =>
    rw [hOp]
    exact gives_dispatchPipe.mono fun r hr _ => hr
  case h_64 =>
    refine .ret fun _ => iff_of_true (by decide) ?_
    split
    all_goals trivial
  -- the handlers that answer a constant
  all_goals
    next hOp =>
      rw [hOp]
      exact .ret fun _ => iff_of_false (by decide) id

end Answers

/-! ## The accesses to the metadata -/

section Accesses

variable {sqe : IoUringSqe}

/-- A request that bears metadata reads its first byte. -/
theorem reaches_of_bears (h : BearsMetadata sqe) : Reaches (dispatchOp sqe) sqe.addr.toNat := by
  unfold BearsMetadata at h
  split at h
  case h_1 hOp | h_3 hOp =>
    rw [dispatchOp, hOp]
    exact reaches_dispatchReadv h.1 h.2
  case h_2 hOp | h_4 hOp =>
    rw [dispatchOp, hOp]
    exact reaches_dispatchWritev h.1 h.2
  case h_5 hOp =>
    rw [dispatchOp, hOp]
    exact reaches_dispatchRecvmsg h
  case h_6 hOp | h_7 hOp =>
    rw [dispatchOp, hOp]
    exact reaches_dispatchSendmsg h
  case h_8 hOp | h_9 hOp =>
    rw [dispatchOp, hOp]
    exact reaches_dispatchTimeout h
  case h_10 hOp =>
    rw [dispatchOp, hOp]
    exact reaches_dispatchOpenat h
  case h_11 hOp =>
    rw [dispatchOp, hOp]
    exact reaches_dispatchOpenat2 h
  case h_12 hOp | h_13 hOp =>
    rw [dispatchOp, hOp]
    exact reaches_dispatchConnect h.1 h.2
  case h_14 => exact h.elim

theorem metadata_of_bears (h : BearsMetadata sqe) (m : UserCells) :
    Metadata m sqe sqe.addr.toNat := by
  have hFirst : ∀ {n}, 0 < n → InBytes sqe.addr.toNat n sqe.addr.toNat :=
    fun hn => ⟨Nat.le_refl _, Nat.lt_add_of_pos_right hn⟩
  have hCstr : InCstr m sqe.addr.toNat sqe.addr.toNat :=
    ⟨Nat.le_refl _, fun q hq hLt => absurd hLt (Nat.not_lt.mpr hq)⟩
  unfold BearsMetadata at h
  unfold Metadata
  split at h
  case h_1 hOp | h_2 hOp | h_3 hOp | h_4 hOp =>
    rw [hOp]
    exact ⟨h.1, hFirst (Nat.mul_pos (by decide) (Nat.pos_of_ne_zero h.2))⟩
  case h_5 hOp | h_6 hOp | h_7 hOp =>
    rw [hOp]
    exact ⟨h, .inl (hFirst (by decide))⟩
  case h_8 hOp | h_9 hOp =>
    rw [hOp]
    exact ⟨h, hFirst (by decide)⟩
  case h_10 hOp =>
    rw [hOp]
    exact ⟨h, hCstr⟩
  case h_11 hOp =>
    rw [hOp]
    exact .inl ⟨h, hCstr⟩
  case h_12 hOp | h_13 hOp =>
    rw [hOp]
    exact ⟨h.1, hFirst (Nat.pos_of_ne_zero h.2)⟩
  case h_14 => exact h.elim

/-- A request that bears no metadata touches none. -/
theorem untouched_of_not_bears (h : ¬ BearsMetadata sqe) {tr : List (Event userSig)} {r : Int32}
    (hPath : Path (dispatchOp sqe) tr r) {a : Nat} (ha : Touches tr a) (m : UserCells) :
    ¬ Metadata m sqe a := by
  intro hMeta
  have hLen : ∀ {p n}, InBytes p n a → n ≠ 0 := by
    rintro p n ⟨hLow, hHigh⟩ rfl
    omega
  unfold BearsMetadata at h
  unfold Metadata at hMeta
  split at hMeta
  case h_1 hOp | h_2 hOp | h_3 hOp | h_4 hOp =>
    rw [hOp] at h
    have hSize := hLen hMeta.2
    exact h ⟨hMeta.1, fun hZero => hSize (by rw [hZero]; rfl)⟩
  case h_5 hOp | h_6 hOp | h_7 hOp | h_8 hOp | h_9 hOp | h_12 hOp =>
    rw [hOp] at h
    exact h hMeta.1
  case h_10 hOp | h_11 hOp =>
    rw [hOp] at h
    exact h ⟨hMeta.1, hLen hMeta.2⟩
  case h_13 hOp =>
    -- the pathname is null, and `open_how` is not read either
    rw [hOp] at h
    rw [dispatchOp, hOp] at hPath
    have hNull : sqe.addr.toNat = 0 := Classical.not_not.mp h
    change Path (dispatchOpenat2 sqe) tr r at hPath
    rw [dispatchOpenat2, if_pos hNull] at hPath
    obtain ⟨rfl, -⟩ := path_ret_iff.mp hPath
    obtain ⟨e, he, -⟩ := ha
    cases he
  case h_14 => exact hMeta

end Accesses

end Miring.Dispatch
