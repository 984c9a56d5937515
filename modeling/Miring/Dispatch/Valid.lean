import Miring.Dispatch.References

/-!
# What a dispatch needs

A dispatch is defined if and only if the memory is valid for its request (`defined_iff_valid`):
its accesses come to an end (`Accessible`), and the references it makes are sound. Both are said
for each opcode in the memory before the dispatch. A request that writes while it still has to
read (READV, RECVMSG) must therefore not write to its own iovecs (`VectorsApart`); the path of a
GETXATTR is walked behind the write of the value.
-/

namespace Miring.Dispatch

open Sys Program

/-! ## Valid memory -/

/-- Of the range that PROVIDE_BUFFERS describes, the first and the last byte are read. -/
def ValidRange (m : UserCells) (addr bufLen nbufs : Nat) : Prop :=
  bufLen ≠ 0 → nbufs ≠ 0 →
    Readable m addr 1 ∧ Readable m (addr + (saturatingMul nbufs bufLen - 1)) 1

/-- The accesses of the dispatch of a request are defined. -/
def Accessible (m : UserCells) (sqe : IoUringSqe) : Prop :=
  let addr := sqe.addr.toNat
  let off := sqe.off.toNat
  let len := sqe.len.toNat
  let addr3 := sqe.addr3.toNat
  match sqe.opcode.toNat with
  | ioringOpRead | ioringOpReadFixed | ioringOpRecv | ioringOpReadMultishot =>
      addr ≠ 0 → Writable m addr len
  | ioringOpWrite | ioringOpWriteFixed | ioringOpSend | ioringOpSendZc =>
      addr ≠ 0 → Readable m addr len
  | ioringOpReadv | ioringOpReadvFixed => addr ≠ 0 → ValidIovecs (Writable m) m addr len
  | ioringOpWritev | ioringOpWritevFixed => addr ≠ 0 → ValidIovecs (Readable m) m addr len
  | ioringOpRecvmsg => addr ≠ 0 → ValidMsg (Writable m) m addr
  | ioringOpSendmsg | ioringOpSendmsgZc => addr ≠ 0 → ValidMsg (Readable m) m addr
  | ioringOpTimeout | ioringOpLinkTimeout => addr ≠ 0 → Readable m addr timespecSize
  | ioringOpConnect | ioringOpBind => addr ≠ 0 → Readable m addr off
  | ioringOpAccept =>
      addr ≠ 0 ∧ off ≠ 0 → Readable m off 4 ∧ Writable m addr (peek m off 4)
  | ioringOpOpenat | ioringOpUnlinkat | ioringOpMkdirat => addr ≠ 0 → Terminated m addr
  | ioringOpOpenat2 =>
      addr ≠ 0 → Terminated m addr ∧ (off ≠ 0 → Readable m off openHowSize)
  | ioringOpStatx => (addr ≠ 0 → Terminated m addr) ∧ (off ≠ 0 → Writable m off statxSize)
  | ioringOpRenameat | ioringOpSymlinkat | ioringOpLinkat =>
      addr ≠ 0 ∧ off ≠ 0 → Terminated m addr ∧ Terminated m off
  | ioringOpEpollCtl => addr ≠ 0 → Readable m addr epollEventSize
  | ioringOpFilesUpdate => addr ≠ 0 → Readable m addr (len * 4)
  | ioringOpProvideBuffers => addr ≠ 0 → ValidRange m addr len (asUsize sqe.fd)
  | ioringOpFsetxattr =>
      (addr ≠ 0 → Terminated m addr) ∧ (off ≠ 0 → Readable m off len)
  | ioringOpSetxattr =>
      (addr ≠ 0 → Terminated m addr) ∧ (off ≠ 0 → Readable m off len) ∧
        (addr3 ≠ 0 → Terminated m addr3)
  | ioringOpFgetxattr =>
      (addr ≠ 0 → Terminated m addr) ∧ (off ≠ 0 → Writable m off len)
  | ioringOpGetxattr =>
      -- the path is walked last, when the value is in the buffer
      (addr ≠ 0 → Terminated m addr) ∧ (off ≠ 0 → Writable m off len) ∧
        (addr3 ≠ 0 → Terminated (if off = 0 then m else zeroed m off len) addr3)
  | ioringOpEpollWait => addr ≠ 0 → Writable m addr (len * epollEventSize)
  | ioringOpFutexWait | ioringOpFutexWake => addr ≠ 0 → Readable m addr 4
  | ioringOpFutexWaitv => addr ≠ 0 → ∀ i < len, Readable m (addr + futexWaitvSize * i) 20
  | ioringOpWaitid => off ≠ 0 → Writable m off siginfoSize
  | ioringOpPipe => addr ≠ 0 → Writable m addr pipeFdsSize
  | _ => True

/-- The memory is valid for a request. -/
structure Valid (m : UserCells) (sqe : IoUringSqe) : Prop where
  accessible : Accessible m sqe
  sound : ∀ ref ∈ references m sqe, ref.Sound m

/-! ## The handlers -/

section Handlers

variable {m : UserCells} {sqe : IoUringSqe} {touch : Nat → Nat → UserProgram Unit}
  {ok : UserCells → Nat → Nat → Prop}

/-- The buffer is touched unless the pointer is null or the length, which `k` stands for,
is 0. -/
theorem Needs.given (h : Needs touch ok) {addr k n : Nat} (hk : k = 0 → n = 0) :
    (¬ (addr = 0 ∨ k = 0) → Completes memSem (touch addr n) m) ↔ (addr ≠ 0 → ok m addr n) := by
  rw [h.completes]
  constructor
  · intro hTouch hAddr
    by_cases hEmpty : k = 0
    · rw [hk hEmpty]
      exact h.empty m addr
    · exact hTouch (not_or.mpr ⟨hAddr, hEmpty⟩)
  · intro hOk hGiven
    exact hOk (not_or.mp hGiven).1

/-- A handler that touches one buffer. -/
theorem completes_buffer (h : Needs touch ok) {addr k n : Nat} (hk : k = 0 → n = 0)
    {r r' : Int32} : Completes memSem (if addr = 0 ∨ k = 0 then pure r else do
      touch addr n
      pure r') m ↔ (addr ≠ 0 → ok m addr n) := by
  refine completes_unless.trans ?_
  rw [completes_map]
  exact h.given hk

/-- A handler that only checks for a null pointer. -/
theorem completes_pointer (h : Needs touch ok) {addr n : Nat} {r r' : Int32} :
    Completes memSem (if addr = 0 then pure r else do
      touch addr n
      pure r') m ↔ (addr ≠ 0 → ok m addr n) := by
  refine completes_unless.trans (imp_congr_right fun _ => ?_)
  rw [completes_map, h.completes]

theorem completes_dispatchNop : Completes memSem (dispatchNop sqe) m := by
  unfold dispatchNop
  split
  · exact completes_ret _ m
  · exact completes_ret _ m

theorem completes_dispatchBufFill : Completes memSem (dispatchBufFill sqe) m ↔
    (sqe.addr.toNat ≠ 0 → Writable m sqe.addr.toNat sqe.len.toNat) :=
  completes_buffer needs_fill id

theorem completes_dispatchBufSink : Completes memSem (dispatchBufSink sqe) m ↔
    (sqe.addr.toNat ≠ 0 → Readable m sqe.addr.toNat sqe.len.toNat) :=
  completes_buffer needs_readBytes id

/-- `dispatch_readv` and `dispatch_writev`. -/
theorem completes_vector (h : Needs touch ok) {iov n : Nat} {K : Nat → Prop}
    (hK : iov ≠ 0 → ∀ a, InBytes iov (iovecSize * n) a → K a)
    (hSteady : iov ≠ 0 → ∀ i < n, peek m (iov + iovecSize * i) 8 ≠ 0 → Steady touch ok K m
      (peek m (iov + iovecSize * i) 8) (peek m (iov + iovecSize * i + 8) 8)) :
    Completes memSem (if iov = 0 ∨ n = 0 then pure 0 else do
      let total ← walkIovecs touch iov n 0
      pure (asI32 total)) m ↔ (iov ≠ 0 → ValidIovecs (ok m) m iov n) := by
  refine completes_unless.trans ?_
  rw [completes_map]
  constructor
  · intro hWalk hNull
    by_cases hEmpty : n = 0
    · intro i hi
      omega
    · rw [← completes_walkIovecs h 0 (.refl ok K m) (hK hNull) (hSteady hNull)]
      exact hWalk (not_or.mpr ⟨hNull, hEmpty⟩)
  · intro hValid hGiven
    have hNull := (not_or.mp hGiven).1
    rw [completes_walkIovecs h 0 (.refl ok K m) (hK hNull) (hSteady hNull)]
    exact hValid hNull

theorem completes_dispatchWritev : Completes memSem (dispatchWritev sqe) m ↔
    (sqe.addr.toNat ≠ 0 → ValidIovecs (Readable m) m sqe.addr.toNat sqe.len.toNat) :=
  completes_vector needs_readBytes (K := fun _ => True) (fun _ _ _ => trivial)
    fun _ _ _ _ => steady_readBytes _ _

theorem completes_dispatchReadv
    (hApart : sqe.addr.toNat ≠ 0 → ∀ a, InBytes sqe.addr.toNat (iovecSize * sqe.len.toNat) a →
      ¬ InTargets m sqe.addr.toNat sqe.len.toNat a) :
    Completes memSem (dispatchReadv sqe) m ↔
      (sqe.addr.toNat ≠ 0 → ValidIovecs (Writable m) m sqe.addr.toNat sqe.len.toNat) := by
  apply completes_vector needs_fill fun _ _ ha => ha
  intro hNull i hi hBase
  exact steady_fill fun a ha hTarget => hApart hNull a ha ⟨i, hi, hBase, hTarget⟩

theorem completes_dispatchSendmsg : Completes memSem (dispatchSendmsg sqe) m ↔
    (sqe.addr.toNat ≠ 0 → ValidMsg (Readable m) m sqe.addr.toNat) := by
  refine completes_unless.trans (imp_congr_right fun _ => ?_)
  exact completes_walkMsgHdr needs_readBytes (K := fun _ => True) (fun _ _ => trivial)
    (fun _ _ => trivial) (fun _ => steady_readBytes _ _) (fun _ => steady_readBytes _ _)
    fun _ _ _ _ => steady_readBytes _ _

theorem completes_dispatchRecvmsg
    (hApart : sqe.addr.toNat ≠ 0 → ∀ a, InBytes sqe.addr.toNat MsgHdr.size a ∨
      InMsgIov m sqe.addr.toNat a → ¬ InMsgBufs m sqe.addr.toNat a) :
    Completes memSem (dispatchRecvmsg sqe) m ↔
      (sqe.addr.toNat ≠ 0 → ValidMsg (Writable m) m sqe.addr.toNat) := by
  refine completes_unless.trans (imp_congr_right fun hNull => ?_)
  apply completes_walkMsgHdr needs_fill (fun a ha => Or.inl ha) fun a ha => Or.inr ha
  · intro hName
    exact steady_fill fun a ha hBuf => hApart hNull a ha (.inl ⟨hName, hBuf⟩)
  · intro hControl
    exact steady_fill fun a ha hBuf => hApart hNull a ha (.inr (.inl ⟨hControl, hBuf⟩))
  · intro hIov i hi hBase
    exact steady_fill fun a ha hBuf =>
      hApart hNull a ha (.inr (.inr ⟨hIov, i, hi, hBase, hBuf⟩))

theorem completes_dispatchTimeout : Completes memSem (dispatchTimeout sqe) m ↔
    (sqe.addr.toNat ≠ 0 → Readable m sqe.addr.toNat timespecSize) :=
  completes_pointer needs_readBytes

theorem completes_dispatchConnect : Completes memSem (dispatchConnect sqe) m ↔
    (sqe.addr.toNat ≠ 0 → Readable m sqe.addr.toNat sqe.off.toNat) :=
  completes_buffer needs_readBytes id

/-- The length can be written where it has been read. -/
theorem completes_dispatchAccept : Completes memSem (dispatchAccept sqe) m ↔
    (sqe.addr.toNat ≠ 0 ∧ sqe.off.toNat ≠ 0 → Readable m sqe.off.toNat 4 ∧
      Writable m sqe.addr.toNat (peek m sqe.off.toNat 4)) := by
  unfold dispatchAccept
  by_cases hGiven : sqe.addr.toNat ≠ 0 ∧ sqe.off.toNat ≠ 0
  · rw [if_pos hGiven, readU32, completes_readLe_bind, imp_iff_right hGiven]
    refine and_congr_right fun hReadable => ?_
    rw [completes_before, needs_fill.unless]
    intro u m₁ hRun
    have hMapped : Writable m₁ sqe.off.toNat 4 := by
      rw [writable_congr (unmapped_of_run hRun)]
      intro a ha
      obtain ⟨b, hByte⟩ := hReadable a ha
      rw [hByte]
      nofun
    rw [completes_map]
    exact completes_writeLe.mpr hMapped
  · rw [if_neg hGiven]
    exact iff_of_true (completes_ret _ m) fun h => absurd h hGiven

/-! ### Pathnames -/

section Paths

variable (hTop : Bounded m)
include hTop

theorem completes_dispatchOpenat : Completes memSem (dispatchOpenat sqe) m ↔
    (sqe.addr.toNat ≠ 0 → Terminated m sqe.addr.toNat) := by
  refine completes_unless.trans (imp_congr_right fun _ => ?_)
  rw [completes_map]
  exact completes_walkCstr hTop

theorem completes_dispatchPathname : Completes memSem (dispatchPathname sqe) m ↔
    (sqe.addr.toNat ≠ 0 → Terminated m sqe.addr.toNat) := by
  refine completes_unless.trans (imp_congr_right fun _ => ?_)
  rw [completes_map]
  exact completes_walkCstr hTop

theorem completes_dispatchPathname2 : Completes memSem (dispatchPathname2 sqe) m ↔
    (sqe.addr.toNat ≠ 0 ∧ sqe.off.toNat ≠ 0 →
      Terminated m sqe.addr.toNat ∧ Terminated m sqe.off.toNat) := by
  refine completes_unless.trans ?_
  rw [not_or]
  refine imp_congr_right fun _ => ?_
  rw [completes_behind fun _ _ => (keeps_walkCstr _).run,
    completes_map, completes_walkCstr hTop,
    completes_walkCstr hTop]

theorem completes_dispatchOpenat2 : Completes memSem (dispatchOpenat2 sqe) m ↔
    (sqe.addr.toNat ≠ 0 → Terminated m sqe.addr.toNat ∧
      (sqe.off.toNat ≠ 0 → Readable m sqe.off.toNat openHowSize)) := by
  refine completes_unless.trans (imp_congr_right fun _ => ?_)
  rw [completes_behind fun _ _ => (keeps_walkCstr _).run, completes_walkCstr hTop,
    completes_map]
  refine and_congr_right fun _ => completes_unless.trans ?_
  rw [completes_readBytes]

/-- `if path != 0 { walk_cstr(path) }`, and then something else. -/
theorem completes_walkCstr_behind {c : Prop} [Decidable c] {p : Nat} {q : UserProgram Int32} :
    Completes memSem (do
      (if c then pure () else walkCstr p)
      q) m ↔ (¬ c → Terminated m p) ∧ Completes memSem q m := by
  have hKeeps : Keeps (if c then pure () else walkCstr p) := .ite (.ret _) (keeps_walkCstr p)
  rw [completes_behind fun _ _ => hKeeps.run]
  refine and_congr_left fun _ => completes_unless.trans ?_
  rw [completes_walkCstr hTop]

theorem completes_dispatchStatx : Completes memSem (dispatchStatx sqe) m ↔
    (sqe.addr.toNat ≠ 0 → Terminated m sqe.addr.toNat) ∧
      (sqe.off.toNat ≠ 0 → Writable m sqe.off.toNat statxSize) := by
  unfold dispatchStatx
  rw [completes_walkCstr_behind hTop, completes_map]
  refine and_congr_right fun _ => completes_unless.trans ?_
  rw [completes_fill]

/-- The path is walked for SETXATTR only. -/
theorem completes_dispatchXattrSet : Completes memSem (dispatchXattrSet sqe) m ↔
    (sqe.addr.toNat ≠ 0 → Terminated m sqe.addr.toNat) ∧
      (sqe.off.toNat ≠ 0 → Readable m sqe.off.toNat sqe.len.toNat) ∧
      (sqe.opcode.toNat = ioringOpSetxattr → sqe.addr3.toNat ≠ 0 →
        Terminated m sqe.addr3.toNat) := by
  have hKeeps : Keeps (if sqe.off.toNat = 0 ∨ sqe.len.toNat = 0 then pure () else
      readBytes sqe.off.toNat sqe.len.toNat) := .ite (.ret _) (keeps_readBytes _ _)
  unfold dispatchXattrSet
  rw [completes_walkCstr_behind hTop, completes_behind fun _ _ => hKeeps.run,
    completes_walkCstr_behind hTop, not_or, not_not, and_imp]
  refine and_congr_right fun _ => and_congr ?_ (and_iff_left (completes_ret _ m))
  exact completes_unless.trans (needs_readBytes.given id)

/-- The path is walked for GETXATTR only, and when the value is zeroed. -/
theorem completes_dispatchXattrGet : Completes memSem (dispatchXattrGet sqe) m ↔
    (sqe.addr.toNat ≠ 0 → Terminated m sqe.addr.toNat) ∧
      (sqe.off.toNat ≠ 0 → Writable m sqe.off.toNat sqe.len.toNat) ∧
      (sqe.opcode.toNat = ioringOpGetxattr → sqe.addr3.toNat ≠ 0 →
        Terminated (if sqe.off.toNat = 0 then m else zeroed m sqe.off.toNat sqe.len.toNat)
          sqe.addr3.toNat) := by
  unfold dispatchXattrGet
  rw [completes_walkCstr_behind hTop]
  refine and_congr_right fun _ => ?_
  have hLast : ∀ {u m₁}, run memSem (if sqe.off.toNat = 0 ∨ sqe.len.toNat = 0 then pure () else
      fill sqe.off.toNat sqe.len.toNat) m = some (u, m₁) →
      m₁ = if sqe.off.toNat = 0 then m else zeroed m sqe.off.toNat sqe.len.toNat := by
    intro u m₁ hRun
    by_cases hNull : sqe.off.toNat = 0
    · rw [if_pos (.inl hNull)] at hRun
      rw [if_pos hNull]
      exact (Prod.mk.inj (Option.some.inj hRun)).2.symm
    · rw [if_neg hNull]
      by_cases hEmpty : sqe.len.toNat = 0
      · rw [if_pos (.inr hEmpty)] at hRun
        obtain ⟨-, rfl⟩ := Prod.mk.inj (Option.some.inj hRun)
        funext a
        rw [hEmpty, zeroed, if_neg (by omega)]
      · rw [if_neg (not_or.mpr ⟨hNull, hEmpty⟩)] at hRun
        have hFilled := (sets_fill _ _).run hRun
        funext a
        by_cases ha : InBytes sqe.off.toNat sqe.len.toNat a
        · exact (hFilled.inside a ha).trans ((filled_zeroed m _ _).inside a ha).symm
        · exact (hFilled.outside a ha).trans ((filled_zeroed m _ _).outside a ha).symm
  have hValue : Completes memSem (if sqe.off.toNat = 0 ∨ sqe.len.toNat = 0 then pure () else
      fill sqe.off.toNat sqe.len.toNat) m ↔
      (sqe.off.toNat ≠ 0 → Writable m sqe.off.toNat sqe.len.toNat) :=
    completes_unless.trans (needs_fill.given id)
  have hPath : ∀ {u m₁}, run memSem (if sqe.off.toNat = 0 ∨ sqe.len.toNat = 0 then pure () else
      fill sqe.off.toNat sqe.len.toNat) m = some (u, m₁) → (Completes memSem (do
        (if sqe.opcode.toNat ≠ ioringOpGetxattr ∨ sqe.addr3.toNat = 0 then pure () else
          walkCstr sqe.addr3.toNat)
        pure (asI32 sqe.len.toNat)) m₁ ↔
      (sqe.opcode.toNat = ioringOpGetxattr → sqe.addr3.toNat ≠ 0 →
        Terminated (if sqe.off.toNat = 0 then m else zeroed m sqe.off.toNat sqe.len.toNat)
          sqe.addr3.toNat)) := by
    intro u m₁ hRun
    rw [completes_walkCstr_behind (hTop.run hRun), not_or, not_not, and_imp, hLast hRun]
    exact and_iff_left (completes_ret _ _)
  rw [completes_bind_iff, ← hValue]
  constructor
  · rintro ⟨u, m₁, hRun, hRest⟩
    exact ⟨⟨u, m₁, hRun⟩, (hPath hRun).mp hRest⟩
  · rintro ⟨⟨u, m₁, hRun⟩, hRest⟩
    exact ⟨u, m₁, hRun, (hPath hRun).mpr hRest⟩

end Paths

/-! ### The other handlers -/

theorem completes_dispatchEpollCtl : Completes memSem (dispatchEpollCtl sqe) m ↔
    (sqe.addr.toNat ≠ 0 → Readable m sqe.addr.toNat epollEventSize) :=
  completes_pointer needs_readBytes

theorem completes_dispatchFilesUpdate : Completes memSem (dispatchFilesUpdate sqe) m ↔
    (sqe.addr.toNat ≠ 0 → Readable m sqe.addr.toNat (sqe.len.toNat * 4)) :=
  completes_buffer needs_readBytes fun h => by omega

theorem completes_dispatchProvideBuffers : Completes memSem (dispatchProvideBuffers sqe) m ↔
    (sqe.addr.toNat ≠ 0 → ValidRange m sqe.addr.toNat sqe.len.toNat (asUsize sqe.fd)) := by
  refine completes_unless.trans ?_
  rw [completes_behind fun _ _ => (keeps_readU8 _).run, completes_map, completes_readU8,
    completes_readU8, not_or, not_or]
  exact ⟨fun h hAddr hLen hNum => h ⟨hAddr, hLen, hNum⟩, fun h hGiven =>
    h hGiven.1 hGiven.2.1 hGiven.2.2⟩

theorem completes_dispatchEpollWait : Completes memSem (dispatchEpollWait sqe) m ↔
    (sqe.addr.toNat ≠ 0 → Writable m sqe.addr.toNat (sqe.len.toNat * epollEventSize)) :=
  completes_buffer needs_fill fun h => by rw [h, Nat.zero_mul]

theorem completes_dispatchFutexRead : Completes memSem (dispatchFutexRead sqe) m ↔
    (sqe.addr.toNat ≠ 0 → Readable m sqe.addr.toNat 4) := by
  refine completes_unless.trans (imp_congr_right fun _ => ?_)
  rw [readU32, completes_readLe_bind]
  exact and_iff_left (completes_ret _ m)

theorem needs_walkFutexWaitv :
    Needs walkFutexWaitv fun m p n => ∀ i < n, Readable m (p + futexWaitvSize * i) 20 := by
  refine ⟨fun m p n => ?_, fun m p i hi => absurd hi (Nat.not_lt_zero i)⟩
  induction n generalizing p with
  | zero => exact iff_of_true (completes_ret () m) fun i hi => absurd hi (Nat.not_lt_zero i)
  | succ n ih =>
    have hShift : ∀ i, p + futexWaitvSize * (i + 1) = p + futexWaitvSize + futexWaitvSize * i := by
      intro i
      rw [Nat.mul_succ]
      omega
    rw [walkFutexWaitv, completes_behind fun _ _ => (keeps_readBytes _ _).run, completes_readBytes,
      ih]
    constructor
    · rintro ⟨hFirst, hRest⟩ i hi
      cases i with
      | zero => exact hFirst
      | succ i =>
        rw [hShift]
        exact hRest i (Nat.lt_of_succ_lt_succ hi)
    · intro h
      refine ⟨h 0 (Nat.succ_pos n), fun i hi => ?_⟩
      rw [← hShift]
      exact h (i + 1) (Nat.succ_lt_succ hi)

theorem completes_dispatchFutexWaitv : Completes memSem (dispatchFutexWaitv sqe) m ↔
    (sqe.addr.toNat ≠ 0 →
      ∀ i < sqe.len.toNat, Readable m (sqe.addr.toNat + futexWaitvSize * i) 20) :=
  completes_buffer needs_walkFutexWaitv id

theorem completes_dispatchWaitid : Completes memSem (dispatchWaitid sqe) m ↔
    (sqe.off.toNat ≠ 0 → Writable m sqe.off.toNat siginfoSize) := by
  unfold dispatchWaitid
  rw [completes_map]
  refine completes_unless.trans ?_
  rw [completes_fill]

/-- The two descriptors are next to each other. -/
theorem completes_dispatchPipe : Completes memSem (dispatchPipe sqe) m ↔
    (sqe.addr.toNat ≠ 0 → Writable m sqe.addr.toNat pipeFdsSize) := by
  have hBoth : Writable m sqe.addr.toNat pipeFdsSize ↔
      Writable m sqe.addr.toNat 4 ∧ Writable m (sqe.addr.toNat + 4) 4 := by
    constructor
    · intro h
      exact ⟨fun a ha => h a (ha.sub (by omega) (by unfold pipeFdsSize; omega)),
        fun a ha => h a (ha.sub (by omega) (by unfold pipeFdsSize; omega))⟩
    · rintro ⟨hFirst, hSecond⟩ a ⟨hLow, hHigh⟩
      unfold pipeFdsSize at hHigh
      by_cases hHalf : a < sqe.addr.toNat + 4
      · exact hFirst a ⟨hLow, hHalf⟩
      · exact hSecond a ⟨by omega, by omega⟩
  refine completes_unless.trans (imp_congr_right fun _ => ?_)
  rw [hBoth, completes_bind_iff, ← completes_writeLe (v := 42)]
  constructor
  · rintro ⟨u, m₁, hRun, hRest⟩
    rw [completes_map, completes_writeLe, writable_congr (unmapped_of_run hRun)] at hRest
    exact ⟨⟨u, m₁, hRun⟩, hRest⟩
  · rintro ⟨⟨u, m₁, hRun⟩, hRest⟩
    rw [← writable_congr (unmapped_of_run hRun)] at hRest
    refine ⟨u, m₁, hRun, ?_⟩
    rw [completes_map, completes_writeLe]
    exact hRest

end Handlers

/-! ## The result -/

section Result

variable {m : UserCells} {sqe : IoUringSqe}

/-- One case for each handler. -/
theorem completes_dispatchOp (hTop : Bounded m) (hApart : VectorsApart m sqe) :
    Completes memSem (dispatchOp sqe) m ↔ Accessible m sqe := by
  have hAlways : ∀ r : Int32, Completes memSem (pure r : UserProgram Int32) m ↔ True :=
    fun r => iff_of_true (completes_ret r m) trivial
  unfold VectorsApart at hApart
  unfold dispatchOp Accessible
  split
  case h_1 hOp =>
    rw [hOp]
    exact iff_of_true completes_dispatchNop trivial
  case h_2 hOp | h_3 hOp | h_4 hOp | h_37 hOp =>
    rw [hOp]
    exact completes_dispatchBufFill
  case h_5 hOp | h_6 hOp | h_7 hOp | h_8 hOp =>
    rw [hOp]
    exact completes_dispatchBufSink
  case h_9 hOp | h_35 hOp =>
    rw [hOp] at hApart ⊢
    exact completes_dispatchReadv hApart
  case h_10 hOp | h_36 hOp =>
    rw [hOp]
    exact completes_dispatchWritev
  case h_11 hOp =>
    rw [hOp] at hApart ⊢
    exact completes_dispatchRecvmsg hApart
  case h_12 hOp | h_13 hOp =>
    rw [hOp]
    exact completes_dispatchSendmsg
  case h_14 hOp | h_15 hOp =>
    rw [hOp]
    exact completes_dispatchTimeout
  case h_16 hOp | h_26 hOp =>
    rw [hOp]
    exact completes_dispatchConnect
  case h_17 hOp =>
    rw [hOp]
    exact completes_dispatchAccept
  case h_18 hOp =>
    rw [hOp]
    exact completes_dispatchOpenat hTop
  case h_19 hOp =>
    rw [hOp]
    exact completes_dispatchOpenat2 hTop
  case h_20 hOp =>
    rw [hOp]
    exact completes_dispatchStatx hTop
  case h_21 hOp | h_22 hOp =>
    rw [hOp]
    exact completes_dispatchPathname hTop
  case h_23 hOp | h_24 hOp | h_25 hOp =>
    rw [hOp]
    exact completes_dispatchPathname2 hTop
  case h_27 hOp =>
    rw [hOp]
    exact completes_dispatchEpollCtl
  case h_28 hOp =>
    rw [hOp]
    exact completes_dispatchFilesUpdate
  case h_29 hOp =>
    rw [hOp]
    exact completes_dispatchProvideBuffers
  case h_30 hOp | h_31 hOp =>
    rw [completes_dispatchXattrSet hTop, hOp]
    simp [ioringOpSetxattr]
  case h_32 hOp | h_33 hOp =>
    rw [completes_dispatchXattrGet hTop, hOp]
    simp [ioringOpGetxattr]
  case h_34 hOp =>
    rw [hOp]
    exact completes_dispatchEpollWait
  case h_38 hOp | h_39 hOp =>
    rw [hOp]
    exact completes_dispatchFutexRead
  case h_40 hOp =>
    rw [hOp]
    exact completes_dispatchFutexWaitv
  case h_41 hOp =>
    rw [hOp]
    exact completes_dispatchWaitid
  case h_42 hOp =>
    rw [hOp]
    exact completes_dispatchPipe
  case h_64 =>
    split
    all_goals first | exact hAlways _ | contradiction
  -- the handlers that answer a constant
  all_goals
    next hOp =>
      rw [hOp]
      exact hAlways _

theorem completes_tracked :
    Completes memSem (tracked sqe) m ↔ Completes memSem (dispatchOp sqe) m := by
  rw [← erase_tracked, map_eq_pure_bind]
  exact completes_map.symm

/-- **A dispatch is defined** exactly where the memory is valid for its request. -/
theorem defined_iff_valid (m : UserMem) (sqe : IoUringSqe) (hApart : VectorsApart m.cells sqe) :
    Defined m.cells sqe ↔ Valid m.cells sqe := by
  have hRefs : ∀ {r refs m'}, run memSem (tracked sqe) m.cells = some ((r, refs), m') →
      refs = references m.cells sqe := by
    intro r refs m' hRun
    rw [run_eq_exec] at hRun
    obtain ⟨⟨tr, x⟩, hExec, hEnd⟩ := Option.map_eq_some_iff.mp hRun
    obtain rfl : x = ((r, refs), m') := hEnd
    exact references_of_run hApart hExec
  have hEnds := completes_tracked.trans (completes_dispatchOp m.unmapped_of_le hApart)
  constructor
  · rintro ⟨r, refs, m', hRun, hSound⟩
    rw [hRefs hRun] at hSound
    exact ⟨hEnds.mp ⟨_, m', hRun⟩, hSound⟩
  · intro h
    obtain ⟨⟨r, refs⟩, m', hRun⟩ := hEnds.mpr h.accessible
    refine ⟨r, refs, m', hRun, ?_⟩
    rw [hRefs hRun]
    exact h.sound

theorem placed_of_le {p a : Nat} {bs : List UInt8} (h : p + bs.length ≤ a) :
    placed m p bs a = m a := by
  unfold placed
  rw [if_pos (by omega), List.getElem?_eq_none (by omega)]
  rfl

theorem bounded_scatterMem : Bounded scatterMem := by
  intro a ha
  unfold scatterMem
  rw [placed_of_le (by simp; omega), placed_of_le (by simp [iovecArray]; omega)]
  exact if_neg (by omega)

theorem placed_mapped {p : Nat} {bs : List UInt8} {a : Nat} (h : m a ≠ .unmapped) :
    placed m p bs a ≠ .unmapped := by
  unfold placed
  split
  · cases bs[a - p]? with
    | none => exact h
    | some b => simp
  · exact h

theorem scatterMem_mapped {p n : Nat} (h : p + n ≤ 16384) : Writable scatterMem p n := by
  intro a ha
  apply placed_mapped
  apply placed_mapped
  have hHigh := ha.2
  rw [if_pos (by omega)]
  nofun

theorem valid_scatterReadv : Valid scatterMem scatterReadv := by
  apply (defined_iff_valid ⟨scatterMem, bounded_scatterMem⟩ scatterReadv
    fun _ => scatterMem_apart).mp
  have hRuns : (run memSem (tracked scatterReadv) scatterMem).map (fun x => x.1.2) =
      some [iovecSlice 8192 4, byteSlice 12288 4, byteSlice 12290 4] := by
    decide +kernel
  obtain ⟨⟨⟨r, refs⟩, m'⟩, hRun, rfl⟩ := Option.map_eq_some_iff.mp hRuns
  refine ⟨r, _, m', hRun, ?_⟩
  simp only [List.forall_mem_cons]
  refine ⟨⟨?_, ?_, scatterMem_mapped ?_⟩, ⟨?_, ?_, scatterMem_mapped ?_⟩,
    ⟨?_, ?_, scatterMem_mapped ?_⟩, nofun⟩
  all_goals decide

end Result

end Miring.Dispatch
