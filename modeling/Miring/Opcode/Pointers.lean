import Miring.Opcode.Builders
import Miring.Dispatch.Metadata

/-!
# The pointers of the builders

A dispatch handler walks the pointers of its request as the kernel would. For every builder
the list of its pointers into user memory, with the region each of them designates; and which
builders build a request that accesses all of these regions (`pointersWalked_iff`). The
timespec of a timeout update, the value of a socket option and the destination address of a
send are never looked at.
-/

namespace Miring.Opcode

open Sys Miring.Types Miring.Dispatch Program Trace

/-! ## Pointers and their regions -/

/-- How far the region behind a pointer reaches. -/
inductive Extent where
  | bytes (n : Nat)
  /-- up to the first NUL -/
  | cstr
  /-- as many bytes as the `u32` at another pointer says -/
  | sizedBy (p : Ptr)

structure Pointer where
  base : Ptr
  extent : Extent

namespace Pointer

/-- A byte of the region. -/
def Covers (m : UserCells) (q : Pointer) (a : Nat) : Prop :=
  match q.extent with
  | .bytes n => InBytes q.base.toNat n a
  | .cstr => InCstr m q.base.toNat a
  | .sizedBy p => InBytes q.base.toNat (peek m p.toNat 4) a

/-- The pointer is not null and its length is not zero. -/
def Given (m : UserCells) (q : Pointer) : Prop := q.base ≠ 0 ∧ ∃ a, q.Covers m a

end Pointer

/-- An optional pointer. -/
def given (base : Ptr) (extent : Extent) : List Pointer := if base = 0 then [] else [⟨base, extent⟩]

/-- The pointers into user memory that an operation reads or writes behind. -/
def Op.pointers : Op → List Pointer
  | .readv b => [⟨b.iovec, .bytes (iovecSize * b.len.toNat)⟩]
  | .writev b => [⟨b.iovec, .bytes (iovecSize * b.len.toNat)⟩]
  | .readFixed b => [⟨b.buf, .bytes b.len.toNat⟩]
  | .writeFixed b => [⟨b.buf, .bytes b.len.toNat⟩]
  | .sendMsg b => [⟨b.msg, .bytes MsgHdr.size⟩]
  | .recvMsg b => [⟨b.msg, .bytes MsgHdr.size⟩]
  | .timeout b => [⟨b.timespec, .bytes timespecSize⟩]
  | .accept b =>
    -- both of them or none
    if b.addr = 0 ∧ b.addrlen = 0 then [] else [⟨b.addr, .sizedBy b.addrlen⟩, ⟨b.addrlen, .bytes 4⟩]
  | .linkTimeout b => [⟨b.timespec, .bytes timespecSize⟩]
  | .connect b => [⟨b.addr, .bytes b.addrlen.toNat⟩]
  | .openAt b => [⟨b.pathname, .cstr⟩]
  | .filesUpdate b => [⟨b.fds, .bytes (b.len.toNat * 4)⟩]
  | .statx b => [⟨b.pathname, .cstr⟩, ⟨b.statxbuf, .bytes statxSize⟩]
  | .read b => [⟨b.buf, .bytes b.len.toNat⟩]
  | .write b => [⟨b.buf, .bytes b.len.toNat⟩]
  | .send b => ⟨b.buf, .bytes b.len.toNat⟩ :: given b.destAddr (.bytes b.destAddrLen.toNat)
  | .recv b => [⟨b.buf, .bytes b.len.toNat⟩]
  | .openAt2 b => [⟨b.pathname, .cstr⟩, ⟨b.how, .bytes Dispatch.openHowSize⟩]
  | .epollCtl b => [⟨b.ev, .bytes epollEventSize⟩]
  | .provideBuffers b => [⟨b.addr, .bytes (b.nbufs.toNat * b.len.toUInt32.toNat)⟩]
  | .renameAt b => [⟨b.oldpath, .cstr⟩, ⟨b.newpath, .cstr⟩]
  | .unlinkAt b => [⟨b.pathname, .cstr⟩]
  | .mkDirAt b => [⟨b.pathname, .cstr⟩]
  | .symlinkAt b => [⟨b.target, .cstr⟩, ⟨b.linkpath, .cstr⟩]
  | .linkAt b => [⟨b.oldpath, .cstr⟩, ⟨b.newpath, .cstr⟩]
  | .sendZc b => ⟨b.buf, .bytes b.len.toNat⟩ :: given b.destAddr (.bytes b.destAddrLen.toNat)
  | .sendMsgZc b => [⟨b.msg, .bytes MsgHdr.size⟩]
  | .bind b => [⟨b.addr, .bytes b.addrlen.toNat⟩]
  | .recvMsgMulti b => [⟨b.msg, .bytes MsgHdr.size⟩]
  | .getXattr b => [⟨b.name, .cstr⟩, ⟨b.value, .bytes b.len.toNat⟩, ⟨b.path, .cstr⟩]
  | .setXattr b => [⟨b.name, .cstr⟩, ⟨b.value, .bytes b.len.toNat⟩, ⟨b.path, .cstr⟩]
  | .fgetXattr b => [⟨b.name, .cstr⟩, ⟨b.value, .bytes b.len.toNat⟩]
  | .fsetXattr b => [⟨b.name, .cstr⟩, ⟨b.value, .bytes b.len.toNat⟩]
  | .timeoutUpdate b => [⟨b.timespec, .bytes timespecSize⟩]
  | .setSockOpt b => [⟨b.optval, .bytes b.optlen.toNat⟩]
  | .futexWait b => [⟨b.futex, .bytes 4⟩]
  | .futexWake b => [⟨b.futex, .bytes 4⟩]
  | .futexWaitV b => [⟨b.futexv, .bytes (futexWaitvSize * b.nrFutex.toNat)⟩]
  | .waitId b => given b.infop (.bytes siginfoSize)
  | .epollWait b => [⟨b.events, .bytes (b.maxEvents.toNat * epollEventSize)⟩]
  | .readvFixed b => [⟨b.iovec, .bytes (iovecSize * b.len.toNat)⟩]
  | .writevFixed b => [⟨b.iovec, .bytes (iovecSize * b.len.toNat)⟩]
  | .pipe b => [⟨b.fds, .bytes 8⟩]
  -- `madvise` only gives advice about its range
  | .nop _ | .fsync _ | .pollAdd _ | .pollRemove _ | .syncFileRange _ | .timeoutRemove _
  | .asyncCancel _ | .fallocate _ | .close _ | .splice _ | .removeBuffers _ | .tee _
  | .shutdown _ | .msgRing _ | .msgRingSendFd _ | .socket _ | .ftruncate _ | .listen _
  | .fadvise _ | .madvise _ | .acceptMulti _ | .recvMulti _ | .recvBundle _
  | .recvMultiBundle _ | .sendBundle _ | .readMulti _ | .asyncCancel2 _ | .uringCmd16 _
  | .uringCmd80 _ | .fixedFdInstall _ | .recvZc _ => []

/-- In every memory, every completed execution of `p` accesses a byte of each region. -/
def Walks (p : UserProgram Int32) (qs : List Pointer) : Prop :=
  ∀ m : UserMem, (∀ q ∈ qs, q.Given m.cells) → ∀ tr r m', Runs p m.cells tr r m' →
    ∀ q ∈ qs, ∃ a, q.Covers m.cells a ∧ Touches tr a

/-- The dispatch of the built entry walks the pointers of the builder. -/
def PointersWalked (overflowChecks : Bool) (op : Op) : Prop :=
  ∀ sqe, op.sqe overflowChecks = some sqe → Walks (dispatchOp sqe) op.pointers

/-! ## When it holds -/

/-- There is no destination address, or it lies in the data that is sent, or this data runs off
the address space. -/
def DestWalked (buf : Ptr) (len : UInt32) (destAddr : Ptr) (destAddrLen : UInt16) : Prop :=
  destAddr = 0 ∨
    (buf.toNat < destAddr.toNat + destAddrLen.toNat ∧ destAddr.toNat < buf.toNat + len.toNat) ∨
    2 ^ 64 < buf.toNat + len.toNat

def Op.Walkable : Op → Prop
  | .timeoutUpdate _ | .setSockOpt _ => False
  | .send b => DestWalked b.buf b.len b.destAddr b.destAddrLen
  | .sendZc b => DestWalked b.buf b.len b.destAddr b.destAddrLen
  | _ => True

/-! ## Regions -/

section Regions

variable {m : UserCells} {q : Pointer} {qs : List Pointer} {p : UserProgram Int32}

theorem Pointer.Given.covers_base (h : q.Given m) : q.Covers m q.base.toNat := by
  have hBytes : ∀ {n a}, InBytes q.base.toNat n a → InBytes q.base.toNat n q.base.toNat := by
    rintro n a ⟨hLow, hHigh⟩
    exact ⟨Nat.le_refl _, Nat.lt_of_le_of_lt hLow hHigh⟩
  obtain ⟨-, a, ha⟩ := h
  obtain ⟨base, extent⟩ := q
  cases extent with
  | bytes n => exact hBytes ha
  | cstr => exact ⟨Nat.le_refl _, fun x hLow hHigh => absurd hHigh (Nat.not_lt.mpr hLow)⟩
  | sizedBy p => exact hBytes ha

theorem Pointer.Given.base_ne_zero (h : q.Given m) : q.base.toNat ≠ 0 := by
  intro hZero
  exact h.1 (UInt64.toNat_inj.mp hZero)

theorem Pointer.Given.bytes_ne_zero {base : Ptr} {n : Nat} (h : Pointer.Given m ⟨base, .bytes n⟩) :
    n ≠ 0 := by
  rintro rfl
  obtain ⟨-, a, hLow, hHigh⟩ := h
  change base.toNat ≤ a at hLow
  change a < base.toNat + 0 at hHigh
  omega

/-- It is enough that the first byte of every region is accessed. -/
theorem walks_of_reaches (h : ∀ m : UserCells, (∀ q ∈ qs, q.Given m) →
    ∀ q ∈ qs, Reaches p q.base.toNat) : Walks p qs := by
  intro m hGiven tr r m' hRun q hq
  exact ⟨q.base.toNat, (hGiven q hq).covers_base, h m.cells hGiven q hq tr r (path_of_exec hRun)⟩

theorem walks_nil : Walks p [] := nofun

/-- One pointer. -/
theorem walks_one (h : ∀ m, q.Given m → Reaches p q.base.toNat) : Walks p [q] := by
  apply walks_of_reaches
  intro m hGiven q' hq'
  obtain rfl := List.mem_singleton.mp hq'
  exact h m (hGiven _ hq')

/-- Two pointers. -/
theorem walks_two {q' : Pointer} (h : ∀ m, q.Given m → q'.Given m →
    Reaches p q.base.toNat ∧ Reaches p q'.base.toNat) : Walks p [q, q'] := by
  apply walks_of_reaches
  intro m hGiven
  rw [List.forall_mem_cons, List.forall_mem_singleton] at hGiven ⊢
  exact h m hGiven.1 hGiven.2

/-- Three pointers. -/
theorem walks_three {q' q'' : Pointer} (h : ∀ m, q.Given m → q'.Given m → q''.Given m →
    Reaches p q.base.toNat ∧ Reaches p q'.base.toNat ∧ Reaches p q''.base.toNat) :
    Walks p [q, q', q''] := by
  apply walks_of_reaches
  intro m hGiven
  rw [List.forall_mem_cons, List.forall_mem_cons, List.forall_mem_singleton] at hGiven ⊢
  exact h m hGiven.1 hGiven.2.1 hGiven.2.2

/-- A pointer with a region of a fixed size. -/
theorem Pointer.Given.of_bytes {base : Ptr} {n : Nat} (hBase : base ≠ 0) (hn : n ≠ 0) :
    Pointer.Given m ⟨base, .bytes n⟩ :=
  ⟨hBase, base.toNat, Nat.le_refl _, Nat.lt_add_of_pos_right (Nat.pos_of_ne_zero hn)⟩

/-- If the regions are walked, then a dangling pointer faults. -/
theorem exec_none_of_dangling {m : UserMem} (h : Walks p qs)
    (hGiven : ∀ q ∈ qs, q.Given m.cells) (hq : q ∈ qs)
    (hDangling : ∀ a, q.Covers m.cells a → m.cells a = .unmapped) :
    exec memSem p m.cells = none := by
  cases hRun : exec memSem p m.cells with
  | none => rfl
  | some x =>
    obtain ⟨a, hCovers, hTouches⟩ := h m hGiven x.1 x.2.1 x.2.2 hRun q hq
    exact absurd (hDangling a hCovers) (exec_mapped hRun hTouches)

end Regions

/-! ## Fields of the built entries -/

section Fields

theorem assignFd_opcode (sqe : IoUringSqe) (opfd : Target) :
    (assignFd sqe opfd).opcode = sqe.opcode := by
  cases opfd <;> rfl

theorem assignFd_code (sqe : IoUringSqe) (opfd : Target) :
    (assignFd sqe opfd).opcode.toNat = sqe.opcode.toNat :=
  congrArg UInt8.toNat (assignFd_opcode sqe opfd)

theorem setDestAddr_fields (destAddr : Ptr) (destAddrLen : UInt16) (sqe : IoUringSqe) :
    (setDestAddr destAddr destAddrLen sqe).opcode = sqe.opcode ∧
      (setDestAddr destAddr destAddrLen sqe).addr = sqe.addr ∧
      (setDestAddr destAddr destAddrLen sqe).len = sqe.len := by
  unfold setDestAddr
  split <;> exact ⟨rfl, rfl, rfl⟩

/-- A builder with a raw slot number, where it does not panic. -/
theorem sqe_of_setFileIndex {overflowChecks : Bool} {fileIndex : Option UInt32}
    {sqe sqe' : IoUringSqe}
    (h : (((setFileIndex overflowChecks fileIndex sqe).map Squeue.Entry.mk).map Built.entry).map
      Built.sqe = some sqe') : ∃ spliceFdIn, sqe' = { sqe with spliceFdIn } := by
  cases fileIndex with
  | none =>
    obtain rfl := Option.some.inj h
    exact ⟨sqe.spliceFdIn, rfl⟩
  | some idx =>
    cases hArg : fileIndexArg overflowChecks idx with
    | none =>
      simp only [setFileIndex, hArg] at h
      cases h
    | some i =>
      simp only [setFileIndex, hArg] at h
      obtain rfl := Option.some.inj h
      exact ⟨i, rfl⟩

/-- `nbufs as i32` and back -/
theorem asUsize_toInt32 (n : UInt16) : asUsize n.toUInt32.toInt32 = n.toNat := by
  have hn : n.toBitVec.toNat < 2 ^ 16 := n.toBitVec.isLt
  have hMsb : (n.toBitVec.setWidth 32).msb = false := by
    rw [BitVec.msb_eq_false_iff_two_mul_lt, BitVec.toNat_setWidth]
    omega
  change ((n.toBitVec.setWidth 32).signExtend 64).toNat = n.toBitVec.toNat
  rw [BitVec.signExtend_eq_setWidth_of_msb_false hMsb, BitVec.toNat_setWidth,
    BitVec.toNat_setWidth]
  omega

theorem pipe_opcode (b : Pipe) : b.build.sqe.opcode = .ofNat ioringOpPipe := by
  unfold Pipe.build
  cases b.fileIndex <;> rfl

theorem pipe_addr (b : Pipe) : b.build.sqe.addr = b.fds := by
  unfold Pipe.build
  cases b.fileIndex <;> rfl

end Fields

/-! ## Accepts -/

/-- The address and its length: both pointers are walked. -/
theorem walks_accept (sqe : IoUringSqe) :
    Walks (dispatchAccept sqe) (if sqe.addr = 0 ∧ sqe.off = 0 then [] else
      [⟨sqe.addr, .sizedBy sqe.off⟩, ⟨sqe.off, .bytes 4⟩]) := by
  by_cases hNone : sqe.addr = 0 ∧ sqe.off = 0
  · rw [if_pos hNone]
    exact walks_nil
  rw [if_neg hNone]
  intro m hGiven tr r m' hRun
  rw [List.forall_mem_cons, List.forall_mem_singleton] at hGiven ⊢
  obtain ⟨hAddr, hLen⟩ := hGiven
  refine ⟨⟨sqe.addr.toNat, hAddr.covers_base, ?_⟩, ⟨sqe.off.toNat, hLen.covers_base, ?_⟩⟩
  · refine touches_dispatchAccept hAddr.base_ne_zero hLen.base_ne_zero ?_ hRun
    intro hZero
    obtain ⟨hLow, hHigh⟩ : InBytes sqe.addr.toNat (peek m.cells sqe.off.toNat 4) sqe.addr.toNat :=
      hAddr.covers_base
    omega
  · exact reaches_dispatchAccept hAddr.base_ne_zero hLen.base_ne_zero tr r (path_of_exec hRun)

/-! ## Sends -/

section Send

theorem touches_readBytes_iff {p n a : Nat} {tr : List (Event userSig)} {u : Unit}
    (h : Path (readBytes p n) tr u) : Touches tr a ↔ InBytes p n a := by
  induction n generalizing p tr with
  | zero =>
    obtain ⟨rfl, -⟩ := path_ret_iff.mp h
    refine iff_of_false ?_ ?_
    · rintro ⟨e, he, -⟩
      cases he
    · rintro ⟨hLow, hHigh⟩
      omega
  | succ n ih =>
    obtain ⟨b, tr', hRest, rfl⟩ := path_act_iff.mp h
    rw [touches_cons, ih hRest]
    change some p = some a ∨ _ ↔ _
    rw [Option.some.injEq]
    unfold InBytes
    omega

theorem runs_readBytes_zeros {p n : Nat} (h : p + n ≤ 2 ^ 64) :
    ∃ tr, Runs (readBytes p n) zeros.cells tr () zeros.cells := by
  obtain ⟨tr, hRun⟩ := runs_countRead_zeros h
  refine ⟨tr, ?_⟩
  rw [Runs, ← erase_countRead, exec_map, hRun]
  rfl

variable {sqe : IoUringSqe} {destAddr : Ptr} {destAddrLen : UInt16}

/-- A completed send has read its data and nothing else. -/
theorem touches_dispatchBufSink_iff (hAddr : sqe.addr.toNat ≠ 0) (hLen : sqe.len.toNat ≠ 0)
    {tr : List (Event userSig)} {r : Int32} (h : Path (dispatchBufSink sqe) tr r) {a : Nat} :
    Touches tr a ↔ InBytes sqe.addr.toNat sqe.len.toNat a := by
  rw [dispatchBufSink, if_neg (not_or.mpr ⟨hAddr, hLen⟩)] at h
  obtain ⟨tr₁, u, tr₂, hRead, hRet, rfl⟩ := path_bind_iff.mp h
  obtain ⟨rfl, -⟩ := path_ret_iff.mp hRet
  rw [List.append_nil]
  exact touches_readBytes_iff hRead

theorem walks_send_iff (hAddr : sqe.addr ≠ 0) (hLen : sqe.len.toNat ≠ 0)
    (hDest : destAddr ≠ 0 → destAddrLen.toNat ≠ 0) :
    Walks (dispatchBufSink sqe) (⟨sqe.addr, .bytes sqe.len.toNat⟩ ::
        given destAddr (.bytes destAddrLen.toNat)) ↔
      DestWalked sqe.addr sqe.len destAddr destAddrLen := by
  have hBuf : Pointer.Given zeros.cells ⟨sqe.addr, .bytes sqe.len.toNat⟩ :=
    .of_bytes hAddr hLen
  have hAddrNat : sqe.addr.toNat ≠ 0 := hBuf.base_ne_zero
  by_cases hNone : destAddr = 0
  · refine iff_of_true ?_ (.inl hNone)
    rw [given, if_pos hNone]
    exact walks_one fun m h => reaches_dispatchBufSink h.base_ne_zero h.bytes_ne_zero
  rw [given, if_neg hNone]
  have hDestGiven : ∀ m, Pointer.Given m ⟨destAddr, .bytes destAddrLen.toNat⟩ :=
    fun m => .of_bytes hNone (hDest hNone)
  constructor
  · intro hWalks
    by_cases hFits : sqe.addr.toNat + sqe.len.toNat ≤ 2 ^ 64
    · -- in a memory of zeros the send completes
      obtain ⟨tr, hRead⟩ := runs_readBytes_zeros hFits
      have hRun : Runs (dispatchBufSink sqe) zeros.cells tr (asI32 sqe.len.toNat) zeros.cells := by
        rw [dispatchBufSink, if_neg (not_or.mpr ⟨hAddrNat, hLen⟩)]
        exact exec_bind_iff.mpr ⟨tr, (), zeros.cells, [], hRead, rfl, (List.append_nil tr).symm⟩
      have hGiven : ∀ q ∈ [⟨sqe.addr, .bytes sqe.len.toNat⟩,
          ⟨destAddr, .bytes destAddrLen.toNat⟩], Pointer.Given zeros.cells q := by
        rw [List.forall_mem_cons, List.forall_mem_singleton]
        exact ⟨hBuf, hDestGiven _⟩
      obtain ⟨a, hCovers, hTouches⟩ := hWalks zeros hGiven tr _ _ hRun
        ⟨destAddr, .bytes destAddrLen.toNat⟩ (List.mem_cons_of_mem _ (List.mem_singleton.mpr rfl))
      rw [touches_dispatchBufSink_iff hAddrNat hLen (path_of_exec hRun)] at hTouches
      obtain ⟨hLow, hHigh⟩ := hTouches
      obtain ⟨hDestLow, hDestHigh⟩ : InBytes destAddr.toNat destAddrLen.toNat a := hCovers
      exact .inr (.inl ⟨by omega, by omega⟩)
    · exact .inr (.inr (by omega))
  · intro hWalked m hGiven tr r m' hRun
    have hTouches := fun a => touches_dispatchBufSink_iff (a := a) hAddrNat hLen (path_of_exec hRun)
    rcases hWalked with hZero | ⟨hLow, hHigh⟩ | hWraps
    · exact absurd hZero hNone
    · rw [List.forall_mem_cons, List.forall_mem_singleton]
      have hPos := Nat.pos_of_ne_zero hLen
      have hDestPos := Nat.pos_of_ne_zero (hDest hNone)
      refine ⟨⟨sqe.addr.toNat, hBuf.covers_base, (hTouches _).mpr hBuf.covers_base⟩, ?_⟩
      -- the larger of the two addresses lies in both regions
      refine ⟨max sqe.addr.toNat destAddr.toNat, ?_, (hTouches _).mpr ?_⟩
      · change InBytes destAddr.toNat destAddrLen.toNat _
        unfold InBytes
        omega
      · unfold InBytes
        omega
    · -- no memory maps the end of the address space
      have hEnd : Touches tr (2 ^ 64) := by
        rw [hTouches]
        have hLow := UInt64.toNat_lt sqe.addr
        exact ⟨Nat.le_of_lt hLow, hWraps⟩
      exact absurd (m.unmapped_of_le _ (Nat.le_refl _)) (exec_mapped hRun hEnd)

/-- A builder of a send. -/
theorem walks_send {buf : Ptr} {len : UInt32} (opcode : UInt8)
    (hOp : ∀ sqe : IoUringSqe, sqe.opcode = opcode → dispatchOp sqe = dispatchBufSink sqe)
    (hFields : sqe.opcode = opcode ∧ sqe.addr = buf ∧ sqe.len = len)
    (hPassed : ∀ q ∈ (⟨buf, .bytes len.toNat⟩ : Pointer) ::
      given destAddr (.bytes destAddrLen.toNat), q.base ≠ 0 ∧ q.extent ≠ .bytes 0) :
    Walks (dispatchOp sqe) (⟨buf, .bytes len.toNat⟩ ::
        given destAddr (.bytes destAddrLen.toNat)) ↔
      DestWalked buf len destAddr destAddrLen := by
  obtain ⟨hOpcode, rfl, rfl⟩ := hFields
  rw [List.forall_mem_cons] at hPassed
  obtain ⟨⟨hAddr, hLen⟩, hDest⟩ := hPassed
  rw [hOp sqe hOpcode]
  refine walks_send_iff hAddr ?_ ?_
  · intro hZero
    exact hLen (congrArg Extent.bytes hZero)
  · intro hSome hZero
    rw [given, if_neg hSome, List.forall_mem_singleton] at hDest
    exact hDest.2 (congrArg Extent.bytes hZero)

theorem walks_send_builder (b : Send)
    (hPassed : ∀ q ∈ (Op.send b).pointers, q.base ≠ 0 ∧ q.extent ≠ .bytes 0) :
    Walks (dispatchOp b.build.sqe) (Op.send b).pointers ↔ (Op.send b).Walkable := by
  have hFields := setDestAddr_fields b.destAddr b.destAddrLen
  refine walks_send (.ofNat ioringOpSend) ?_ ?_ hPassed
  · intro sqe hOp
    rw [dispatchOp, hOp]
    rfl
  · exact ⟨(hFields _).1.trans (assignFd_opcode _ _), (hFields _).2.1, (hFields _).2.2⟩

theorem walks_sendZc_builder (b : SendZc)
    (hPassed : ∀ q ∈ (Op.sendZc b).pointers, q.base ≠ 0 ∧ q.extent ≠ .bytes 0) :
    Walks (dispatchOp b.build.sqe) (Op.sendZc b).pointers ↔ (Op.sendZc b).Walkable := by
  have hFields := setDestAddr_fields b.destAddr b.destAddrLen
  refine walks_send (.ofNat ioringOpSendZc) ?_ ?_ hPassed
  · intro sqe hOp
    rw [dispatchOp, hOp]
    rfl
  · exact ⟨(hFields _).1.trans (assignFd_opcode _ _), (hFields _).2.1, (hFields _).2.2⟩

end Send

/-! ## All builders -/

/-- A handler without accesses walks nothing. -/
theorem not_walks_pure {base : Ptr} {n : Nat} (r : Int32)
    (hPassed : ∀ q ∈ [(⟨base, .bytes n⟩ : Pointer)], q.base ≠ 0 ∧ q.extent ≠ .bytes 0) :
    ¬ Walks (pure r) [⟨base, .bytes n⟩] := by
  rw [List.forall_mem_singleton] at hPassed
  intro hWalks
  have hGiven : Pointer.Given zeros.cells ⟨base, .bytes n⟩ :=
    .of_bytes hPassed.1 fun hZero => hPassed.2 (congrArg Extent.bytes hZero)
  obtain ⟨a, -, e, he, -⟩ := hWalks zeros (List.forall_mem_singleton.mpr hGiven) [] r zeros.cells rfl
    _ (List.mem_singleton.mpr rfl)
  cases he

/-- Every pointer is walked where the builder allows it. -/
theorem walked_of_walkable {overflowChecks : Bool} {op : Op} (hWalkable : op.Walkable)
    (hPassed : ∀ q ∈ op.pointers, q.base ≠ 0 ∧ q.extent ≠ .bytes 0) :
    PointersWalked overflowChecks op := by
  intro sqe hSqe
  cases op
  case nop | fsync | pollAdd | pollRemove | syncFileRange | timeoutRemove | asyncCancel |
    fallocate | close | splice | removeBuffers | tee | shutdown | msgRing | msgRingSendFd | socket |
    ftruncate | listen | fadvise | madvise | acceptMulti | recvMulti | recvBundle | recvMultiBundle
    | sendBundle | readMulti | asyncCancel2 | uringCmd16 | uringCmd80 | fixedFdInstall | recvZc =>
    exact walks_nil
  case read b | recv b | readFixed b =>
    obtain rfl : b.build.sqe = sqe := Option.some.inj hSqe
    rw [dispatchOp, show b.build.sqe.opcode.toNat = _ from assignFd_code _ _]
    exact walks_one fun m h => reaches_dispatchBufFill h.base_ne_zero h.bytes_ne_zero
  case write b | writeFixed b =>
    obtain rfl : b.build.sqe = sqe := Option.some.inj hSqe
    rw [dispatchOp, show b.build.sqe.opcode.toNat = _ from assignFd_code _ _]
    exact walks_one fun m h => reaches_dispatchBufSink h.base_ne_zero h.bytes_ne_zero
  case readv b | readvFixed b =>
    obtain rfl : b.build.sqe = sqe := Option.some.inj hSqe
    rw [dispatchOp, show b.build.sqe.opcode.toNat = _ from assignFd_code _ _]
    exact walks_one fun m h =>
      reaches_dispatchReadv h.base_ne_zero (Nat.ne_zero_of_mul_ne_zero_right h.bytes_ne_zero)
  case writev b | writevFixed b =>
    obtain rfl : b.build.sqe = sqe := Option.some.inj hSqe
    rw [dispatchOp, show b.build.sqe.opcode.toNat = _ from assignFd_code _ _]
    exact walks_one fun m h =>
      reaches_dispatchWritev h.base_ne_zero (Nat.ne_zero_of_mul_ne_zero_right h.bytes_ne_zero)
  case sendMsg b | sendMsgZc b =>
    obtain rfl : b.build.sqe = sqe := Option.some.inj hSqe
    rw [dispatchOp, show b.build.sqe.opcode.toNat = _ from assignFd_code _ _]
    exact walks_one fun m h => reaches_dispatchSendmsg h.base_ne_zero
  case recvMsg b | recvMsgMulti b =>
    obtain rfl : b.build.sqe = sqe := Option.some.inj hSqe
    rw [dispatchOp, show b.build.sqe.opcode.toNat = _ from assignFd_code _ _]
    exact walks_one fun m h => reaches_dispatchRecvmsg h.base_ne_zero
  case timeout b | linkTimeout b =>
    obtain rfl : b.build.sqe = sqe := Option.some.inj hSqe
    rw [dispatchOp, show b.build.sqe.opcode.toNat = _ from rfl]
    exact walks_one fun m h => reaches_dispatchTimeout h.base_ne_zero
  case connect b | bind b =>
    obtain rfl : b.build.sqe = sqe := Option.some.inj hSqe
    rw [dispatchOp, show b.build.sqe.opcode.toNat = _ from assignFd_code _ _]
    refine walks_one fun m h => reaches_dispatchConnect h.base_ne_zero ?_
    exact UInt32.toNat_toUInt64 b.addrlen ▸ h.bytes_ne_zero
  case statx b =>
    obtain rfl : b.build.sqe = sqe := Option.some.inj hSqe
    rw [dispatchOp, show b.build.sqe.opcode.toNat = _ from assignFd_code _ _]
    exact walks_two fun m h h' =>
      ⟨reaches_dispatchStatx h.base_ne_zero, reaches_dispatchStatx_buf h'.base_ne_zero⟩
  case renameAt b | symlinkAt b | linkAt b =>
    obtain rfl : b.build.sqe = sqe := Option.some.inj hSqe
    rw [dispatchOp, show b.build.sqe.opcode.toNat = _ from assignFd_code _ _]
    exact walks_two fun m h h' => reaches_dispatchPathname2 h.base_ne_zero h'.base_ne_zero
  case unlinkAt b | mkDirAt b =>
    obtain rfl : b.build.sqe = sqe := Option.some.inj hSqe
    rw [dispatchOp, show b.build.sqe.opcode.toNat = _ from assignFd_code _ _]
    exact walks_one fun m h => reaches_dispatchPathname h.base_ne_zero
  case epollCtl b =>
    obtain rfl : b.build.sqe = sqe := Option.some.inj hSqe
    rw [dispatchOp, show b.build.sqe.opcode.toNat = _ from assignFd_code _ _]
    exact walks_one fun m h => reaches_dispatchEpollCtl h.base_ne_zero
  case epollWait b =>
    obtain rfl : b.build.sqe = sqe := Option.some.inj hSqe
    rw [dispatchOp, show b.build.sqe.opcode.toNat = _ from assignFd_code _ _]
    exact walks_one fun m h =>
      reaches_dispatchEpollWait h.base_ne_zero (Nat.ne_zero_of_mul_ne_zero_left h.bytes_ne_zero)
  case filesUpdate b =>
    obtain rfl : b.build.sqe = sqe := Option.some.inj hSqe
    rw [dispatchOp, show b.build.sqe.opcode.toNat = _ from rfl]
    exact walks_one fun m h =>
      reaches_dispatchFilesUpdate h.base_ne_zero (Nat.ne_zero_of_mul_ne_zero_left h.bytes_ne_zero)
  case provideBuffers b =>
    obtain rfl : b.build.sqe = sqe := Option.some.inj hSqe
    rw [dispatchOp, show b.build.sqe.opcode.toNat = _ from rfl]
    refine walks_one fun m h => reaches_dispatchProvideBuffers h.base_ne_zero
      (Nat.ne_zero_of_mul_ne_zero_right h.bytes_ne_zero) ?_
    exact asUsize_toInt32 b.nbufs ▸ Nat.ne_zero_of_mul_ne_zero_left h.bytes_ne_zero
  case getXattr b =>
    obtain rfl : b.build.sqe = sqe := Option.some.inj hSqe
    rw [dispatchOp, show b.build.sqe.opcode.toNat = _ from rfl]
    exact walks_three fun m h h' h'' => ⟨reaches_dispatchXattrGet h.base_ne_zero,
      reaches_dispatchXattrGet_value h'.base_ne_zero h'.bytes_ne_zero,
      reaches_dispatchXattrGet_path rfl h''.base_ne_zero⟩
  case setXattr b =>
    obtain rfl : b.build.sqe = sqe := Option.some.inj hSqe
    rw [dispatchOp, show b.build.sqe.opcode.toNat = _ from rfl]
    exact walks_three fun m h h' h'' => ⟨reaches_dispatchXattrSet h.base_ne_zero,
      reaches_dispatchXattrSet_value h'.base_ne_zero h'.bytes_ne_zero,
      reaches_dispatchXattrSet_path rfl h''.base_ne_zero⟩
  case fgetXattr b =>
    obtain rfl : b.build.sqe = sqe := Option.some.inj hSqe
    rw [dispatchOp, show b.build.sqe.opcode.toNat = _ from assignFd_code _ _]
    exact walks_two fun m h h' => ⟨reaches_dispatchXattrGet h.base_ne_zero,
      reaches_dispatchXattrGet_value h'.base_ne_zero h'.bytes_ne_zero⟩
  case fsetXattr b =>
    obtain rfl : b.build.sqe = sqe := Option.some.inj hSqe
    rw [dispatchOp, show b.build.sqe.opcode.toNat = _ from assignFd_code _ _]
    exact walks_two fun m h h' => ⟨reaches_dispatchXattrSet h.base_ne_zero,
      reaches_dispatchXattrSet_value h'.base_ne_zero h'.bytes_ne_zero⟩
  case futexWait b | futexWake b =>
    obtain rfl : b.build.sqe = sqe := Option.some.inj hSqe
    rw [dispatchOp, show b.build.sqe.opcode.toNat = _ from rfl]
    exact walks_one fun m h => reaches_dispatchFutexRead h.base_ne_zero
  case futexWaitV b =>
    obtain rfl : b.build.sqe = sqe := Option.some.inj hSqe
    rw [dispatchOp, show b.build.sqe.opcode.toNat = _ from rfl]
    exact walks_one fun m h =>
      reaches_dispatchFutexWaitv h.base_ne_zero (Nat.ne_zero_of_mul_ne_zero_right h.bytes_ne_zero)
  case pipe b =>
    obtain rfl : b.build.sqe = sqe := Option.some.inj hSqe
    rw [dispatchOp, show b.build.sqe.opcode.toNat = _ from congrArg UInt8.toNat (pipe_opcode b)]
    refine walks_one fun m h => pipe_addr b ▸ reaches_dispatchPipe ?_
    rw [pipe_addr b]
    exact h.base_ne_zero
  case waitId b =>
    obtain rfl : b.build.sqe = sqe := Option.some.inj hSqe
    rw [dispatchOp, show b.build.sqe.opcode.toNat = _ from rfl]
    change Walks (dispatchWaitid b.build.sqe) (given b.infop _)
    by_cases hNone : b.infop = 0
    · rw [given, if_pos hNone]
      exact walks_nil
    · rw [given, if_neg hNone]
      exact walks_one fun m h => reaches_dispatchWaitid h.base_ne_zero
  case openAt b =>
    obtain ⟨i, rfl⟩ := sqe_of_setFileIndex hSqe
    rw [dispatchOp, show _ = _ from assignFd_code _ _]
    exact walks_one fun m h => reaches_dispatchOpenat h.base_ne_zero
  case openAt2 b =>
    obtain ⟨i, rfl⟩ := sqe_of_setFileIndex hSqe
    rw [dispatchOp, show _ = _ from assignFd_code _ _]
    exact walks_two fun m h h' => ⟨reaches_dispatchOpenat2 h.base_ne_zero,
      reaches_dispatchOpenat2_how h.base_ne_zero h'.base_ne_zero⟩
  case accept b =>
    obtain ⟨i, rfl⟩ := sqe_of_setFileIndex hSqe
    rw [dispatchOp, show _ = _ from assignFd_code _ _]
    exact walks_accept _
  case send b =>
    obtain rfl : b.build.sqe = sqe := Option.some.inj hSqe
    exact (walks_send_builder b hPassed).mpr hWalkable
  case sendZc b =>
    obtain rfl : b.build.sqe = sqe := Option.some.inj hSqe
    exact (walks_sendZc_builder b hPassed).mpr hWalkable
  case timeoutUpdate | setSockOpt => exact hWalkable.elim

theorem walkable_of_walked {overflowChecks : Bool} {op : Op}
    (hWalked : PointersWalked overflowChecks op)
    (hPassed : ∀ q ∈ op.pointers, q.base ≠ 0 ∧ q.extent ≠ .bytes 0) : op.Walkable := by
  cases op
  case send b => exact (walks_send_builder b hPassed).mp (hWalked b.build.sqe rfl)
  case sendZc b => exact (walks_sendZc_builder b hPassed).mp (hWalked b.build.sqe rfl)
  case timeoutUpdate b =>
    have hOp : dispatchOp b.build.sqe = pure 0 := rfl
    exact not_walks_pure 0 hPassed (hOp ▸ hWalked b.build.sqe rfl)
  case setSockOpt b =>
    have hOp : dispatchOp b.build.sqe = pure 0 := by
      rw [dispatchOp, show b.build.sqe.opcode.toNat = _ from assignFd_code _ _]
      rfl
    exact not_walks_pure 0 hPassed (hOp ▸ hWalked b.build.sqe rfl)
  all_goals trivial

/-- **Every user pointer is walked** by the dispatch of what a builder builds, if and only if
the builder is not one of a timeout update or of a socket option, nor of a send whose
destination address lies outside the data. -/
theorem pointersWalked_iff (overflowChecks : Bool) {op : Op}
    (hPassed : ∀ q ∈ op.pointers, q.base ≠ 0 ∧ q.extent ≠ .bytes 0) :
    PointersWalked overflowChecks op ↔ op.Walkable :=
  ⟨fun h => walkable_of_walked h hPassed, fun h => walked_of_walkable h hPassed⟩

theorem pointersWalked_iff_statx :
    PointersWalked true (.statx { dirfd := .fd 3, pathname := 4096, statxbuf := 8192 }) := by
  refine (pointersWalked_iff true ?_).mpr trivial
  change ∀ q ∈ [(⟨4096, .cstr⟩ : Pointer), ⟨8192, .bytes 256⟩], _
  rw [List.forall_mem_cons, List.forall_mem_singleton]
  exact ⟨⟨by decide, nofun⟩, ⟨by decide, by simp⟩⟩

/-- The new timespec of a timeout, the value of an option and the address of a datagram. -/
theorem pointers_skipped :
    ¬ PointersWalked true (.timeoutUpdate { userData := 1, timespec := 4096 }) ∧
      ¬ PointersWalked true (.setSockOpt
        { fd := .fd 3, level := 1, optname := 2, optval := 4096, optlen := 4 }) ∧
      ¬ PointersWalked true (.send
        { fd := .fd 3, buf := 4096, len := 1, destAddr := 8192, destAddrLen := 16 }) := by
  have hTwo : ∀ q ∈ [(⟨4096, .bytes 1⟩ : Pointer), ⟨8192, .bytes 16⟩],
      q.base ≠ 0 ∧ q.extent ≠ .bytes 0 := by
    rw [List.forall_mem_cons, List.forall_mem_singleton]
    exact ⟨⟨by decide, by simp⟩, ⟨by decide, by simp⟩⟩
  refine ⟨?_, ?_, ?_⟩
  · intro hWalked
    exact walkable_of_walked hWalked
      (List.forall_mem_singleton.mpr ⟨by decide, by simp [timespecSize]⟩)
  · intro hWalked
    exact walkable_of_walked hWalked (List.forall_mem_singleton.mpr ⟨by decide, by simp⟩)
  · intro hWalked
    have hDest : DestWalked 4096 1 8192 16 := walkable_of_walked hWalked hTwo
    rcases hDest with hZero | ⟨-, hHigh⟩ | hWraps
    · exact absurd hZero (by decide)
    · exact absurd hHigh (by decide)
    · exact absurd hWraps (by decide)

end Miring.Opcode
