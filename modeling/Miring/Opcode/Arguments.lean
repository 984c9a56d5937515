import Miring.Opcode.Pointers

/-!
# Arguments of builders

The integer and pointer arguments of a builder can be read back from the entry it builds, and
so can the payload of a command: `Op.withArgs op sqe tail` is `op` with the arguments that
`sqe` and the last 64 bytes of a large entry encode. There is one exception. `MsgRing` narrows
its `user_flags` to 16 bits, so two messages whose flags differ in the upper half only have the
same entry (`argsKept_iff`).
-/

namespace Miring.Opcode

open Sys Bytes
open Miring.Types

/-! ## Reading the arguments back -/

/-- The first 16 bytes of a command. -/
def cmdBytes (sqe : IoUringSqe) : Vector UInt8 16 :=
  ⟨(leBytes 8 sqe.addr3.toNat ++ leBytes 8 sqe.pad2.toNat).toArray, by simp⟩

/-- The slot with the given kernel index. -/
def slotOf (arg : UInt32) : DestinationSlot :=
  if h : arg ≠ 0 then ⟨arg, h⟩ else .autoTarget

/-- The bytes behind the first 64. -/
def Built.tail : Built → Vector UInt8 64
  | .entry _ => .replicate 64 0
  | .entry128 e => e.tail

/-- A builder with the arguments that an entry encodes. Descriptors that may be registered
files and options stay. -/
def Op.withArgs (op : Op) (sqe : IoUringSqe) (tail : Vector UInt8 64) : Op :=
  match op with
  | .nop b => .nop b
  | .readv b => .readv { b with iovec := sqe.addr, len := sqe.len }
  | .writev b => .writev { b with iovec := sqe.addr, len := sqe.len }
  | .fsync b => .fsync b
  | .readFixed b =>
    .readFixed { b with buf := sqe.addr, len := sqe.len, bufIndex := sqe.bufIndex }
  | .writeFixed b =>
    .writeFixed { b with buf := sqe.addr, len := sqe.len, bufIndex := sqe.bufIndex }
  | .pollAdd b => .pollAdd { b with flags := sqe.opFlags }
  | .pollRemove _ => .pollRemove { userData := sqe.addr }
  | .syncFileRange b => .syncFileRange { b with len := sqe.len }
  | .sendMsg b => .sendMsg { b with msg := sqe.addr }
  | .recvMsg b => .recvMsg { b with msg := sqe.addr }
  | .timeout b => .timeout { b with timespec := sqe.addr }
  | .timeoutRemove b => .timeoutRemove { b with userData := sqe.addr }
  | .accept b => .accept b
  | .asyncCancel _ => .asyncCancel { userData := sqe.addr }
  | .linkTimeout b => .linkTimeout { b with timespec := sqe.addr }
  | .connect b => .connect { b with addr := sqe.addr, addrlen := sqe.off.toUInt32 }
  | .fallocate b => .fallocate { b with len := sqe.addr }
  | .openAt b => .openAt { b with pathname := sqe.addr }
  | .close b => .close b
  | .filesUpdate b => .filesUpdate { b with fds := sqe.addr, len := sqe.len }
  | .statx b => .statx { b with pathname := sqe.addr, statxbuf := sqe.off }
  | .read b => .read { b with buf := sqe.addr, len := sqe.len }
  | .write b => .write { b with buf := sqe.addr, len := sqe.len }
  | .send b => .send { b with buf := sqe.addr, len := sqe.len }
  | .recv b => .recv { b with buf := sqe.addr, len := sqe.len }
  | .openAt2 b => .openAt2 { b with pathname := sqe.addr, how := sqe.off }
  | .epollCtl b =>
    .epollCtl { b with
      fd := sqe.off.toInt64.toInt32
      op := sqe.len.toInt32
      ev := sqe.addr }
  | .splice b =>
    .splice { b with
      offIn := sqe.addr.toInt64
      offOut := sqe.off.toInt64
      len := sqe.len }
  | .provideBuffers _ =>
    .provideBuffers {
      addr := sqe.addr
      len := sqe.len.toInt32
      nbufs := sqe.fd.toUInt32.toUInt16
      bgid := sqe.bufIndex
      bid := sqe.off.toUInt16 }
  | .removeBuffers _ =>
    .removeBuffers { nbufs := sqe.fd.toUInt32.toUInt16, bgid := sqe.bufIndex }
  | .tee b => .tee { b with len := sqe.len }
  | .shutdown b => .shutdown { b with how := sqe.len.toInt32 }
  | .renameAt b =>
    .renameAt { b with
      oldpath := sqe.addr
      newdirfd := sqe.len.toInt32
      newpath := sqe.off }
  | .unlinkAt b => .unlinkAt { b with pathname := sqe.addr }
  | .mkDirAt b => .mkDirAt { b with pathname := sqe.addr }
  | .symlinkAt b => .symlinkAt { b with target := sqe.addr, linkpath := sqe.off }
  | .linkAt b =>
    .linkAt { b with
      oldpath := sqe.addr
      newdirfd := sqe.len.toInt32
      newpath := sqe.off }
  | .msgRing b =>
    .msgRing { b with
      fd := sqe.fd
      result := sqe.len.toInt32
      userData := sqe.off
      userFlags := sqe.bufIndex.toUInt32 }
  | .msgRingSendFd b =>
    .msgRingSendFd { b with
      fd := sqe.fd
      destSlot := slotOf sqe.addr3.toUInt32
      userData := sqe.off }
  | .socket b =>
    .socket { b with
      domain := sqe.fd
      socketType := sqe.off.toInt64.toInt32
      protocol := sqe.len.toInt32 }
  | .sendZc b => .sendZc { b with buf := sqe.addr, len := sqe.len }
  | .sendMsgZc b => .sendMsgZc { b with msg := sqe.addr }
  | .ftruncate b => .ftruncate { b with len := sqe.off }
  | .bind b => .bind { b with addr := sqe.addr, addrlen := sqe.off.toUInt32 }
  | .listen b => .listen { b with backlog := sqe.len.toInt32 }
  | .fadvise b => .fadvise { b with len := sqe.len, advice := sqe.opFlags.toInt32 }
  | .madvise _ =>
    .madvise { addr := sqe.addr, len := sqe.len, advice := sqe.opFlags.toInt32 }
  | .acceptMulti b => .acceptMulti b
  | .recvMulti b => .recvMulti { b with bufGroup := sqe.bufIndex }
  | .recvMsgMulti b => .recvMsgMulti { b with msg := sqe.addr, bufGroup := sqe.bufIndex }
  | .recvBundle b => .recvBundle { b with bufGroup := sqe.bufIndex }
  | .recvMultiBundle b => .recvMultiBundle { b with bufGroup := sqe.bufIndex }
  | .sendBundle b => .sendBundle { b with bufGroup := sqe.bufIndex }
  | .readMulti b => .readMulti { b with len := sqe.len, bufGroup := sqe.bufIndex }
  | .getXattr _ =>
    .getXattr { name := sqe.addr, value := sqe.off, path := sqe.addr3, len := sqe.len }
  | .setXattr b =>
    .setXattr { b with name := sqe.addr, value := sqe.off, path := sqe.addr3, len := sqe.len }
  | .fgetXattr b => .fgetXattr { b with name := sqe.addr, value := sqe.off, len := sqe.len }
  | .fsetXattr b => .fsetXattr { b with name := sqe.addr, value := sqe.off, len := sqe.len }
  | .asyncCancel2 b => .asyncCancel2 b
  | .timeoutUpdate b => .timeoutUpdate { b with userData := sqe.addr, timespec := sqe.off }
  | .uringCmd16 b => .uringCmd16 { b with cmdOp := sqe.off.toUInt32, cmd := cmdBytes sqe }
  | .uringCmd80 b =>
    .uringCmd80 { b with cmdOp := sqe.off.toUInt32, cmd := cmdBytes sqe ++ tail }
  | .setSockOpt b =>
    .setSockOpt { b with
      level := sqe.addr.toUInt32
      optname := (sqe.addr >>> 32).toUInt32
      optval := sqe.addr3
      optlen := sqe.spliceFdIn.toUInt32 }
  | .futexWait b =>
    .futexWait { b with
      futex := sqe.addr
      val := sqe.off
      mask := sqe.addr3
      futexFlags := sqe.fd.toUInt32 }
  | .futexWake b =>
    .futexWake { b with
      futex := sqe.addr
      val := sqe.off
      mask := sqe.addr3
      futexFlags := sqe.fd.toUInt32 }
  | .futexWaitV b => .futexWaitV { b with futexv := sqe.addr, nrFutex := sqe.len }
  | .waitId b =>
    .waitId { b with
      idtype := sqe.len
      id := sqe.fd.toUInt32
      options := sqe.spliceFdIn }
  | .fixedFdInstall _ =>
    .fixedFdInstall { fd := sqe.fd.toUInt32, fileFlags := sqe.opFlags }
  | .recvZc b => .recvZc { b with len := sqe.len }
  | .epollWait b => .epollWait { b with events := sqe.addr, maxEvents := sqe.len }
  | .readvFixed b =>
    .readvFixed { b with iovec := sqe.addr, len := sqe.len, bufIndex := sqe.bufIndex }
  | .writevFixed b =>
    .writevFixed { b with iovec := sqe.addr, len := sqe.len, bufIndex := sqe.bufIndex }
  | .pipe b => .pipe { b with fds := sqe.addr }

/-- Two builders that differ in their arguments at most. -/
def SameSettings (op op' : Op) : Prop :=
  op.withArgs {} (.replicate 64 0) = op'.withArgs {} (.replicate 64 0)

theorem withArgs_withArgs (op : Op) (sqe sqe' : IoUringSqe) (tail tail' : Vector UInt8 64) :
    (op.withArgs sqe tail).withArgs sqe' tail' = op.withArgs sqe' tail' := by
  cases op <;> rfl

theorem SameSettings.withArgs_eq {op op' : Op} (h : SameSettings op op') (sqe : IoUringSqe)
    (tail : Vector UInt8 64) : op.withArgs sqe tail = op'.withArgs sqe tail := by
  rw [← withArgs_withArgs op {} sqe (.replicate 64 0) tail, h, withArgs_withArgs]

/-! ## The encodings -/

section Encodings

theorem toNat_fromLeBytes {bs : List UInt8} (h : bs.length = 8) :
    (fromLeBytes bs).toNat = leValue bs := by
  have hLt := leValue_lt bs
  rw [h] at hLt
  exact Nat.mod_eq_of_lt hLt

/-- The first two words of a command hold its first 16 bytes. -/
theorem cmdBytes_eq {cmd : List UInt8} (h : 16 ≤ cmd.length) (sqe : IoUringSqe)
    (hLow : sqe.addr3 = fromLeBytes (region cmd 0 8))
    (hHigh : sqe.pad2 = fromLeBytes (region cmd 8 8)) : (cmdBytes sqe).toList = cmd.take 16 := by
  have hLowLength : (region cmd 0 8).length = 8 := region_length (by omega)
  have hHighLength : (region cmd 8 8).length = 8 := region_length (by omega)
  have hLowBytes := leBytes_leValue (region cmd 0 8)
  have hHighBytes := leBytes_leValue (region cmd 8 8)
  rw [hLowLength] at hLowBytes
  rw [hHighLength] at hHighBytes
  have hJoin : region cmd 0 8 ++ region cmd 8 8 = cmd.take 16 := by
    rw [region, region, List.drop_zero]
    exact (List.take_add (i := 8) (j := 8)).symm
  rw [← hJoin, ← hLowBytes, ← hHighBytes, ← toNat_fromLeBytes hLowLength,
    ← toNat_fromLeBytes hHighLength, ← hLow, ← hHigh]
  rfl

theorem setCmdBuf_fields (bufIndex : Option UInt16) (sqe : IoUringSqe) :
    (setCmdBuf bufIndex sqe).off = sqe.off ∧ (setCmdBuf bufIndex sqe).addr3 = sqe.addr3 ∧
      (setCmdBuf bufIndex sqe).pad2 = sqe.pad2 := by
  cases bufIndex <;> exact ⟨rfl, rfl, rfl⟩

theorem uringCmd16_fields (b : UringCmd16) :
    b.build.sqe.off.toUInt32 = b.cmdOp ∧ cmdBytes b.build.sqe = b.cmd := by
  obtain ⟨hOff, hLow, hHigh⟩ : b.build.sqe.off = b.cmdOp.toUInt64 ∧
      b.build.sqe.addr3 = fromLeBytes (region b.cmd.toList 0 8) ∧
      b.build.sqe.pad2 = fromLeBytes (region b.cmd.toList 8 8) := setCmdBuf_fields b.bufIndex _
  have hLength : b.cmd.toList.length = 16 := b.cmd.length_toList
  have hBytes := cmdBytes_eq (Nat.le_of_eq hLength.symm) b.build.sqe hLow hHigh
  rw [List.take_of_length_le (Nat.le_of_eq hLength)] at hBytes
  constructor
  · rw [hOff, UInt32.toUInt32_toUInt64]
  · exact Vector.toList_inj.mp hBytes

/-- The tail holds the bytes behind the first 16. -/
theorem uringCmd80_fields (b : UringCmd80) :
    b.build.entry.sqe.off.toUInt32 = b.cmdOp ∧
      cmdBytes b.build.entry.sqe ++ b.build.tail = b.cmd := by
  obtain ⟨hOff, hLow, hHigh⟩ : b.build.entry.sqe.off = b.cmdOp.toUInt64 ∧
      b.build.entry.sqe.addr3 = fromLeBytes (region b.cmd.toList 0 8) ∧
      b.build.entry.sqe.pad2 = fromLeBytes (region b.cmd.toList 8 8) :=
    setCmdBuf_fields b.bufIndex _
  have hLength : b.cmd.toList.length = 80 := b.cmd.length_toList
  have hBytes := cmdBytes_eq (by omega) b.build.entry.sqe hLow hHigh
  have hTail : b.build.tail.toList = b.cmd.toList.drop 16 := Vector.toList_drop
  constructor
  · rw [hOff, UInt32.toUInt32_toUInt64]
  · apply Vector.toList_inj.mp
    rw [Vector.toList_append, hBytes, hTail, List.take_append_drop]

theorem slotOf_kernelIndexArg (slot : DestinationSlot) :
    slotOf slot.kernelIndexArg.toUInt64.toUInt32 = slot := by
  rw [UInt32.toUInt32_toUInt64]
  exact dif_pos slot.dest_ne

/-- The two words of a socket option do not overlap. -/
theorem toNat_pair (optname level : UInt32) :
    ((optname.toUInt64 <<< 32) ||| level.toUInt64).toNat =
      2 ^ 32 * optname.toNat + level.toNat := by
  have hLevel := UInt32.toNat_lt level
  have hName := UInt32.toNat_lt optname
  have hShift : (optname.toUInt64 <<< 32).toNat = 2 ^ 32 * optname.toNat := by
    rw [UInt64.toNat_shiftLeft, UInt32.toNat_toUInt64, Nat.shiftLeft_eq,
      show (32 : UInt64).toNat % 64 = 32 from rfl]
    omega
  rw [UInt64.toNat_or, hShift, UInt32.toNat_toUInt64, ← Nat.two_pow_add_eq_or_of_lt hLevel]

theorem level_of_pair (optname level : UInt32) :
    ((optname.toUInt64 <<< 32) ||| level.toUInt64).toUInt32 = level := by
  have hLevel := UInt32.toNat_lt level
  rw [← UInt32.toNat_inj, UInt64.toNat_toUInt32, toNat_pair]
  omega

theorem optname_of_pair (optname level : UInt32) :
    (((optname.toUInt64 <<< 32) ||| level.toUInt64) >>> 32).toUInt32 = optname := by
  have hLevel := UInt32.toNat_lt level
  have hName := UInt32.toNat_lt optname
  rw [← UInt32.toNat_inj, UInt64.toNat_toUInt32, UInt64.toNat_shiftRight, toNat_pair,
    show (32 : UInt64).toNat % 64 = 32 from rfl, Nat.shiftRight_eq_div_pow]
  omega

end Encodings

/-! ## What is read back -/

/-- A message with the lower half of its flags. -/
def Op.narrowed : Op → Op
  | .msgRing b => .msgRing { b with userFlags := b.userFlags.toUInt16.toUInt32 }
  | op => op

/-- **The arguments are recoverable** from the entry, up to the upper half of the flags of a
message. -/
theorem withArgs_of_build {overflowChecks : Bool} {op : Op} {e : Built}
    (h : op.build overflowChecks = some e) : op.withArgs e.sqe e.tail = op.narrowed := by
  have hSqe : op.sqe overflowChecks = some e.sqe := by
    rw [Op.sqe, h]
    rfl
  cases op
  case accept b => rfl
  case openAt b =>
    obtain ⟨i, hi⟩ := sqe_of_setFileIndex hSqe
    rw [hi]
    rfl
  case openAt2 b =>
    obtain ⟨i, hi⟩ := sqe_of_setFileIndex hSqe
    rw [hi]
    rfl
  case socket b =>
    obtain ⟨i, hi⟩ := sqe_of_setFileIndex hSqe
    rw [hi]
    exact congrArg (fun n => Op.socket { b with socketType := n })
      (Int32.toInt32_toInt64 b.socketType)
  -- the other builders do not panic
  all_goals obtain rfl := Option.some.inj h
  case pollAdd b =>
    obtain ⟨fd, flags, multi⟩ := b
    cases multi <;> rfl
  case connect b =>
    exact congrArg (fun n => Op.connect { b with addrlen := n }) (UInt32.toUInt32_toUInt64 _)
  case bind b =>
    exact congrArg (fun n => Op.bind { b with addrlen := n }) (UInt32.toUInt32_toUInt64 _)
  case epollCtl b =>
    exact congrArg (fun n => Op.epollCtl { b with fd := n }) (Int32.toInt32_toInt64 b.fd)
  case splice b =>
    obtain ⟨fdIn, offIn, fdOut, offOut, len, flags⟩ := b
    cases fdIn <;> rfl
  case tee b =>
    obtain ⟨fdIn, fdOut, len, flags⟩ := b
    cases fdIn <;> rfl
  case provideBuffers b =>
    exact congrArg₂ (fun n k => Op.provideBuffers { b with nbufs := n, bid := k })
      (UInt16.toUInt16_toUInt32 b.nbufs) (UInt16.toUInt16_toUInt64 b.bid)
  case removeBuffers b =>
    exact congrArg (fun n => Op.removeBuffers { b with nbufs := n })
      (UInt16.toUInt16_toUInt32 b.nbufs)
  case msgRingSendFd b =>
    obtain ⟨fd, srcFd, destSlot, userData, flags⟩ := b
    have hSlot := slotOf_kernelIndexArg destSlot
    cases srcFd <;>
      exact congrArg (fun slot => Op.msgRingSendFd ⟨fd, _, slot, userData, flags⟩) hSlot
  case pipe b =>
    obtain ⟨fds, flags, fileIndex⟩ := b
    cases fileIndex <;> rfl
  case send b =>
    obtain ⟨-, hAddr, hLen⟩ := setDestAddr_fields b.destAddr b.destAddrLen _
    exact congrArg₂ (fun n k => Op.send { b with buf := n, len := k }) hAddr hLen
  case sendZc b =>
    obtain ⟨-, hAddr, hLen⟩ := setDestAddr_fields b.destAddr b.destAddrLen _
    exact congrArg₂ (fun n k => Op.sendZc { b with buf := n, len := k }) hAddr hLen
  case uringCmd16 b =>
    obtain ⟨hOp, hCmd⟩ := uringCmd16_fields b
    exact congrArg₂ (fun n c => Op.uringCmd16 { b with cmdOp := n, cmd := c }) hOp hCmd
  case uringCmd80 b =>
    obtain ⟨hOp, hCmd⟩ := uringCmd80_fields b
    exact congrArg₂ (fun n c => Op.uringCmd80 { b with cmdOp := n, cmd := c }) hOp hCmd
  case setSockOpt b =>
    exact congrArg₂ (fun n k => Op.setSockOpt { b with level := n, optname := k })
      (level_of_pair b.optname b.level) (optname_of_pair b.optname b.level)
  all_goals rfl

/-! ## The result -/

/-- Two messages that differ in the upper half of their flags at most. -/
def DifferHigh : Op → Op → Prop
  | .msgRing b, .msgRing b' =>
    b' = { b with userFlags := b'.userFlags } ∧ b.userFlags.toUInt16 = b'.userFlags.toUInt16
  | _, _ => False

theorem msgRing_or_narrowed_eq (op : Op) : (∃ b, op = .msgRing b) ∨ op.narrowed = op := by
  cases op
  case msgRing b => exact .inl ⟨b, rfl⟩
  all_goals exact .inr rfl

theorem narrowed_eq_msgRing {op : Op} {b : MsgRing} (h : op.narrowed = .msgRing b) :
    ∃ b', op = .msgRing b' := by
  rcases msgRing_or_narrowed_eq op with hMsg | hSame
  · exact hMsg
  · exact ⟨b, hSame.symm.trans h⟩

theorem differHigh_of_msgRing {b b' : MsgRing}
    (h : (Op.msgRing b).narrowed = (Op.msgRing b').narrowed) :
    DifferHigh (.msgRing b) (.msgRing b') := by
  obtain ⟨fd, result, userData, userFlags, opcode, flags⟩ := b
  obtain ⟨fd', result', userData', userFlags', opcode', flags'⟩ := b'
  simp only [Op.narrowed, Op.msgRing.injEq, MsgRing.mk.injEq] at h
  obtain ⟨rfl, rfl, rfl, hFlags, rfl, rfl⟩ := h
  have hLow := congrArg UInt32.toUInt16 hFlags
  rw [UInt16.toUInt16_toUInt32, UInt16.toUInt16_toUInt32] at hLow
  exact ⟨rfl, hLow⟩

theorem differHigh_of_narrowed_eq {op op' : Op} (h : op.narrowed = op'.narrowed)
    (hDiffer : op ≠ op') : DifferHigh op op' := by
  rcases msgRing_or_narrowed_eq op with ⟨b, rfl⟩ | hSame
  · obtain ⟨b', rfl⟩ := narrowed_eq_msgRing h.symm
    exact differHigh_of_msgRing h
  · rcases msgRing_or_narrowed_eq op' with ⟨b', rfl⟩ | hSame'
    · obtain ⟨b, rfl⟩ := narrowed_eq_msgRing h
      exact differHigh_of_msgRing h
    · exact absurd (hSame.symm.trans (h.trans hSame')) hDiffer

/-- The entries of such messages are equal. -/
theorem build_of_differHigh {op op' : Op} (h : DifferHigh op op') (overflowChecks : Bool) :
    ∃ e, op.build overflowChecks = some e ∧ op'.build overflowChecks = some e := by
  unfold DifferHigh at h
  split at h
  case h_1 b b' =>
    obtain ⟨hRest, hLow⟩ := h
    refine ⟨_, rfl, ?_⟩
    rw [hRest]
    exact congrArg (fun n => some (Built.entry ⟨{ b.build.sqe with bufIndex := n }⟩)) hLow.symm
  case h_2 => exact h.elim

/-- **Arguments are kept**: two builders that differ in their arguments, or in the payload of a
command, build different entries, unless they are messages that differ in the upper half of
their flags only. -/
theorem argsKept_iff (overflowChecks : Bool) {op op' : Op} (hSettings : SameSettings op op')
    (hDiffer : op ≠ op') :
    (∀ e e', op.build overflowChecks = some e → op'.build overflowChecks = some e' → e ≠ e') ↔
      ¬ DifferHigh op op' := by
  constructor
  · intro hKept hHigh
    obtain ⟨e, h, h'⟩ := build_of_differHigh hHigh overflowChecks
    exact hKept e e h h' rfl
  · rintro hNot e _ h h' rfl
    have hArgs := withArgs_of_build h
    rw [hSettings.withArgs_eq, withArgs_of_build h'] at hArgs
    exact hNot (differHigh_of_narrowed_eq hArgs.symm hDiffer)

/-- A command whose payload ends with the byte `last`. -/
def cmdWith (last : UInt8) : Op :=
  .uringCmd80 { fd := .fd 3, cmdOp := 1, cmd := .set (.replicate 80 0) 79 last }

theorem argsKept_iff_cmd :
    (∀ e e', (cmdWith 0).build true = some e → (cmdWith 1).build true = some e' → e ≠ e') ↔
      ¬ DifferHigh (cmdWith 0) (cmdWith 1) := by
  refine argsKept_iff true rfl ?_
  intro h
  simp only [cmdWith, Op.uringCmd80.injEq, UringCmd80.mk.injEq] at h
  exact absurd h.2.2.2 (by decide +kernel)

/-- A message with the flags `userFlags`. -/
def msgWith (userFlags : UInt32) : Op :=
  .msgRing { fd := 5, result := 0, userData := 7, userFlags }

/-- The upper half of the flags is lost. -/
theorem msgRing_flags_lost : SameSettings (msgWith 0x10000) (msgWith 0) ∧
    msgWith 0x10000 ≠ msgWith 0 ∧
    ∃ e, (msgWith 0x10000).build true = some e ∧ (msgWith 0).build true = some e := by
  refine ⟨rfl, ?_, _, rfl, rfl⟩
  intro h
  simp only [msgWith, Op.msgRing.injEq, MsgRing.mk.injEq] at h
  exact absurd h.2.2.2.1 (by decide)

end Miring.Opcode
