import Miring.Opcode.Basic

/-!
# Control

Timeouts, cancellation, polling, futexes, messages between rings and device commands.
-/

namespace Miring.Opcode

open Sys Miring.Types Bytes
open Squeue (Entry Entry128)

/-- Do not perform any I/O. -/
structure Nop where
  nopFlags : UInt32 := 0
  nopResult : UInt32 := 0

def Nop.build (b : Nop) : Entry :=
  ⟨{
    opcode := .ofNat ioringOpNop
    fd := -1
    opFlags := b.nopFlags
    len := b.nopResult }⟩

/-- Poll for events on a file descriptor. -/
structure PollAdd where
  fd : Target
  flags : UInt32
  multi : Bool := false

def PollAdd.build (b : PollAdd) : Entry :=
  let sqe := assignFd { opcode := .ofNat ioringOpPollAdd } b.fd
  let sqe := { sqe with opFlags := b.flags }
  ⟨if b.multi then { sqe with len := ioringPollAddMulti } else sqe⟩

/-- Remove a previously added poll request. -/
structure PollRemove where
  userData : UInt64

def PollRemove.build (b : PollRemove) : Entry :=
  ⟨{
    opcode := .ofNat ioringOpPollRemove
    fd := -1
    addr := b.userData }⟩

/-- Register a timeout operation. -/
structure Timeout where
  timespec : Ptr
  count : UInt32 := 0
  flags : UInt32 := 0

def Timeout.build (b : Timeout) : Entry :=
  ⟨{
    opcode := .ofNat ioringOpTimeout
    fd := -1
    addr := b.timespec
    len := b.count
    opFlags := b.flags
    off := 1 }⟩

/-- Remove a previously registered timeout. -/
structure TimeoutRemove where
  userData : UInt64
  flags : UInt32 := 0

def TimeoutRemove.build (b : TimeoutRemove) : Entry :=
  ⟨{
    opcode := .ofNat ioringOpTimeoutRemove
    fd := -1
    addr := b.userData
    opFlags := b.flags }⟩

/-- Cancel an in-flight async operation. -/
structure AsyncCancel where
  userData : UInt64

def AsyncCancel.build (b : AsyncCancel) : Entry :=
  ⟨{
    opcode := .ofNat ioringOpAsyncCancel
    fd := -1
    addr := b.userData }⟩

/-- Link timeout — timeout for linked operations. -/
structure LinkTimeout where
  timespec : Ptr
  flags : UInt32 := 0

def LinkTimeout.build (b : LinkTimeout) : Entry :=
  ⟨{
    opcode := .ofNat ioringOpLinkTimeout
    fd := -1
    addr := b.timespec
    opFlags := b.flags }⟩

/-- Modify an epoll file descriptor, equivalent to `epoll_ctl(2)`. -/
structure EpollCtl where
  epfd : Target
  fd : Int32
  op : Int32
  ev : Ptr

def EpollCtl.build (b : EpollCtl) : Entry :=
  let sqe := assignFd { opcode := .ofNat ioringOpEpollCtl } b.epfd
  ⟨{ sqe with
    off := b.fd.toInt64.toUInt64
    len := b.op.toUInt32
    addr := b.ev }⟩

/-- Send a message to another io_uring instance. -/
structure MsgRing where
  fd : Int32
  result : Int32
  userData : UInt64
  userFlags : UInt32
  opcode : UInt32 := ioringMsgData
  flags : UInt32 := 0

def MsgRing.build (b : MsgRing) : Entry :=
  ⟨{
    opcode := .ofNat ioringOpMsgRing
    fd := b.fd
    len := b.result.toUInt32
    off := b.userData
    opFlags := b.flags
    spliceFdIn := b.opcode.toInt32
    bufIndex := b.userFlags.toUInt16 }⟩

/-- Send a fixed file descriptor to another io_uring instance. -/
structure MsgRingSendFd where
  fd : Int32
  srcFd : Target
  destSlot : DestinationSlot
  userData : UInt64
  flags : UInt32 := 0

def MsgRingSendFd.build (b : MsgRingSendFd) : Entry :=
  let sqe : IoUringSqe := {
    opcode := .ofNat ioringOpMsgRing
    fd := b.fd
    off := b.userData
    opFlags := b.flags
    spliceFdIn := ioringMsgSendFd.toInt32 }
  let sqe := match b.srcFd with
    | .fd src => { sqe with addr := src.toInt64.toUInt64 }
    | .fixed idx =>
      { sqe with
        addr := idx.toUInt64
        flags := sqe.flags ||| Squeue.Flags.fixedFile }
  ⟨{ sqe with addr3 := b.destSlot.kernelIndexArg.toUInt64 }⟩

/-- Cancel an in-flight operation using a [`CancelBuilder`](types::CancelBuilder). -/
structure AsyncCancel2 where
  builder : CancelBuilder

def AsyncCancel2.build (b : AsyncCancel2) : Entry :=
  ⟨{
    opcode := .ofNat ioringOpAsyncCancel
    fd := b.builder.toFd
    addr := b.builder.userData.getD 0
    opFlags := b.builder.flags }⟩

/-- Update an existing timeout operation. -/
structure TimeoutUpdate where
  userData : UInt64
  timespec : Ptr
  flags : UInt32 := 0

def TimeoutUpdate.build (b : TimeoutUpdate) : Entry :=
  ⟨{
    opcode := .ofNat ioringOpTimeoutRemove
    fd := -1
    off := b.timespec
    addr := b.userData
    opFlags := b.flags ||| ioringTimeoutUpdate }⟩

/-- A file/device-specific 16-byte command, akin to `ioctl(2)`. -/
structure UringCmd16 where
  fd : Target
  cmdOp : UInt32
  bufIndex : Option UInt16 := none
  cmd : Vector UInt8 16 := .replicate 16 0

def UringCmd16.build (b : UringCmd16) : Entry :=
  let sqe := assignFd { opcode := .ofNat ioringOpUringCmd } b.fd
  ⟨setCmdBuf b.bufIndex { sqe with
    off := b.cmdOp.toUInt64
    addr3 := fromLeBytes (region b.cmd.toList 0 8)
    pad2 := fromLeBytes (region b.cmd.toList 8 8) }⟩

/-- A file/device-specific 80-byte command (needs [`Entry128`]). -/
structure UringCmd80 where
  fd : Target
  cmdOp : UInt32
  bufIndex : Option UInt16 := none
  cmd : Vector UInt8 80 := .replicate 80 0

def UringCmd80.build (b : UringCmd80) : Entry128 :=
  let sqe := assignFd { opcode := .ofNat ioringOpUringCmd } b.fd
  let sqe := setCmdBuf b.bufIndex { sqe with
    off := b.cmdOp.toUInt64
    addr3 := fromLeBytes (region b.cmd.toList 0 8)
    pad2 := fromLeBytes (region b.cmd.toList 8 8) }
  ⟨⟨sqe⟩, b.cmd.drop 16⟩

/-- Wait on a futex, similar to `futex(2)` `FUTEX_WAIT_BITSET`. -/
structure FutexWait where
  futex : Ptr
  val : UInt64
  mask : UInt64
  futexFlags : UInt32
  flags : UInt32 := 0

def FutexWait.build (b : FutexWait) : Entry :=
  ⟨{
    opcode := .ofNat ioringOpFutexWait
    fd := b.futexFlags.toInt32
    addr := b.futex
    off := b.val
    addr3 := b.mask
    opFlags := b.flags }⟩

/-- Wake waiters on a futex, similar to `futex(2)` `FUTEX_WAKE_BITSET`. -/
structure FutexWake where
  futex : Ptr
  val : UInt64
  mask : UInt64
  futexFlags : UInt32
  flags : UInt32 := 0

def FutexWake.build (b : FutexWake) : Entry :=
  ⟨{
    opcode := .ofNat ioringOpFutexWake
    fd := b.futexFlags.toInt32
    addr := b.futex
    off := b.val
    addr3 := b.mask
    opFlags := b.flags }⟩

/-- Wait on multiple futexes simultaneously. -/
structure FutexWaitV where
  futexv : Ptr
  nrFutex : UInt32
  flags : UInt32 := 0

def FutexWaitV.build (b : FutexWaitV) : Entry :=
  ⟨{
    opcode := .ofNat ioringOpFutexWaitv
    addr := b.futexv
    len := b.nrFutex
    opFlags := b.flags }⟩

/-- Issue the equivalent of a `waitid(2)` system call. -/
structure WaitId where
  idtype : UInt32
  id : UInt32
  options : Int32
  infop : Ptr := 0
  flags : UInt32 := 0

def WaitId.build (b : WaitId) : Entry :=
  ⟨{
    opcode := .ofNat ioringOpWaitid
    fd := b.id.toInt32
    len := b.idtype
    opFlags := b.flags
    spliceFdIn := b.options
    off := b.infop }⟩

/-- Wait for epoll events, equivalent to `epoll_wait(2)`. -/
structure EpollWait where
  fd : Target
  events : Ptr
  maxEvents : UInt32
  flags : UInt32 := 0

def EpollWait.build (b : EpollWait) : Entry :=
  let sqe := assignFd { opcode := .ofNat ioringOpEpollWait } b.fd
  ⟨{ sqe with
    addr := b.events
    len := b.maxEvents
    opFlags := b.flags }⟩

end Miring.Opcode
