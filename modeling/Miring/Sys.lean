/-!
# Kernel types and constants

The part of `sys.rs` that the emulator uses: the submission and completion queue entries
with the fields of the kernel layout, the opcodes, and the flag bits.
-/

namespace Miring.Sys

/-! ## Flags of `io_uring_setup` -/

def ioringSetupIopoll : UInt32 := 1
def ioringSetupSqpoll : UInt32 := 2
def ioringSetupSqAff : UInt32 := 4
def ioringSetupCqsize : UInt32 := 8
def ioringSetupClamp : UInt32 := 16
def ioringSetupAttachWq : UInt32 := 32
def ioringSetupRDisabled : UInt32 := 64
def ioringSetupSubmitAll : UInt32 := 128
def ioringSetupCoopTaskrun : UInt32 := 256
def ioringSetupTaskrunFlag : UInt32 := 512
def ioringSetupSqe128 : UInt32 := 1024
def ioringSetupCqe32 : UInt32 := 2048
def ioringSetupSingleIssuer : UInt32 := 4096
def ioringSetupDeferTaskrun : UInt32 := 8192

/-! ## Bit positions of the flags of an SQE -/

def iosqeFixedFileBit : UInt8 := 0
def iosqeIoDrainBit : UInt8 := 1
def iosqeIoLinkBit : UInt8 := 2
def iosqeIoHardlinkBit : UInt8 := 3
def iosqeAsyncBit : UInt8 := 4
def iosqeBufferSelectBit : UInt8 := 5
def iosqeCqeSkipSuccessBit : UInt8 := 6

/-! ## Opcodes -/

@[match_pattern] abbrev ioringOpNop : Nat := 0
@[match_pattern] abbrev ioringOpReadv : Nat := 1
@[match_pattern] abbrev ioringOpWritev : Nat := 2
@[match_pattern] abbrev ioringOpFsync : Nat := 3
@[match_pattern] abbrev ioringOpReadFixed : Nat := 4
@[match_pattern] abbrev ioringOpWriteFixed : Nat := 5
@[match_pattern] abbrev ioringOpPollAdd : Nat := 6
@[match_pattern] abbrev ioringOpPollRemove : Nat := 7
@[match_pattern] abbrev ioringOpSyncFileRange : Nat := 8
@[match_pattern] abbrev ioringOpSendmsg : Nat := 9
@[match_pattern] abbrev ioringOpRecvmsg : Nat := 10
@[match_pattern] abbrev ioringOpTimeout : Nat := 11
@[match_pattern] abbrev ioringOpTimeoutRemove : Nat := 12
@[match_pattern] abbrev ioringOpAccept : Nat := 13
@[match_pattern] abbrev ioringOpAsyncCancel : Nat := 14
@[match_pattern] abbrev ioringOpLinkTimeout : Nat := 15
@[match_pattern] abbrev ioringOpConnect : Nat := 16
@[match_pattern] abbrev ioringOpFallocate : Nat := 17
@[match_pattern] abbrev ioringOpOpenat : Nat := 18
@[match_pattern] abbrev ioringOpClose : Nat := 19
@[match_pattern] abbrev ioringOpFilesUpdate : Nat := 20
@[match_pattern] abbrev ioringOpStatx : Nat := 21
@[match_pattern] abbrev ioringOpRead : Nat := 22
@[match_pattern] abbrev ioringOpWrite : Nat := 23
@[match_pattern] abbrev ioringOpFadvise : Nat := 24
@[match_pattern] abbrev ioringOpMadvise : Nat := 25
@[match_pattern] abbrev ioringOpSend : Nat := 26
@[match_pattern] abbrev ioringOpRecv : Nat := 27
@[match_pattern] abbrev ioringOpOpenat2 : Nat := 28
@[match_pattern] abbrev ioringOpEpollCtl : Nat := 29
@[match_pattern] abbrev ioringOpSplice : Nat := 30
@[match_pattern] abbrev ioringOpProvideBuffers : Nat := 31
@[match_pattern] abbrev ioringOpRemoveBuffers : Nat := 32
@[match_pattern] abbrev ioringOpTee : Nat := 33
@[match_pattern] abbrev ioringOpShutdown : Nat := 34
@[match_pattern] abbrev ioringOpRenameat : Nat := 35
@[match_pattern] abbrev ioringOpUnlinkat : Nat := 36
@[match_pattern] abbrev ioringOpMkdirat : Nat := 37
@[match_pattern] abbrev ioringOpSymlinkat : Nat := 38
@[match_pattern] abbrev ioringOpLinkat : Nat := 39
@[match_pattern] abbrev ioringOpMsgRing : Nat := 40
@[match_pattern] abbrev ioringOpFsetxattr : Nat := 41
@[match_pattern] abbrev ioringOpSetxattr : Nat := 42
@[match_pattern] abbrev ioringOpFgetxattr : Nat := 43
@[match_pattern] abbrev ioringOpGetxattr : Nat := 44
@[match_pattern] abbrev ioringOpSocket : Nat := 45
@[match_pattern] abbrev ioringOpUringCmd : Nat := 46
@[match_pattern] abbrev ioringOpSendZc : Nat := 47
@[match_pattern] abbrev ioringOpSendmsgZc : Nat := 48
@[match_pattern] abbrev ioringOpReadMultishot : Nat := 49
@[match_pattern] abbrev ioringOpWaitid : Nat := 50
@[match_pattern] abbrev ioringOpFutexWait : Nat := 51
@[match_pattern] abbrev ioringOpFutexWake : Nat := 52
@[match_pattern] abbrev ioringOpFutexWaitv : Nat := 53
@[match_pattern] abbrev ioringOpFixedFdInstall : Nat := 54
@[match_pattern] abbrev ioringOpFtruncate : Nat := 55
@[match_pattern] abbrev ioringOpBind : Nat := 56
@[match_pattern] abbrev ioringOpListen : Nat := 57
@[match_pattern] abbrev ioringOpRecvZc : Nat := 58
@[match_pattern] abbrev ioringOpEpollWait : Nat := 59
@[match_pattern] abbrev ioringOpReadvFixed : Nat := 60
@[match_pattern] abbrev ioringOpWritevFixed : Nat := 61
@[match_pattern] abbrev ioringOpPipe : Nat := 62

/-! ## Flags of single operations -/

def ioringNopInjectResult : UInt32 := 1
def ioringPollAddMulti : UInt32 := 1
def ioringTimeoutUpdate : UInt32 := 2
def ioringAsyncCancelAll : UInt32 := 1
def ioringAsyncCancelFd : UInt32 := 2
def ioringAsyncCancelAny : UInt32 := 4
def ioringAsyncCancelFdFixed : UInt32 := 8
def spliceFFdInFixed : UInt32 := 2147483648
def ioringAcceptMultishot : UInt32 := 1
def ioringRecvMultishot : UInt32 := 2
def ioringRecvsendBundle : UInt32 := 16
def ioringMsgData : UInt32 := 0
def ioringMsgSendFd : UInt32 := 1
def ioringUringCmdFixed : UInt32 := 1
def socketUringOpSetsockopt : UInt32 := 0

/-- The kernel picks the slot of a fixed file. -/
def ioringFileIndexAlloc : Int32 := -1

/-! ## Flags of a CQE -/

def ioringCqeFBuffer : UInt32 := 1
def ioringCqeBufferShift : UInt32 := 16

/-! ## Flags of the rings -/

def ioringSqNeedWakeup : UInt32 := 1
def ioringSqCqOverflow : UInt32 := 2
def ioringSqTaskrun : UInt32 := 4

def ioringCqEventfdDisabled : UInt32 := 1

/-! ## Feature flags -/

def ioringFeatSingleMmap : UInt32 := 1
def ioringFeatNodrop : UInt32 := 2
def ioringFeatSubmitStable : UInt32 := 4
def ioringFeatRwCurPos : UInt32 := 8
def ioringFeatCurPersonality : UInt32 := 16
def ioringFeatFastPoll : UInt32 := 32
def ioringFeatPoll32bits : UInt32 := 64
def ioringFeatSqpollNonfixed : UInt32 := 128
def ioringFeatExtArg : UInt32 := 256
def ioringFeatNativeWorkers : UInt32 := 512
def ioringFeatRsrcTags : UInt32 := 1024
def ioringFeatCqeSkip : UInt32 := 2048
def ioringFeatLinkedFile : UInt32 := 4096
def ioringFeatRegRegRing : UInt32 := 8192

/-! ## Core structures -/

/-- Submission queue entry. The unions of the kernel layout are flattened, as in the
source; the default of every field is the zero of `io_uring_sqe::default()`. -/
structure IoUringSqe where
  opcode : UInt8 := 0
  flags : UInt8 := 0
  ioprio : UInt16 := 0
  fd : Int32 := 0
  off : UInt64 := 0
  addr : UInt64 := 0
  len : UInt32 := 0
  opFlags : UInt32 := 0
  userData : UInt64 := 0
  bufIndex : UInt16 := 0
  personality : UInt16 := 0
  spliceFdIn : Int32 := 0
  addr3 : UInt64 := 0
  pad2 : UInt64 := 0
  deriving DecidableEq, Repr

/-- Completion queue entry. -/
structure IoUringCqe where
  userData : UInt64 := 0
  res : Int32 := 0
  flags : UInt32 := 0
  deriving DecidableEq, Repr

/-- The fields of `io_uring_params` that are not mere offsets or padding. -/
structure IoUringParams where
  sqEntries : UInt32 := 0
  cqEntries : UInt32 := 0
  flags : UInt32 := 0
  sqThreadCpu : UInt32 := 0
  sqThreadIdle : UInt32 := 0
  features : UInt32 := 0
  wqFd : UInt32 := 0
  deriving DecidableEq, Repr

end Miring.Sys
