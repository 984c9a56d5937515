import Miring.Dispatch.Access

/-!
# Dispatch handlers

`dispatch_op` of `submit.rs` and the handlers it selects by opcode. A handler touches the
user memory of a request as the kernel would and returns the result code.

A field of an `Iovec`, a `MsgHdr` or a `futex_waitv` is read where the source reads it, and two
reads with nothing in between are one here (the null check and the slice). The length of an
iovec is read again behind the access to its target, for the sum: a target that covers its own
iovec has put zeros there.
-/

namespace Miring.Dispatch

open Sys

/-! ## Nop -/

def dispatchNop (sqe : IoUringSqe) : UserProgram Int32 :=
  if sqe.opFlags &&& ioringNopInjectResult ≠ 0 then
    pure (asI32 sqe.len.toNat)
  else
    pure 0

/-! ## Single-buffer operations -/

/-- Read-like: the kernel writes into the user buffer. -/
def dispatchBufFill (sqe : IoUringSqe) : UserProgram Int32 :=
  let addr := sqe.addr.toNat
  let len := sqe.len.toNat
  if addr = 0 ∨ len = 0 then pure 0
  else do
    fill addr len
    pure (asI32 len)

/-- Write-like: the kernel reads from the user buffer. -/
def dispatchBufSink (sqe : IoUringSqe) : UserProgram Int32 :=
  let addr := sqe.addr.toNat
  let len := sqe.len.toNat
  if addr = 0 ∨ len = 0 then pure 0
  else do
    readBytes addr len
    pure (asI32 len)

/-! ## Vectored I/O -/

/-- `size_of::<Iovec>()` -/
def iovecSize : Nat := 16

/-- One turn of the loop over the iovecs: the target is touched by `touch`. -/
def walkIovec (touch : Nat → Nat → UserProgram Unit) (iov total : Nat) : UserProgram Nat := do
  let iovBase ← readUsize iov
  if iovBase = 0 then pure total
  else do
    let iovLen ← readUsize (iov + 8)
    if iovLen = 0 then pure total
    else do
      touch iovBase iovLen
      -- `iov.iov_len` once more, from memory
      let added ← readUsize (iov + 8)
      pure (saturatingAdd total added)

def walkIovecs (touch : Nat → Nat → UserProgram Unit) (iov : Nat) : Nat → Nat → UserProgram Nat
  | 0, total => pure total
  | n + 1, total => do
      let total ← walkIovec touch iov total
      walkIovecs touch (iov + iovecSize) n total

def dispatchReadv (sqe : IoUringSqe) : UserProgram Int32 :=
  let iovPtr := sqe.addr.toNat
  let nrVecs := sqe.len.toNat
  if iovPtr = 0 ∨ nrVecs = 0 then pure 0
  else do
    let total ← walkIovecs fill iovPtr nrVecs 0
    pure (asI32 total)

def dispatchWritev (sqe : IoUringSqe) : UserProgram Int32 :=
  let iovPtr := sqe.addr.toNat
  let nrVecs := sqe.len.toNat
  if iovPtr = 0 ∨ nrVecs = 0 then pure 0
  else do
    let total ← walkIovecs readBytes iovPtr nrVecs 0
    pure (asI32 total)

/-! ## RecvMsg and SendMsg -/

namespace MsgHdr

/-! Offsets of the fields of `struct MsgHdr`. -/

def msgName : Nat := 0
def msgNamelen : Nat := 8
def msgIov : Nat := 16
def msgIovlen : Nat := 24
def msgControl : Nat := 32
def msgControllen : Nat := 40

/-- `size_of::<MsgHdr>()` -/
def size : Nat := 56

end MsgHdr

/-- `if !ptr.is_null() && len > 0 { touch the slice }` for a pointer and a length stored in
the header. -/
def walkHdrBuf (touch : Nat → Nat → UserProgram Unit) (ptr : Nat) (len : UserProgram Nat) :
    UserProgram Unit := do
  let base ← readUsize ptr
  if base = 0 then pure ()
  else do
    let n ← len
    if n = 0 then pure () else touch base n

/-- The part of `dispatch_recvmsg` and `dispatch_sendmsg` behind the null check. -/
def walkMsgHdr (touch : Nat → Nat → UserProgram Unit) (hdr : Nat) : UserProgram Int32 := do
  walkHdrBuf touch (hdr + MsgHdr.msgName) (readU32 (hdr + MsgHdr.msgNamelen))
  walkHdrBuf touch (hdr + MsgHdr.msgControl) (readUsize (hdr + MsgHdr.msgControllen))
  let msgIov ← readUsize (hdr + MsgHdr.msgIov)
  if msgIov = 0 then pure (asI32 0)
  else do
    let msgIovlen ← readUsize (hdr + MsgHdr.msgIovlen)
    if msgIovlen = 0 then pure (asI32 0)
    else do
      let total ← walkIovecs touch msgIov msgIovlen 0
      pure (asI32 total)

/-- RecvMsg: the kernel reads the header and writes to the scatter buffers. -/
def dispatchRecvmsg (sqe : IoUringSqe) : UserProgram Int32 :=
  let hdrPtr := sqe.addr.toNat
  if hdrPtr = 0 then pure (-14) else walkMsgHdr fill hdrPtr

/-- SendMsg: the kernel reads the header and the gather buffers. -/
def dispatchSendmsg (sqe : IoUringSqe) : UserProgram Int32 :=
  let hdrPtr := sqe.addr.toNat
  if hdrPtr = 0 then pure (-14) else walkMsgHdr readBytes hdrPtr

/-! ## Timeout, connect and accept -/

/-- `size_of::<__kernel_timespec>()` -/
def timespecSize : Nat := 16

def dispatchTimeout (sqe : IoUringSqe) : UserProgram Int32 :=
  let tsPtr := sqe.addr.toNat
  if tsPtr = 0 then pure (-14)
  else do
    readBytes tsPtr timespecSize
    pure (-62)

/-- Connect and bind: the length of the address is in `off`. -/
def dispatchConnect (sqe : IoUringSqe) : UserProgram Int32 :=
  let addr := sqe.addr.toNat
  let addrLen := sqe.off.toNat
  if addr = 0 ∨ addrLen = 0 then pure (-14)
  else do
    readBytes addr addrLen
    pure 0

def dispatchAccept (sqe : IoUringSqe) : UserProgram Int32 :=
  let addr := sqe.addr.toNat
  let addrlenPtr := sqe.off.toNat
  if addr ≠ 0 ∧ addrlenPtr ≠ 0 then do
    let addrlen ← readU32 addrlenPtr
    (if addrlen = 0 then pure () else fill addr addrlen)
    writeLe addrlenPtr 4 0
    pure 42
  else
    pure 42

/-! ## Pathname operations -/

def dispatchOpenat (sqe : IoUringSqe) : UserProgram Int32 :=
  let path := sqe.addr.toNat
  if path = 0 then pure (-14)
  else do
    walkCstr path
    pure 42

/-- `size_of::<open_how>()` -/
def openHowSize : Nat := 24

def dispatchOpenat2 (sqe : IoUringSqe) : UserProgram Int32 :=
  let path := sqe.addr.toNat
  let howPtr := sqe.off.toNat
  if path = 0 then pure (-14)
  else do
    walkCstr path
    (if howPtr = 0 then pure () else readBytes howPtr openHowSize)
    pure 42

def statxSize : Nat := 256

def dispatchStatx (sqe : IoUringSqe) : UserProgram Int32 := do
  let path := sqe.addr.toNat
  (if path = 0 then pure () else walkCstr path)
  let statxPtr := sqe.off.toNat
  (if statxPtr = 0 then pure () else fill statxPtr statxSize)
  pure 0

/-- One pathname in `addr`. -/
def dispatchPathname (sqe : IoUringSqe) : UserProgram Int32 :=
  let path := sqe.addr.toNat
  if path = 0 then pure (-14)
  else do
    walkCstr path
    pure 0

/-- Two pathnames, in `addr` and `off`. -/
def dispatchPathname2 (sqe : IoUringSqe) : UserProgram Int32 :=
  let path1 := sqe.addr.toNat
  let path2 := sqe.off.toNat
  if path1 = 0 ∨ path2 = 0 then pure (-14)
  else do
    walkCstr path1
    walkCstr path2
    pure 0

/-! ## Epoll, registered files and provided buffers -/

/-- `epoll_event` is packed: four bytes of events and eight of data. -/
def epollEventSize : Nat := 12

def dispatchEpollCtl (sqe : IoUringSqe) : UserProgram Int32 :=
  let evPtr := sqe.addr.toNat
  if evPtr = 0 then pure 0
  else do
    readBytes evPtr epollEventSize
    pure 0

/-- The array holds `len` descriptors of four bytes. -/
def dispatchFilesUpdate (sqe : IoUringSqe) : UserProgram Int32 :=
  let fds := sqe.addr.toNat
  let len := sqe.len.toNat
  if fds = 0 ∨ len = 0 then pure 0
  else do
    readBytes fds (len * 4)
    pure (asI32 len)

/-- Only the first and the last byte of the range are touched; `fd` holds the number of
buffers. -/
def dispatchProvideBuffers (sqe : IoUringSqe) : UserProgram Int32 :=
  let addr := sqe.addr.toNat
  let bufLen := sqe.len.toNat
  let nbufs := asUsize sqe.fd
  if addr = 0 ∨ bufLen = 0 ∨ nbufs = 0 then pure 0
  else do
    let total := saturatingMul nbufs bufLen
    let _ ← readU8 addr
    let _ ← readU8 (addr + (total - 1))
    pure 0

def dispatchEpollWait (sqe : IoUringSqe) : UserProgram Int32 :=
  let events := sqe.addr.toNat
  let maxEvents := sqe.len.toNat
  if events = 0 ∨ maxEvents = 0 then pure 0
  else do
    fill events (maxEvents * epollEventSize)
    pure 0

/-! ## Extended attributes -/

/-- Name in `addr`, value in `off` and `len`, and for SETXATTR the path in `addr3`. -/
def dispatchXattrSet (sqe : IoUringSqe) : UserProgram Int32 := do
  let name := sqe.addr.toNat
  (if name = 0 then pure () else walkCstr name)
  let value := sqe.off.toNat
  let len := sqe.len.toNat
  (if value = 0 ∨ len = 0 then pure () else readBytes value len)
  let path := sqe.addr3.toNat
  (if sqe.opcode.toNat ≠ ioringOpSetxattr ∨ path = 0 then pure () else walkCstr path)
  pure 0

/-- Name in `addr`, value buffer in `off` and `len`, and for GETXATTR the path in `addr3`.
The result is `len` also where the value pointer is null. -/
def dispatchXattrGet (sqe : IoUringSqe) : UserProgram Int32 := do
  let name := sqe.addr.toNat
  (if name = 0 then pure () else walkCstr name)
  let value := sqe.off.toNat
  let len := sqe.len.toNat
  (if value = 0 ∨ len = 0 then pure () else fill value len)
  let path := sqe.addr3.toNat
  (if sqe.opcode.toNat ≠ ioringOpGetxattr ∨ path = 0 then pure () else walkCstr path)
  pure (asI32 len)

/-! ## Futex, waitid and pipe -/

def dispatchFutexRead (sqe : IoUringSqe) : UserProgram Int32 :=
  let futex := sqe.addr.toNat
  if futex = 0 then pure (-14)
  else do
    let _ ← readU32 futex
    pure 0

/-- `size_of::<futex_waitv>()` -/
def futexWaitvSize : Nat := 24

/-- Of each entry the fields `val`, `uaddr` and `flags` are read, its first 20 bytes. -/
def walkFutexWaitv (entry : Nat) : Nat → UserProgram Unit
  | 0 => pure ()
  | n + 1 => do
      readBytes entry 20
      walkFutexWaitv (entry + futexWaitvSize) n

def dispatchFutexWaitv (sqe : IoUringSqe) : UserProgram Int32 :=
  let arr := sqe.addr.toNat
  let nr := sqe.len.toNat
  if arr = 0 ∨ nr = 0 then pure (-14)
  else do
    walkFutexWaitv arr nr
    pure 0

def siginfoSize : Nat := 128

def dispatchWaitid (sqe : IoUringSqe) : UserProgram Int32 := do
  let infop := sqe.off.toNat
  (if infop = 0 then pure () else fill infop siginfoSize)
  pure 0

def dispatchPipe (sqe : IoUringSqe) : UserProgram Int32 :=
  let fds := sqe.addr.toNat
  if fds = 0 then pure (-14)
  else do
    writeLe fds 4 42
    writeLe (fds + 4) 4 43
    pure 0

/-! ## Dispatch by opcode -/

def dispatchOp (sqe : IoUringSqe) : UserProgram Int32 :=
  match sqe.opcode.toNat with
  | ioringOpNop => dispatchNop sqe
  | ioringOpRead | ioringOpReadFixed | ioringOpRecv => dispatchBufFill sqe
  | ioringOpWrite | ioringOpWriteFixed | ioringOpSend | ioringOpSendZc => dispatchBufSink sqe
  | ioringOpReadv => dispatchReadv sqe
  | ioringOpWritev => dispatchWritev sqe
  | ioringOpRecvmsg => dispatchRecvmsg sqe
  | ioringOpSendmsg | ioringOpSendmsgZc => dispatchSendmsg sqe
  | ioringOpTimeout | ioringOpLinkTimeout => dispatchTimeout sqe
  | ioringOpConnect => dispatchConnect sqe
  | ioringOpAccept => dispatchAccept sqe
  | ioringOpOpenat => dispatchOpenat sqe
  | ioringOpOpenat2 => dispatchOpenat2 sqe
  | ioringOpStatx => dispatchStatx sqe
  | ioringOpUnlinkat | ioringOpMkdirat => dispatchPathname sqe
  | ioringOpRenameat | ioringOpSymlinkat | ioringOpLinkat => dispatchPathname2 sqe
  | ioringOpBind => dispatchConnect sqe
  | ioringOpEpollCtl => dispatchEpollCtl sqe
  | ioringOpFilesUpdate => dispatchFilesUpdate sqe
  | ioringOpProvideBuffers => dispatchProvideBuffers sqe
  | ioringOpFsetxattr | ioringOpSetxattr => dispatchXattrSet sqe
  | ioringOpFgetxattr | ioringOpGetxattr => dispatchXattrGet sqe
  | ioringOpEpollWait => dispatchEpollWait sqe
  | ioringOpReadvFixed => dispatchReadv sqe
  | ioringOpWritevFixed => dispatchWritev sqe
  | ioringOpReadMultishot => dispatchBufFill sqe
  | ioringOpFutexWait | ioringOpFutexWake => dispatchFutexRead sqe
  | ioringOpFutexWaitv => dispatchFutexWaitv sqe
  | ioringOpWaitid => dispatchWaitid sqe
  | ioringOpPipe => dispatchPipe sqe
  | ioringOpClose | ioringOpFsync | ioringOpSyncFileRange | ioringOpFallocate
  | ioringOpFtruncate | ioringOpShutdown | ioringOpPollAdd | ioringOpPollRemove
  | ioringOpAsyncCancel | ioringOpTimeoutRemove | ioringOpSplice | ioringOpTee
  | ioringOpRemoveBuffers | ioringOpFadvise | ioringOpMadvise | ioringOpMsgRing
  | ioringOpListen | ioringOpUringCmd | ioringOpRecvZc => pure 0
  | ioringOpSocket | ioringOpFixedFdInstall => pure 42
  | _ => pure (-38)

end Miring.Dispatch
