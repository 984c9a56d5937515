import Miring.Opcode.Basic

/-!
# Sockets

The operations on sockets, with their multishot and bundle variants.
-/

namespace Miring.Opcode

open Sys Miring.Types
open Squeue (Entry)

/-- Send a message on a socket, equivalent to `sendmsg(2)`. -/
structure SendMsg where
  fd : Target
  msg : Ptr
  ioprio : UInt16 := 0
  flags : UInt32 := 0

def SendMsg.build (b : SendMsg) : Entry :=
  let sqe := assignFd { opcode := .ofNat ioringOpSendmsg } b.fd
  ⟨{ sqe with
    ioprio := b.ioprio
    addr := b.msg
    opFlags := b.flags
    len := 1 }⟩

/-- Receive a message on a socket, equivalent to `recvmsg(2)`. -/
structure RecvMsg where
  fd : Target
  msg : Ptr
  ioprio : UInt16 := 0
  flags : UInt32 := 0
  bufGroup : UInt16 := 0

def RecvMsg.build (b : RecvMsg) : Entry :=
  let sqe := assignFd { opcode := .ofNat ioringOpRecvmsg } b.fd
  ⟨{ sqe with
    ioprio := b.ioprio
    addr := b.msg
    opFlags := b.flags
    len := 1
    bufIndex := b.bufGroup }⟩

/-- Accept a new connection on a socket, equivalent to `accept4(2)`. -/
structure Accept where
  fd : Target
  addr : Ptr := 0
  addrlen : Ptr := 0
  flags : UInt32 := 0
  fileIndex : Option UInt32 := none

def Accept.build (overflowChecks : Bool) (b : Accept) : Option Entry :=
  let sqe := assignFd { opcode := .ofNat ioringOpAccept } b.fd
  (setFileIndex overflowChecks b.fileIndex { sqe with
    addr := b.addr
    off := b.addrlen
    opFlags := b.flags }).map Entry.mk

/-- Connect a socket, equivalent to `connect(2)`. -/
structure Connect where
  fd : Target
  addr : Ptr
  addrlen : UInt32

def Connect.build (b : Connect) : Entry :=
  let sqe := assignFd { opcode := .ofNat ioringOpConnect } b.fd
  ⟨{ sqe with
    addr := b.addr
    off := b.addrlen.toUInt64 }⟩

/-- Send data on a socket, equivalent to `send(2)`. -/
structure Send where
  fd : Target
  buf : Ptr
  len : UInt32
  flags : UInt32 := 0
  destAddr : Ptr := 0
  destAddrLen : UInt16 := 0

def Send.build (b : Send) : Entry :=
  let sqe := assignFd { opcode := .ofNat ioringOpSend } b.fd
  ⟨setDestAddr b.destAddr b.destAddrLen { sqe with
    addr := b.buf
    len := b.len
    opFlags := b.flags }⟩

/-- Receive data from a socket, equivalent to `recv(2)`. -/
structure Recv where
  fd : Target
  buf : Ptr
  len : UInt32
  flags : UInt32 := 0
  bufGroup : UInt16 := 0

def Recv.build (b : Recv) : Entry :=
  let sqe := assignFd { opcode := .ofNat ioringOpRecv } b.fd
  ⟨{ sqe with
    addr := b.buf
    len := b.len
    opFlags := b.flags
    bufIndex := b.bufGroup }⟩

/-- Shutdown a socket, equivalent to `shutdown(2)`. -/
structure Shutdown where
  fd : Target
  how : Int32

def Shutdown.build (b : Shutdown) : Entry :=
  let sqe := assignFd { opcode := .ofNat ioringOpShutdown } b.fd
  ⟨{ sqe with
    len := b.how.toUInt32 }⟩

/-- Create a socket, equivalent to `socket(2)`. -/
structure Socket where
  domain : Int32
  socketType : Int32
  protocol : Int32
  fileIndex : Option UInt32 := none

def Socket.build (overflowChecks : Bool) (b : Socket) : Option Entry :=
  (setFileIndex overflowChecks b.fileIndex {
    opcode := .ofNat ioringOpSocket
    fd := b.domain
    off := b.socketType.toInt64.toUInt64
    len := b.protocol.toUInt32 }).map Entry.mk

/-- Send with zero-copy. -/
structure SendZc where
  fd : Target
  buf : Ptr
  len : UInt32
  flags : UInt32 := 0
  zcFlags : UInt16 := 0
  bufIndex : UInt16 := 0
  destAddr : Ptr := 0
  destAddrLen : UInt16 := 0

def SendZc.build (b : SendZc) : Entry :=
  let sqe := assignFd { opcode := .ofNat ioringOpSendZc } b.fd
  ⟨setDestAddr b.destAddr b.destAddrLen { sqe with
    addr := b.buf
    len := b.len
    opFlags := b.flags
    ioprio := b.zcFlags
    bufIndex := b.bufIndex }⟩

/-- Sendmsg with zero-copy. -/
structure SendMsgZc where
  fd : Target
  msg : Ptr
  ioprio : UInt16 := 0
  flags : UInt32 := 0

def SendMsgZc.build (b : SendMsgZc) : Entry :=
  let sqe := assignFd { opcode := .ofNat ioringOpSendmsgZc } b.fd
  ⟨{ sqe with
    ioprio := b.ioprio
    addr := b.msg
    opFlags := b.flags
    len := 1 }⟩

/-- Bind a socket, equivalent to `bind(2)`. -/
structure Bind where
  fd : Target
  addr : Ptr
  addrlen : UInt32

def Bind.build (b : Bind) : Entry :=
  let sqe := assignFd { opcode := .ofNat ioringOpBind } b.fd
  ⟨{ sqe with
    addr := b.addr
    off := b.addrlen.toUInt64 }⟩

/-- Listen on a socket, equivalent to `listen(2)`. -/
structure Listen where
  fd : Target
  backlog : Int32

def Listen.build (b : Listen) : Entry :=
  let sqe := assignFd { opcode := .ofNat ioringOpListen } b.fd
  ⟨{ sqe with
    len := b.backlog.toUInt32 }⟩

/-- Multishot accept — repeatedly accept connections with a single SQE. -/
structure AcceptMulti where
  fd : Target
  allocateFileIndex : Bool := false
  flags : Int32 := 0

def AcceptMulti.build (b : AcceptMulti) : Entry :=
  let sqe := assignFd { opcode := .ofNat ioringOpAccept } b.fd
  let sqe := { sqe with
    ioprio := ioringAcceptMultishot.toUInt16
    opFlags := b.flags.toUInt32 }
  ⟨if b.allocateFileIndex then { sqe with spliceFdIn := ioringFileIndexAlloc } else sqe⟩

/-- Multishot receive — repeatedly receive messages with buffer selection. -/
structure RecvMulti where
  fd : Target
  bufGroup : UInt16
  flags : Int32 := 0

def RecvMulti.build (b : RecvMulti) : Entry :=
  let sqe := assignFd { opcode := .ofNat ioringOpRecv } b.fd
  let sqe := orBufferSelect { sqe with
    opFlags := b.flags.toUInt32
    bufIndex := b.bufGroup }
  ⟨{ sqe with ioprio := ioringRecvMultishot.toUInt16 }⟩

/-- Multishot recvmsg — repeatedly receive messages with buffer ring selection. -/
structure RecvMsgMulti where
  fd : Target
  msg : Ptr
  bufGroup : UInt16
  ioprio : UInt16 := 0
  flags : UInt32 := 0

def RecvMsgMulti.build (b : RecvMsgMulti) : Entry :=
  let sqe := assignFd { opcode := .ofNat ioringOpRecvmsg } b.fd
  let sqe := orBufferSelect { sqe with
    addr := b.msg
    len := 1
    opFlags := b.flags
    bufIndex := b.bufGroup }
  ⟨{ sqe with ioprio := b.ioprio ||| ioringRecvMultishot.toUInt16 }⟩

/-- Receive a bundle of buffers from a socket. -/
structure RecvBundle where
  fd : Target
  bufGroup : UInt16
  flags : Int32 := 0

def RecvBundle.build (b : RecvBundle) : Entry :=
  let sqe := assignFd { opcode := .ofNat ioringOpRecv } b.fd
  let sqe := orBufferSelect { sqe with
    opFlags := b.flags.toUInt32
    bufIndex := b.bufGroup }
  ⟨{ sqe with ioprio := sqe.ioprio ||| ioringRecvsendBundle.toUInt16 }⟩

/-- Multishot receive with bundle — repeatedly receive bundled buffers. -/
structure RecvMultiBundle where
  fd : Target
  bufGroup : UInt16
  flags : Int32 := 0

def RecvMultiBundle.build (b : RecvMultiBundle) : Entry :=
  let sqe := assignFd { opcode := .ofNat ioringOpRecv } b.fd
  let sqe := orBufferSelect { sqe with
    opFlags := b.flags.toUInt32
    bufIndex := b.bufGroup }
  ⟨{ sqe with ioprio := ioringRecvMultishot.toUInt16 ||| ioringRecvsendBundle.toUInt16 }⟩

/-- Send a bundle of buffers on a socket in a single request. -/
structure SendBundle where
  fd : Target
  bufGroup : UInt16
  flags : Int32 := 0
  len : UInt32 := 0

def SendBundle.build (b : SendBundle) : Entry :=
  let sqe := assignFd { opcode := .ofNat ioringOpSend } b.fd
  let sqe := orBufferSelect { sqe with
    len := b.len
    opFlags := b.flags.toUInt32
    ioprio := sqe.ioprio ||| ioringRecvsendBundle.toUInt16 }
  ⟨{ sqe with bufIndex := b.bufGroup }⟩

/-- Set a socket option via `URING_CMD`. -/
structure SetSockOpt where
  fd : Target
  level : UInt32
  optname : UInt32
  optval : Ptr
  optlen : UInt32
  flags : UInt32 := 0

def SetSockOpt.build (b : SetSockOpt) : Entry :=
  let sqe := assignFd { opcode := .ofNat ioringOpUringCmd } b.fd
  ⟨{ sqe with
    off := socketUringOpSetsockopt.toUInt64
    addr := (b.optname.toUInt64 <<< 32) ||| b.level.toUInt64
    opFlags := b.flags
    spliceFdIn := b.optlen.toInt32
    addr3 := b.optval }⟩

/-- Zero-copy receive, equivalent to `recv(2)` with zero-copy semantics. -/
structure RecvZc where
  fd : Target
  len : UInt32
  ifq : UInt32 := 0
  ioprio : UInt16 := 0

def RecvZc.build (b : RecvZc) : Entry :=
  let sqe := assignFd { opcode := .ofNat ioringOpRecvZc } b.fd
  ⟨{ sqe with
    len := b.len
    ioprio := b.ioprio ||| ioringRecvMultishot.toUInt16
    spliceFdIn := b.ifq.toInt32 }⟩

end Miring.Opcode
