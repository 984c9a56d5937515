import Miring.Opcode.Files
import Miring.Opcode.Paths
import Miring.Opcode.Sockets
import Miring.Opcode.Control

/-!
# The builders

All builders in one type, in the order of `opcode.rs`. A builder with a raw slot number may
panic, and the 80-byte command builds an entry of 128 bytes; the others build an `Entry`.
-/

namespace Miring.Opcode

open Sys Miring.Types
open Squeue (Entry Entry128)

/-- A builder with its arguments. -/
inductive Op where
  | nop (b : Nop)
  | readv (b : Readv)
  | writev (b : Writev)
  | fsync (b : Fsync)
  | readFixed (b : ReadFixed)
  | writeFixed (b : WriteFixed)
  | pollAdd (b : PollAdd)
  | pollRemove (b : PollRemove)
  | syncFileRange (b : SyncFileRange)
  | sendMsg (b : SendMsg)
  | recvMsg (b : RecvMsg)
  | timeout (b : Timeout)
  | timeoutRemove (b : TimeoutRemove)
  | accept (b : Accept)
  | asyncCancel (b : AsyncCancel)
  | linkTimeout (b : LinkTimeout)
  | connect (b : Connect)
  | fallocate (b : Fallocate)
  | openAt (b : OpenAt)
  | close (b : Close)
  | filesUpdate (b : FilesUpdate)
  | statx (b : Statx)
  | read (b : Read)
  | write (b : Write)
  | send (b : Send)
  | recv (b : Recv)
  | openAt2 (b : OpenAt2)
  | epollCtl (b : EpollCtl)
  | splice (b : Splice)
  | provideBuffers (b : ProvideBuffers)
  | removeBuffers (b : RemoveBuffers)
  | tee (b : Tee)
  | shutdown (b : Shutdown)
  | renameAt (b : RenameAt)
  | unlinkAt (b : UnlinkAt)
  | mkDirAt (b : MkDirAt)
  | symlinkAt (b : SymlinkAt)
  | linkAt (b : LinkAt)
  | msgRing (b : MsgRing)
  | msgRingSendFd (b : MsgRingSendFd)
  | socket (b : Socket)
  | sendZc (b : SendZc)
  | sendMsgZc (b : SendMsgZc)
  | ftruncate (b : Ftruncate)
  | bind (b : Bind)
  | listen (b : Listen)
  | fadvise (b : Fadvise)
  | madvise (b : Madvise)
  | acceptMulti (b : AcceptMulti)
  | recvMulti (b : RecvMulti)
  | recvMsgMulti (b : RecvMsgMulti)
  | recvBundle (b : RecvBundle)
  | recvMultiBundle (b : RecvMultiBundle)
  | sendBundle (b : SendBundle)
  | readMulti (b : ReadMulti)
  | getXattr (b : GetXattr)
  | setXattr (b : SetXattr)
  | fgetXattr (b : FGetXattr)
  | fsetXattr (b : FSetXattr)
  | asyncCancel2 (b : AsyncCancel2)
  | timeoutUpdate (b : TimeoutUpdate)
  | uringCmd16 (b : UringCmd16)
  | uringCmd80 (b : UringCmd80)
  | setSockOpt (b : SetSockOpt)
  | futexWait (b : FutexWait)
  | futexWake (b : FutexWake)
  | futexWaitV (b : FutexWaitV)
  | waitId (b : WaitId)
  | fixedFdInstall (b : FixedFdInstall)
  | recvZc (b : RecvZc)
  | epollWait (b : EpollWait)
  | readvFixed (b : ReadvFixed)
  | writevFixed (b : WritevFixed)
  | pipe (b : Pipe)

/-- What `build` returns. -/
inductive Built where
  | entry (e : Entry)
  | entry128 (e : Entry128)
  deriving DecidableEq

/-- The first 64 bytes. -/
def Built.sqe : Built → IoUringSqe
  | .entry e => e.sqe
  | .entry128 e => e.entry.sqe

namespace Op

/-- `build()`; none where it panics. -/
def build (overflowChecks : Bool) : Op → Option Built
  | .nop b => some (.entry b.build)
  | .readv b => some (.entry b.build)
  | .writev b => some (.entry b.build)
  | .fsync b => some (.entry b.build)
  | .readFixed b => some (.entry b.build)
  | .writeFixed b => some (.entry b.build)
  | .pollAdd b => some (.entry b.build)
  | .pollRemove b => some (.entry b.build)
  | .syncFileRange b => some (.entry b.build)
  | .sendMsg b => some (.entry b.build)
  | .recvMsg b => some (.entry b.build)
  | .timeout b => some (.entry b.build)
  | .timeoutRemove b => some (.entry b.build)
  | .accept b => (b.build overflowChecks).map .entry
  | .asyncCancel b => some (.entry b.build)
  | .linkTimeout b => some (.entry b.build)
  | .connect b => some (.entry b.build)
  | .fallocate b => some (.entry b.build)
  | .openAt b => (b.build overflowChecks).map .entry
  | .close b => some (.entry b.build)
  | .filesUpdate b => some (.entry b.build)
  | .statx b => some (.entry b.build)
  | .read b => some (.entry b.build)
  | .write b => some (.entry b.build)
  | .send b => some (.entry b.build)
  | .recv b => some (.entry b.build)
  | .openAt2 b => (b.build overflowChecks).map .entry
  | .epollCtl b => some (.entry b.build)
  | .splice b => some (.entry b.build)
  | .provideBuffers b => some (.entry b.build)
  | .removeBuffers b => some (.entry b.build)
  | .tee b => some (.entry b.build)
  | .shutdown b => some (.entry b.build)
  | .renameAt b => some (.entry b.build)
  | .unlinkAt b => some (.entry b.build)
  | .mkDirAt b => some (.entry b.build)
  | .symlinkAt b => some (.entry b.build)
  | .linkAt b => some (.entry b.build)
  | .msgRing b => some (.entry b.build)
  | .msgRingSendFd b => some (.entry b.build)
  | .socket b => (b.build overflowChecks).map .entry
  | .sendZc b => some (.entry b.build)
  | .sendMsgZc b => some (.entry b.build)
  | .ftruncate b => some (.entry b.build)
  | .bind b => some (.entry b.build)
  | .listen b => some (.entry b.build)
  | .fadvise b => some (.entry b.build)
  | .madvise b => some (.entry b.build)
  | .acceptMulti b => some (.entry b.build)
  | .recvMulti b => some (.entry b.build)
  | .recvMsgMulti b => some (.entry b.build)
  | .recvBundle b => some (.entry b.build)
  | .recvMultiBundle b => some (.entry b.build)
  | .sendBundle b => some (.entry b.build)
  | .readMulti b => some (.entry b.build)
  | .getXattr b => some (.entry b.build)
  | .setXattr b => some (.entry b.build)
  | .fgetXattr b => some (.entry b.build)
  | .fsetXattr b => some (.entry b.build)
  | .asyncCancel2 b => some (.entry b.build)
  | .timeoutUpdate b => some (.entry b.build)
  | .uringCmd16 b => some (.entry b.build)
  | .uringCmd80 b => some (.entry128 b.build)
  | .setSockOpt b => some (.entry b.build)
  | .futexWait b => some (.entry b.build)
  | .futexWake b => some (.entry b.build)
  | .futexWaitV b => some (.entry b.build)
  | .waitId b => some (.entry b.build)
  | .fixedFdInstall b => some (.entry b.build)
  | .recvZc b => some (.entry b.build)
  | .epollWait b => some (.entry b.build)
  | .readvFixed b => some (.entry b.build)
  | .writevFixed b => some (.entry b.build)
  | .pipe b => some (.entry b.build)

/-- The submission queue entry. -/
def sqe (overflowChecks : Bool) (op : Op) : Option IoUringSqe :=
  (op.build overflowChecks).map Built.sqe

end Op

end Miring.Opcode
