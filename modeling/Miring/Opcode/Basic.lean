import Miring.Program.Bytes
import Miring.Types.Descriptors

/-!
# What the builders share

The macro `assign_fd!` of `opcode.rs` and the pieces of code that several builders repeat.
A builder is a structure: first the arguments of `new`, then the options with their defaults.
Pointers are their addresses.
-/

namespace Miring.Opcode

open Sys Miring.Types Bytes
open Squeue (Entry)

/-- A pointer into user memory. -/
abbrev Ptr : Type := UInt64

/-- `assign_fd!` -/
def assignFd (sqe : IoUringSqe) (opfd : Target) : IoUringSqe :=
  match opfd with
  | .fd n => { sqe with fd := n }
  | .fixed idx =>
    { sqe with
      fd := idx.toInt32
      flags := sqe.flags ||| Squeue.Flags.fixedFile }

/-- `idx as i32 + 1`. With overflow checks the addition panics where it overflows. -/
def fileIndexArg (overflowChecks : Bool) (idx : UInt32) : Option Int32 :=
  if overflowChecks ∧ idx.toInt32 = Int32.maxValue then none else some (idx.toInt32 + 1)

/-- `if let Some(idx) = file_index { sqe.splice_fd_in = idx as i32 + 1; }` -/
def setFileIndex (overflowChecks : Bool) (fileIndex : Option UInt32) (sqe : IoUringSqe) :
    Option IoUringSqe :=
  match fileIndex with
  | none => some sqe
  | some idx => (fileIndexArg overflowChecks idx).map fun i => { sqe with spliceFdIn := i }

/-- The second descriptor of `Splice` and `Tee`. -/
def assignFdIn (sqe : IoUringSqe) (fdIn : Target) : IoUringSqe :=
  match fdIn with
  | .fd n => { sqe with spliceFdIn := n }
  | .fixed idx =>
    { sqe with
      spliceFdIn := idx.toInt32
      opFlags := sqe.opFlags ||| spliceFFdInFixed }

/-- The address of `Send` and `SendZc`, where there is one. -/
def setDestAddr (destAddr : Ptr) (destAddrLen : UInt16) (sqe : IoUringSqe) : IoUringSqe :=
  if destAddr ≠ 0 then
    { sqe with
      addr3 := destAddr
      spliceFdIn := destAddrLen.toUInt32.toInt32 }
  else sqe

/-- `sqe.flags |= Flags::BUFFER_SELECT.bits()` -/
def orBufferSelect (sqe : IoUringSqe) : IoUringSqe :=
  { sqe with flags := sqe.flags ||| Squeue.Flags.bufferSelect }

/-- `u64::from_le_bytes` -/
def fromLeBytes (bytes : List UInt8) : UInt64 := UInt64.ofNat (leValue bytes)

/-- The buffer index of a command. -/
def setCmdBuf (bufIndex : Option UInt16) (sqe : IoUringSqe) : IoUringSqe :=
  match bufIndex with
  | none => sqe
  | some bufIndex =>
    { sqe with
      bufIndex := bufIndex
      opFlags := sqe.opFlags ||| ioringUringCmdFixed }

end Miring.Opcode
