import Miring.Opcode.Basic

/-!
# Files and buffers

Reading, writing and the other operations on open files, and the builders for registered files,
provided buffers and pipes.
-/

namespace Miring.Opcode

open Sys Miring.Types
open Squeue (Entry)

/-- Vectored read, equivalent to `preadv2(2)`. -/
structure Readv where
  fd : Target
  iovec : Ptr
  len : UInt32
  ioprio : UInt16 := 0
  offset : UInt64 := 0
  rwFlags : Int32 := 0
  bufGroup : UInt16 := 0

def Readv.build (b : Readv) : Entry :=
  let sqe := assignFd { opcode := .ofNat ioringOpReadv } b.fd
  ⟨{ sqe with
    ioprio := b.ioprio
    addr := b.iovec
    len := b.len
    off := b.offset
    opFlags := b.rwFlags.toUInt32
    bufIndex := b.bufGroup }⟩

/-- Vectored write, equivalent to `pwritev2(2)`. -/
structure Writev where
  fd : Target
  iovec : Ptr
  len : UInt32
  ioprio : UInt16 := 0
  offset : UInt64 := 0
  rwFlags : Int32 := 0

def Writev.build (b : Writev) : Entry :=
  let sqe := assignFd { opcode := .ofNat ioringOpWritev } b.fd
  ⟨{ sqe with
    ioprio := b.ioprio
    addr := b.iovec
    len := b.len
    off := b.offset
    opFlags := b.rwFlags.toUInt32 }⟩

/-- File sync, equivalent to `fsync(2)`. -/
structure Fsync where
  fd : Target
  flags : UInt32 := 0

def Fsync.build (b : Fsync) : Entry :=
  let sqe := assignFd { opcode := .ofNat ioringOpFsync } b.fd
  ⟨{ sqe with
    opFlags := b.flags }⟩

/-- Read from a file into a registered fixed buffer. -/
structure ReadFixed where
  fd : Target
  buf : Ptr
  len : UInt32
  bufIndex : UInt16
  ioprio : UInt16 := 0
  offset : UInt64 := 0
  rwFlags : Int32 := 0

def ReadFixed.build (b : ReadFixed) : Entry :=
  let sqe := assignFd { opcode := .ofNat ioringOpReadFixed } b.fd
  ⟨{ sqe with
    ioprio := b.ioprio
    addr := b.buf
    len := b.len
    off := b.offset
    opFlags := b.rwFlags.toUInt32
    bufIndex := b.bufIndex }⟩

/-- Write to a file from a registered fixed buffer. -/
structure WriteFixed where
  fd : Target
  buf : Ptr
  len : UInt32
  bufIndex : UInt16
  ioprio : UInt16 := 0
  offset : UInt64 := 0
  rwFlags : Int32 := 0

def WriteFixed.build (b : WriteFixed) : Entry :=
  let sqe := assignFd { opcode := .ofNat ioringOpWriteFixed } b.fd
  ⟨{ sqe with
    ioprio := b.ioprio
    addr := b.buf
    len := b.len
    off := b.offset
    opFlags := b.rwFlags.toUInt32
    bufIndex := b.bufIndex }⟩

/-- Sync a file range, equivalent to `sync_file_range(2)`. -/
structure SyncFileRange where
  fd : Target
  len : UInt32
  offset : UInt64 := 0
  flags : UInt32 := 0

def SyncFileRange.build (b : SyncFileRange) : Entry :=
  let sqe := assignFd { opcode := .ofNat ioringOpSyncFileRange } b.fd
  ⟨{ sqe with
    len := b.len
    off := b.offset
    opFlags := b.flags }⟩

/-- Pre-allocate or deallocate space to a file, equivalent to `fallocate(2)`. -/
structure Fallocate where
  fd : Target
  len : UInt64
  offset : UInt64 := 0
  mode : Int32 := 0

def Fallocate.build (b : Fallocate) : Entry :=
  let sqe := assignFd { opcode := .ofNat ioringOpFallocate } b.fd
  ⟨{ sqe with
    addr := b.len
    off := b.offset
    len := b.mode.toUInt32 }⟩

/-- Close a file descriptor, equivalent to `close(2)`. -/
structure Close where
  fd : Target

def Close.build (b : Close) : Entry :=
  let sqe := assignFd { opcode := .ofNat ioringOpClose } b.fd
  ⟨sqe⟩

/-- Update the registered file set. -/
structure FilesUpdate where
  fds : Ptr
  len : UInt32
  offset : Int32 := 0

def FilesUpdate.build (b : FilesUpdate) : Entry :=
  ⟨{
    opcode := .ofNat ioringOpFilesUpdate
    fd := -1
    addr := b.fds
    len := b.len
    off := b.offset.toInt64.toUInt64 }⟩

/-- Read from a file, equivalent to `pread(2)`. -/
structure Read where
  fd : Target
  buf : Ptr
  len : UInt32
  ioprio : UInt16 := 0
  offset : UInt64 := 0
  rwFlags : Int32 := 0
  bufGroup : UInt16 := 0

def Read.build (b : Read) : Entry :=
  let sqe := assignFd { opcode := .ofNat ioringOpRead } b.fd
  ⟨{ sqe with
    ioprio := b.ioprio
    addr := b.buf
    len := b.len
    off := b.offset
    opFlags := b.rwFlags.toUInt32
    bufIndex := b.bufGroup }⟩

/-- Write to a file, equivalent to `pwrite(2)`. -/
structure Write where
  fd : Target
  buf : Ptr
  len : UInt32
  ioprio : UInt16 := 0
  offset : UInt64 := 0
  rwFlags : Int32 := 0

def Write.build (b : Write) : Entry :=
  let sqe := assignFd { opcode := .ofNat ioringOpWrite } b.fd
  ⟨{ sqe with
    ioprio := b.ioprio
    addr := b.buf
    len := b.len
    off := b.offset
    opFlags := b.rwFlags.toUInt32 }⟩

/-- Splice data between two file descriptors, equivalent to `splice(2)`. -/
structure Splice where
  fdIn : Target
  offIn : Int64
  fdOut : Target
  offOut : Int64
  len : UInt32
  flags : UInt32 := 0

def Splice.build (b : Splice) : Entry :=
  let sqe := assignFd { opcode := .ofNat ioringOpSplice } b.fdOut
  ⟨assignFdIn { sqe with
    off := b.offOut.toUInt64
    addr := b.offIn.toUInt64
    len := b.len
    opFlags := b.flags } b.fdIn⟩

/-- Provide buffers to the kernel for buffer selection. -/
structure ProvideBuffers where
  addr : Ptr
  len : Int32
  nbufs : UInt16
  bgid : UInt16
  bid : UInt16

def ProvideBuffers.build (b : ProvideBuffers) : Entry :=
  ⟨{
    opcode := .ofNat ioringOpProvideBuffers
    fd := b.nbufs.toUInt32.toInt32
    addr := b.addr
    len := b.len.toUInt32
    off := b.bid.toUInt64
    bufIndex := b.bgid }⟩

/-- Remove provided buffers. -/
structure RemoveBuffers where
  nbufs : UInt16
  bgid : UInt16

def RemoveBuffers.build (b : RemoveBuffers) : Entry :=
  ⟨{
    opcode := .ofNat ioringOpRemoveBuffers
    fd := b.nbufs.toUInt32.toInt32
    bufIndex := b.bgid }⟩

/-- Duplicate pipe content, equivalent to `tee(2)`. -/
structure Tee where
  fdIn : Target
  fdOut : Target
  len : UInt32
  flags : UInt32 := 0

def Tee.build (b : Tee) : Entry :=
  let sqe := assignFd { opcode := .ofNat ioringOpTee } b.fdOut
  ⟨assignFdIn { sqe with
    len := b.len
    opFlags := b.flags } b.fdIn⟩

/-- Truncate a file, equivalent to `ftruncate(2)`. -/
structure Ftruncate where
  fd : Target
  len : UInt64

def Ftruncate.build (b : Ftruncate) : Entry :=
  let sqe := assignFd { opcode := .ofNat ioringOpFtruncate } b.fd
  ⟨{ sqe with
    off := b.len }⟩

/-- Provide file access advice, equivalent to `posix_fadvise(2)`. -/
structure Fadvise where
  fd : Target
  len : UInt32
  advice : Int32
  offset : UInt64 := 0

def Fadvise.build (b : Fadvise) : Entry :=
  let sqe := assignFd { opcode := .ofNat ioringOpFadvise } b.fd
  ⟨{ sqe with
    len := b.len
    off := b.offset
    opFlags := b.advice.toUInt32 }⟩

/-- Provide memory advice, equivalent to `madvise(2)`. -/
structure Madvise where
  addr : Ptr
  len : UInt32
  advice : Int32

def Madvise.build (b : Madvise) : Entry :=
  ⟨{
    opcode := .ofNat ioringOpMadvise
    fd := -1
    addr := b.addr
    len := b.len
    opFlags := b.advice.toUInt32 }⟩

/-- Multishot read — buffer group selection for repeated reads. -/
structure ReadMulti where
  fd : Target
  len : UInt32
  bufGroup : UInt16
  offset : UInt64 := 0

def ReadMulti.build (b : ReadMulti) : Entry :=
  let sqe := assignFd { opcode := .ofNat ioringOpReadMultishot } b.fd
  ⟨{ sqe with
    off := b.offset
    len := b.len
    bufIndex := b.bufGroup
    -- an assignment, where its siblings have `|=`
    flags := Squeue.Flags.bufferSelect }⟩

/-- Install a fixed file descriptor as a regular fd. -/
structure FixedFdInstall where
  fd : UInt32
  fileFlags : UInt32

def FixedFdInstall.build (b : FixedFdInstall) : Entry :=
  ⟨{
    opcode := .ofNat ioringOpFixedFdInstall
    fd := b.fd.toInt32
    flags := Squeue.Flags.fixedFile
    opFlags := b.fileFlags }⟩

/-- Vectored read into a fixed (pre-registered) buffer. -/
structure ReadvFixed where
  fd : Target
  iovec : Ptr
  len : UInt32
  bufIndex : UInt16
  ioprio : UInt16 := 0
  offset : UInt64 := 0
  rwFlags : Int32 := 0

def ReadvFixed.build (b : ReadvFixed) : Entry :=
  let sqe := assignFd { opcode := .ofNat ioringOpReadvFixed } b.fd
  ⟨{ sqe with
    off := b.offset
    addr := b.iovec
    len := b.len
    bufIndex := b.bufIndex
    ioprio := b.ioprio
    opFlags := b.rwFlags.toUInt32 }⟩

/-- Vectored write from a fixed (pre-registered) buffer. -/
structure WritevFixed where
  fd : Target
  iovec : Ptr
  len : UInt32
  bufIndex : UInt16
  ioprio : UInt16 := 0
  offset : UInt64 := 0
  rwFlags : Int32 := 0

def WritevFixed.build (b : WritevFixed) : Entry :=
  let sqe := assignFd { opcode := .ofNat ioringOpWritevFixed } b.fd
  ⟨{ sqe with
    off := b.offset
    addr := b.iovec
    len := b.len
    bufIndex := b.bufIndex
    ioprio := b.ioprio
    opFlags := b.rwFlags.toUInt32 }⟩

/-- Create a pipe, equivalent to `pipe2(2)`. -/
structure Pipe where
  fds : Ptr
  flags : UInt32 := 0
  fileIndex : Option DestinationSlot := none

def Pipe.build (b : Pipe) : Entry :=
  let sqe : IoUringSqe := {
    opcode := .ofNat ioringOpPipe
    fd := 0
    addr := b.fds
    opFlags := b.flags }
  ⟨match b.fileIndex with
    | none => sqe
    | some dest => { sqe with spliceFdIn := dest.kernelIndexArg.toInt32 }⟩

end Miring.Opcode
