import Miring.Opcode.Basic

/-!
# Paths and attributes

The operations that name a file by its path, and those on extended attributes.
-/

namespace Miring.Opcode

open Sys Miring.Types
open Squeue (Entry)

/-- Open a file, equivalent to `openat(2)`. -/
structure OpenAt where
  dirfd : Target
  pathname : Ptr
  flags : Int32 := 0
  mode : UInt32 := 0
  fileIndex : Option UInt32 := none

def OpenAt.build (overflowChecks : Bool) (b : OpenAt) : Option Entry :=
  let sqe := assignFd { opcode := .ofNat ioringOpOpenat } b.dirfd
  (setFileIndex overflowChecks b.fileIndex { sqe with
    addr := b.pathname
    opFlags := b.flags.toUInt32
    len := b.mode }).map Entry.mk

/-- Get file status, equivalent to `statx(2)`. -/
structure Statx where
  dirfd : Target
  pathname : Ptr
  statxbuf : Ptr
  flags : Int32 := 0
  mask : UInt32 := 0

def Statx.build (b : Statx) : Entry :=
  let sqe := assignFd { opcode := .ofNat ioringOpStatx } b.dirfd
  ⟨{ sqe with
    addr := b.pathname
    off := b.statxbuf
    len := b.mask
    opFlags := b.flags.toUInt32 }⟩

/-- Open a file, equivalent to `openat2(2)`. -/
structure OpenAt2 where
  dirfd : Target
  pathname : Ptr
  how : Ptr
  fileIndex : Option UInt32 := none

/-- `std::mem::size_of::<types::OpenHow>()` -/
def openHowSize : UInt32 := 24

def OpenAt2.build (overflowChecks : Bool) (b : OpenAt2) : Option Entry :=
  let sqe := assignFd { opcode := .ofNat ioringOpOpenat2 } b.dirfd
  (setFileIndex overflowChecks b.fileIndex { sqe with
    addr := b.pathname
    off := b.how
    len := openHowSize }).map Entry.mk

/-- Rename a file, equivalent to `renameat2(2)`. -/
structure RenameAt where
  olddirfd : Target
  oldpath : Ptr
  newdirfd : Int32
  newpath : Ptr
  flags : UInt32 := 0

def RenameAt.build (b : RenameAt) : Entry :=
  let sqe := assignFd { opcode := .ofNat ioringOpRenameat } b.olddirfd
  ⟨{ sqe with
    addr := b.oldpath
    off := b.newpath
    len := b.newdirfd.toUInt32
    opFlags := b.flags }⟩

/-- Unlink a file, equivalent to `unlinkat(2)`. -/
structure UnlinkAt where
  dirfd : Target
  pathname : Ptr
  flags : Int32 := 0

def UnlinkAt.build (b : UnlinkAt) : Entry :=
  let sqe := assignFd { opcode := .ofNat ioringOpUnlinkat } b.dirfd
  ⟨{ sqe with
    addr := b.pathname
    opFlags := b.flags.toUInt32 }⟩

/-- Make a directory, equivalent to `mkdirat(2)`. -/
structure MkDirAt where
  dirfd : Target
  pathname : Ptr
  mode : UInt32 := 0

def MkDirAt.build (b : MkDirAt) : Entry :=
  let sqe := assignFd { opcode := .ofNat ioringOpMkdirat } b.dirfd
  ⟨{ sqe with
    addr := b.pathname
    len := b.mode }⟩

/-- Create a symlink, equivalent to `symlinkat(2)`. -/
structure SymlinkAt where
  newdirfd : Target
  target : Ptr
  linkpath : Ptr

def SymlinkAt.build (b : SymlinkAt) : Entry :=
  let sqe := assignFd { opcode := .ofNat ioringOpSymlinkat } b.newdirfd
  ⟨{ sqe with
    addr := b.target
    off := b.linkpath }⟩

/-- Create a hard link, equivalent to `linkat(2)`. -/
structure LinkAt where
  olddirfd : Target
  oldpath : Ptr
  newdirfd : Int32
  newpath : Ptr
  flags : Int32 := 0

def LinkAt.build (b : LinkAt) : Entry :=
  let sqe := assignFd { opcode := .ofNat ioringOpLinkat } b.olddirfd
  ⟨{ sqe with
    addr := b.oldpath
    off := b.newpath
    len := b.newdirfd.toUInt32
    opFlags := b.flags.toUInt32 }⟩

/-- Get extended attribute, equivalent to `getxattr(2)`. -/
structure GetXattr where
  name : Ptr
  value : Ptr
  path : Ptr
  len : UInt32

def GetXattr.build (b : GetXattr) : Entry :=
  ⟨{
    opcode := .ofNat ioringOpGetxattr
    addr := b.name
    len := b.len
    off := b.value
    addr3 := b.path
    opFlags := 0 }⟩

/-- Set extended attribute, equivalent to `setxattr(2)`. -/
structure SetXattr where
  name : Ptr
  value : Ptr
  path : Ptr
  len : UInt32
  flags : Int32 := 0

def SetXattr.build (b : SetXattr) : Entry :=
  ⟨{
    opcode := .ofNat ioringOpSetxattr
    addr := b.name
    len := b.len
    off := b.value
    addr3 := b.path
    opFlags := b.flags.toUInt32 }⟩

/-- Get extended attribute on a file descriptor, equivalent to `fgetxattr(2)`. -/
structure FGetXattr where
  fd : Target
  name : Ptr
  value : Ptr
  len : UInt32

def FGetXattr.build (b : FGetXattr) : Entry :=
  let sqe := assignFd { opcode := .ofNat ioringOpFgetxattr } b.fd
  ⟨{ sqe with
    addr := b.name
    len := b.len
    off := b.value
    opFlags := 0 }⟩

/-- Set extended attribute on a file descriptor, equivalent to `fsetxattr(2)`. -/
structure FSetXattr where
  fd : Target
  name : Ptr
  value : Ptr
  len : UInt32
  flags : Int32 := 0

def FSetXattr.build (b : FSetXattr) : Entry :=
  let sqe := assignFd { opcode := .ofNat ioringOpFsetxattr } b.fd
  ⟨{ sqe with
    addr := b.name
    len := b.len
    off := b.value
    opFlags := b.flags.toUInt32 }⟩

end Miring.Opcode
