import Miring.Sys

/-!
# Queue entries

The entry types of `squeue.rs` and `cqueue.rs` and what the rings know about them. The
rings are generic in both entry types. `Submitter` sees neither: it works on the first 64
bytes of a submission entry and on the first 16 bytes of a completion entry, so the two
`EntryMarker` classes say what these bytes are.
-/

namespace Miring

open Sys

/-! ## Submission entries -/

namespace Squeue

namespace Flags

def fixedFile : UInt8 := 1 <<< iosqeFixedFileBit
def ioDrain : UInt8 := 1 <<< iosqeIoDrainBit
def ioLink : UInt8 := 1 <<< iosqeIoLinkBit
def ioHardlink : UInt8 := 1 <<< iosqeIoHardlinkBit
def async : UInt8 := 1 <<< iosqeAsyncBit
def bufferSelect : UInt8 := 1 <<< iosqeBufferSelectBit
def skipSuccess : UInt8 := 1 <<< iosqeCqeSkipSuccessBit

end Flags

/-- A 64-byte submission queue entry. -/
structure Entry where
  sqe : IoUringSqe
  deriving DecidableEq

/-- A 128-byte submission queue entry. -/
structure Entry128 where
  entry : Entry
  tail : Vector UInt8 64
  deriving DecidableEq

class EntryMarker (E : Type) where
  buildFlags : UInt32
  /-- `mem::size_of::<E>()` -/
  size : Nat
  /-- the first 64 bytes -/
  sqe : E → IoUringSqe
  /-- `mem::zeroed()` -/
  zeroed : E
  size_pos : 0 < size
  buildFlags_cqsize : buildFlags &&& ioringSetupCqsize = 0

namespace Entry

def flags (e : Entry) (flags : UInt8) : Entry := ⟨{ e.sqe with flags := e.sqe.flags ||| flags }⟩

def clearFlags (e : Entry) : Entry := ⟨{ e.sqe with flags := 0 }⟩

def userData (e : Entry) (userData : UInt64) : Entry := ⟨{ e.sqe with userData := userData }⟩

def personality (e : Entry) (personality : UInt16) : Entry :=
  ⟨{ e.sqe with personality := personality }⟩

instance : EntryMarker Entry where
  buildFlags := 0
  size := 64
  sqe := Entry.sqe
  zeroed := ⟨{}⟩
  size_pos := by decide
  buildFlags_cqsize := by decide

end Entry

namespace Entry128

def flags (e : Entry128) (flags : UInt8) : Entry128 := { e with entry := e.entry.flags flags }

def clearFlags (e : Entry128) : Entry128 := { e with entry := e.entry.clearFlags }

def userData (e : Entry128) (userData : UInt64) : Entry128 :=
  { e with entry := e.entry.userData userData }

def personality (e : Entry128) (personality : UInt16) : Entry128 :=
  { e with entry := e.entry.personality personality }

/-- `From<Entry>` -/
def ofEntry (entry : Entry) : Entry128 := ⟨entry, Vector.replicate 64 0⟩

instance : EntryMarker Entry128 where
  buildFlags := ioringSetupSqe128
  size := 128
  sqe e := e.entry.sqe
  zeroed := ⟨⟨{}⟩, Vector.replicate 64 0⟩
  size_pos := by decide
  buildFlags_cqsize := by decide

end Entry128

/-- The queue had no room for the entry. -/
inductive PushError where
  | mk
  deriving DecidableEq

end Squeue

/-! ## Completion entries -/

namespace Cqueue

/-- A 16-byte completion queue entry. -/
structure Entry where
  cqe : IoUringCqe
  deriving DecidableEq

/-- A 32-byte completion queue entry. -/
structure Entry32 where
  entry : Entry
  bigCqe : UInt64 × UInt64
  deriving DecidableEq

class EntryMarker (E : Type) where
  buildFlags : UInt32
  /-- `mem::size_of::<E>()` -/
  size : Nat
  /-- the first 16 bytes -/
  cqe : E → IoUringCqe
  /-- `mem::zeroed()` -/
  zeroed : E
  /-- `ptr::write` of the first 16 bytes -/
  writeCqe : IoUringCqe → E → E
  /-- `ptr::write` of zeros to the 16 bytes behind these -/
  zeroExtra : E → E
  cqe_writeCqe : ∀ c e, cqe (writeCqe c e) = c
  cqe_zeroExtra : ∀ e, cqe (zeroExtra e) = cqe e
  size_pos : 0 < size
  buildFlags_cqsize : buildFlags &&& ioringSetupCqsize = 0

attribute [simp] EntryMarker.cqe_writeCqe EntryMarker.cqe_zeroExtra

namespace Entry

def result (e : Entry) : Int32 := e.cqe.res

def userData (e : Entry) : UInt64 := e.cqe.userData

def flags (e : Entry) : UInt32 := e.cqe.flags

instance : EntryMarker Entry where
  buildFlags := 0
  size := 16
  cqe := Entry.cqe
  zeroed := ⟨{}⟩
  writeCqe c _ := ⟨c⟩
  -- not reached: the entry ends after its first 16 bytes
  zeroExtra e := e
  cqe_writeCqe _ _ := rfl
  cqe_zeroExtra _ := rfl
  size_pos := by decide
  buildFlags_cqsize := by decide

end Entry

namespace Entry32

instance : EntryMarker Entry32 where
  buildFlags := ioringSetupCqe32
  size := 32
  cqe e := e.entry.cqe
  zeroed := ⟨⟨{}⟩, 0, 0⟩
  writeCqe c e := { e with entry := ⟨c⟩ }
  zeroExtra e := { e with bigCqe := (0, 0) }
  cqe_writeCqe _ _ := rfl
  cqe_zeroExtra _ := rfl
  size_pos := by decide
  buildFlags_cqsize := by decide

end Entry32

/-- Which dynamic buffer was used by an operation. -/
def bufferSelect (flags : UInt32) : Option UInt16 :=
  if flags &&& ioringCqeFBuffer ≠ 0 then
    let id := flags >>> ioringCqeBufferShift
    some id.toUInt16
  else
    none

end Cqueue

end Miring
