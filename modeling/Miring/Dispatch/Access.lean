import Miring.Program.Memory
import Miring.Sys

/-!
# Accesses to user memory

The dispatch handlers of `submit.rs` work on user memory through raw pointers. Here are
the accesses they are made of, byte by byte and in the order of the addresses: scalar reads
and writes (little-endian, as on the 64-bit targets of the kernel interface), the loops over
a slice, and `walk_cstr`.

An address is a natural number. A user memory maps no address from `2 ^ 64` on, so an access
that runs off the address space faults.
-/

namespace Miring.Dispatch

open Sys

/-- What a dispatch thread leaves in its trace besides its accesses: where it yields, and
where `dispatch_op` starts and ends for a request. -/
inductive Mark where
  | yieldNow
  | enter (sqe : IoUringSqe)
  | leave (sqe : IoUringSqe) (result : Int32)
  deriving DecidableEq

abbrev userSig : Signature := memSig Nat UInt8 Mark

abbrev UserProgram (α : Type) := Program userSig α

/-- A memory within the address space. -/
structure UserMem where
  cells : Mem Nat UInt8
  unmapped_of_le : ∀ a, 2 ^ 64 ≤ a → cells a = .unmapped

def readU8 (p : Nat) : UserProgram UInt8 := .act (.read p) .ret

def writeU8 (p : Nat) (v : UInt8) : UserProgram Unit := .act (.write p v) .ret

def mark (l : Mark) : UserProgram Unit := .act (.note l) .ret

/-- Read the `n` bytes at `p` as one integer. -/
def readLe (p : Nat) : Nat → UserProgram Nat
  | 0 => pure 0
  | n + 1 => do
      let b ← readU8 p
      let rest ← readLe (p + 1) n
      pure (b.toNat + 256 * rest)

def readU32 (p : Nat) : UserProgram Nat := readLe p 4

/-- A `usize`, or a pointer. -/
def readUsize (p : Nat) : UserProgram Nat := readLe p 8

/-- Write an integer to the `n` bytes at `p`. -/
def writeLe (p : Nat) : Nat → Nat → UserProgram Unit
  | 0, _ => pure ()
  | n + 1, v => do
      writeU8 p (UInt8.ofNat v)
      writeLe (p + 1) n (v / 256)

/-- `slice::from_raw_parts_mut(p, n).fill(0)` -/
def fill (p : Nat) : Nat → UserProgram Unit
  | 0 => pure ()
  | n + 1 => do
      writeU8 p 0
      fill (p + 1) n

/-- The loop over `slice::from_raw_parts(p, n)`, or `ptr::read` of a structure of `n` bytes.
The value is handed to `black_box` in the source, and nothing depends on it. -/
def readBytes (p : Nat) : Nat → UserProgram Unit
  | 0 => pure ()
  | n + 1 => do
      let _ ← readU8 p
      readBytes (p + 1) n

/-- `walk_cstr` with a bound on the number of its turns. -/
def walkCstrWithin : Nat → Nat → UserProgram Unit
  -- the address space ends at `p`: this read faults
  | 0, p => do
      let _ ← readU8 p
      pure ()
  | fuel + 1, p => do
      let b ← readU8 p
      if b = 0 then pure () else walkCstrWithin fuel (p + 1)

/-- Walk a NUL-terminated string. -/
def walkCstr (p : Nat) : UserProgram Unit := walkCstrWithin (2 ^ 64 - p) p

/-- The conversion `as i32` of a `usize`. -/
def asI32 (n : Nat) : Int32 := Int32.ofNat n

/-- The conversion `as usize` of an `i32`. -/
def asUsize (x : Int32) : Nat := x.toInt64.toUInt64.toNat

def usizeMax : Nat := 2 ^ 64 - 1

def saturatingAdd (a b : Nat) : Nat := min (a + b) usizeMax

def saturatingMul (a b : Nat) : Nat := min (a * b) usizeMax

end Miring.Dispatch
