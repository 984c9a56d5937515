import Miring.Dispatch.Access
import Miring.Program.Bytes

/-!
# The result of a multishot `RecvMsg`

`RecvMsgOut` of `types.rs`. The buffer of a multishot `RecvMsg` holds a header of 16 bytes, a
field for the name and a field for the control data, of the sizes that the `msghdr` gives, and
the payload. The lengths in the header are those of the incoming data and need not fit the
fields.

`parse` computes in `usize` and slices the buffer. A step without a defined result (a sum
beyond `usize`, a slice out of range, a read behind the end) ends in a `Fault`.
-/

namespace Miring.Types

open Bytes Dispatch

/-! ## Buffers and `usize` -/

/-- A panic or an undefined access. -/
inductive Fault where
  | overflow
  | sliceIndex
  | outOfBounds
  deriving DecidableEq

def isizeMax : Nat := 2 ^ 63 - 1

/-- `&[u8]`: no slice has more than `isize::MAX` bytes. -/
structure Slice where
  bytes : List UInt8
  length_le : bytes.length ≤ isizeMax

def Slice.len (buffer : Slice) : Nat := buffer.bytes.length

theorem Slice.len_le (buffer : Slice) : buffer.len ≤ usizeMax :=
  Nat.le_trans buffer.length_le (by decide)

/-- `usize::checked_add` -/
def checkedAdd (a b : Nat) : Option Nat := if a + b ≤ usizeMax then some (a + b) else none

/-- `a + b` -/
def add (a b : Nat) : Except Fault Nat :=
  if a + b ≤ usizeMax then .ok (a + b) else .error .overflow

/-- `a - b` -/
def sub (a b : Nat) : Except Fault Nat := if b ≤ a then .ok (a - b) else .error .overflow

/-- `&buffer[from..to]` -/
def Slice.slice (buffer : Slice) (start stop : Nat) : Except Fault (List UInt8) :=
  if start ≤ stop ∧ stop ≤ buffer.len then .ok (region buffer.bytes start (stop - start))
  else .error .sliceIndex

/-! ## The source -/

/-- `io_uring_recvmsg_out` -/
structure IoUringRecvmsgOut where
  namelen : UInt32
  controllen : UInt32
  payloadlen : UInt32
  flags : UInt32
  deriving DecidableEq

/-- The header in the first 16 bytes. -/
def IoUringRecvmsgOut.ofBytes (bs : List UInt8) : IoUringRecvmsgOut where
  namelen := UInt32.ofNat (leValue (region bs 0 4))
  controllen := UInt32.ofNat (leValue (region bs 4 4))
  payloadlen := UInt32.ofNat (leValue (region bs 8 4))
  flags := UInt32.ofNat (leValue (region bs 12 4))

/-- The bytes of a header. -/
def IoUringRecvmsgOut.toBytes (header : IoUringRecvmsgOut) : List UInt8 :=
  leBytes 4 header.namelen.toNat ++ leBytes 4 header.controllen.toNat ++
    leBytes 4 header.payloadlen.toNat ++ leBytes 4 header.flags.toNat

structure RecvMsgOut where
  header : IoUringRecvmsgOut
  msghdrNameLen : Nat
  nameData : List UInt8
  controlData : List UInt8
  payloadData : List UInt8
  deriving DecidableEq

namespace RecvMsgOut

/-- `mem::size_of::<sys::io_uring_recvmsg_out>()` -/
def dataStart : Nat := 16

/-- `read_unaligned` of the header. -/
def readHeader (buffer : Slice) : Except Fault IoUringRecvmsgOut :=
  if dataStart ≤ buffer.len then .ok (.ofBytes buffer.bytes) else .error .outOfBounds

/-- Parse the data buffered upon completion of a multishot `RecvMsg`; the inner error is the
`Err(())` of the source. -/
def parse (buffer : Slice) (msghdrNameLen : UInt32) (msghdrControlLen : UInt64) :
    Except Fault (Except Unit RecvMsgOut) := do
  let nameLen := msghdrNameLen.toNat
  let controlLen := msghdrControlLen.toNat
  let headerLen := (checkedAdd dataStart nameLen).bind fun acc => checkedAdd acc controlLen
  if (headerLen.map fun n => decide (buffer.len < n)).getD true then
    pure (.error ())
  else do
    let header ← readHeader buffer
    -- name data: may be truncated
    let nameStart := dataStart
    let nameDataEnd ← add nameStart (min header.namelen.toNat nameLen)
    let nameFieldEnd ← add nameStart nameLen
    let nameData ← buffer.slice nameStart nameDataEnd
    let controlStart := nameFieldEnd
    -- control data: similarly
    let controlDataEnd ← add controlStart (min header.controllen.toNat controlLen)
    let controlFieldEnd ← add controlStart controlLen
    let controlData ← buffer.slice controlStart controlDataEnd
    let payloadStart := controlFieldEnd
    -- payload: the remaining data
    let remaining ← sub buffer.len payloadStart
    let payloadDataEnd ← add payloadStart (min header.payloadlen.toNat remaining)
    let payloadData ← buffer.slice payloadStart payloadDataEnd
    pure (.ok { header, msghdrNameLen := nameLen, nameData, controlData, payloadData })

def incomingNameLen (msg : RecvMsgOut) : UInt32 := msg.header.namelen

def isNameDataTruncated (msg : RecvMsgOut) : Bool :=
  decide (msg.header.namelen.toNat > msg.msghdrNameLen)

def incomingControlLen (msg : RecvMsgOut) : UInt32 := msg.header.controllen

def incomingPayloadLen (msg : RecvMsgOut) : UInt32 := msg.header.payloadlen

def flags (msg : RecvMsgOut) : UInt32 := msg.header.flags

end RecvMsgOut

/-! ## What `parse` accepts -/

section Accepted

theorem add_ok {a b : Nat} (h : a + b ≤ usizeMax) : add a b = .ok (a + b) := if_pos h

theorem sub_ok {a b : Nat} (h : b ≤ a) : sub a b = .ok (a - b) := if_pos h

/-- A slice of `len` bytes within the buffer. -/
theorem slice_ok {buffer : Slice} {start len : Nat} (h : start + len ≤ buffer.len) :
    buffer.slice start (start + len) = .ok (region buffer.bytes start len) := by
  rw [Slice.slice, if_pos ⟨Nat.le_add_right _ _, h⟩, Nat.add_sub_cancel_left]

/-- The sum of the header and the two fields, where it fits `usize`. -/
theorem headerLen_eq (n c : Nat) :
    ((checkedAdd RecvMsgOut.dataStart n).bind fun acc => checkedAdd acc c) =
      if RecvMsgOut.dataStart + n + c ≤ usizeMax then some (RecvMsgOut.dataStart + n + c)
      else none := by
  by_cases hName : RecvMsgOut.dataStart + n ≤ usizeMax
  · rw [checkedAdd, if_pos hName]
    rfl
  · rw [checkedAdd, if_neg hName, if_neg (by omega)]
    rfl

/-- The test at the start of `parse`. -/
theorem tooShort_iff (buffer : Slice) (n c : Nat) :
    ((((checkedAdd RecvMsgOut.dataStart n).bind fun acc => checkedAdd acc c).map
        fun k => decide (buffer.len < k)).getD true) = true ↔
      usizeMax < 16 + n + c ∨ buffer.len < 16 + n + c := by
  rw [headerLen_eq]
  by_cases hFits : RecvMsgOut.dataStart + n + c ≤ usizeMax
  · have hNot : ¬ usizeMax < 16 + n + c := Nat.not_lt.mpr hFits
    rw [if_pos hFits, Option.map_some, Option.getD_some, decide_eq_true_iff, or_iff_right hNot]
    rfl
  · rw [if_neg hFits]
    exact iff_of_true rfl (.inl (Nat.lt_of_not_le hFits))

/-- What `parse` answers for a buffer of sufficient size. -/
def parsed (buffer : Slice) (n : Nat) (c : Nat) : RecvMsgOut :=
  let header := IoUringRecvmsgOut.ofBytes buffer.bytes
  { header
    msghdrNameLen := n
    nameData := region buffer.bytes 16 (min header.namelen.toNat n)
    controlData := region buffer.bytes (16 + n) (min header.controllen.toNat c)
    payloadData := region buffer.bytes (16 + n + c)
      (min header.payloadlen.toNat (buffer.len - (16 + n + c))) }

/-- The test makes every later step defined. -/
theorem parse_of_fits {buffer : Slice} {n : UInt32} {c : UInt64}
    (h : 16 + n.toNat + c.toNat ≤ buffer.len) :
    RecvMsgOut.parse buffer n c = .ok (.ok (parsed buffer n.toNat c.toNat)) := by
  have hMax := buffer.len_le
  have hTest : ¬ ((((checkedAdd RecvMsgOut.dataStart n.toNat).bind
      fun acc => checkedAdd acc c.toNat).map fun k => decide (buffer.len < k)).getD true) =
      true := by
    rw [tooShort_iff]
    omega
  have hHeader : RecvMsgOut.readHeader buffer = .ok (.ofBytes buffer.bytes) :=
    if_pos (by unfold RecvMsgOut.dataStart; omega)
  unfold RecvMsgOut.parse
  rw [if_neg hTest, hHeader]
  simp only [RecvMsgOut.dataStart, bind, Except.bind]
  generalize hName : min (IoUringRecvmsgOut.ofBytes buffer.bytes).namelen.toNat n.toNat = name
  generalize hControl :
    min (IoUringRecvmsgOut.ofBytes buffer.bytes).controllen.toNat c.toNat = control
  rw [add_ok (by omega)]
  simp only
  rw [add_ok (by omega)]
  simp only
  rw [slice_ok (by omega)]
  simp only
  rw [add_ok (by omega)]
  simp only
  rw [add_ok (by omega)]
  simp only
  rw [slice_ok (by omega)]
  simp only
  rw [sub_ok h]
  simp only
  rw [add_ok (by omega)]
  simp only
  rw [slice_ok (by omega)]
  simp only [parsed, hName, hControl]
  rfl

theorem parse_of_tooShort {buffer : Slice} {n : UInt32} {c : UInt64}
    (h : usizeMax < 16 + n.toNat + c.toNat ∨ buffer.len < 16 + n.toNat + c.toNat) :
    RecvMsgOut.parse buffer n c = .ok (.error ()) := by
  unfold RecvMsgOut.parse
  rw [if_pos ((tooShort_iff buffer n.toNat c.toNat).mpr h)]
  rfl

/-- The parts of an accepted buffer: the three fields lie behind one another, and what is
returned are their first bytes. -/
structure PartsOf (buffer : Slice) (n c : Nat) (msg : RecvMsgOut) : Prop where
  fits : 16 + n + c ≤ buffer.len
  header : msg.header = .ofBytes buffer.bytes
  name : msg.nameData <+: region buffer.bytes 16 n
  name_length : msg.nameData.length = min msg.header.namelen.toNat n
  control : msg.controlData <+: region buffer.bytes (16 + n) c
  control_length : msg.controlData.length = min msg.header.controllen.toNat c
  payload : msg.payloadData <+: region buffer.bytes (16 + n + c) (buffer.len - (16 + n + c))
  payload_length : msg.payloadData.length =
    min msg.header.payloadlen.toNat (buffer.len - (16 + n + c))

theorem partsOf_parsed {buffer : Slice} {n c : Nat} (h : 16 + n + c ≤ buffer.len) :
    PartsOf buffer n c (parsed buffer n c) := by
  unfold Slice.len at h
  exact {
    fits := h
    header := rfl
    name := region_prefix _ _ (Nat.min_le_right _ _)
    name_length := region_length (by omega)
    control := region_prefix _ _ (Nat.min_le_right _ _)
    control_length := region_length (by omega)
    payload := region_prefix _ _ (Nat.min_le_right _ _)
    payload_length := region_length (by unfold Slice.len; omega) }

/-- **Bounds.** For every buffer, also with a header of an adversary, and all sizes of the
fields: `parse` rejects exactly the buffers that are too short, and it has no fault. -/
theorem parse_bounds (buffer : Slice) (n : UInt32) (c : UInt64) :
    (RecvMsgOut.parse buffer n c = .ok (.error ()) ↔
        usizeMax < 16 + n.toNat + c.toNat ∨ buffer.len < 16 + n.toNat + c.toNat) ∧
      ((usizeMax < 16 + n.toNat + c.toNat ∨ buffer.len < 16 + n.toNat + c.toNat) ∨
        ∃ msg, RecvMsgOut.parse buffer n c = .ok (.ok msg) ∧
          PartsOf buffer n.toNat c.toNat msg) := by
  by_cases hShort : usizeMax < 16 + n.toNat + c.toNat ∨ buffer.len < 16 + n.toNat + c.toNat
  · exact ⟨iff_of_true (parse_of_tooShort hShort) hShort, .inl hShort⟩
  · have hFits : 16 + n.toNat + c.toNat ≤ buffer.len := by omega
    have hParse := parse_of_fits hFits
    refine ⟨iff_of_false ?_ hShort, .inr ⟨_, hParse, partsOf_parsed hFits⟩⟩
    rw [hParse]
    exact nofun

end Accepted

/-! ## What `parse` recovers -/

section Received

/-- What arrives on the socket. -/
structure Message where
  name : List UInt8
  control : List UInt8
  payload : List UInt8
  flags : UInt32
  name_lt : name.length < 2 ^ 32
  control_lt : control.length < 2 ^ 32
  payload_lt : payload.length < 2 ^ 32

def Message.header (m : Message) : IoUringRecvmsgOut where
  namelen := UInt32.ofNat m.name.length
  controllen := UInt32.ofNat m.control.length
  payloadlen := UInt32.ofNat m.payload.length
  flags := m.flags

/-- A field of `n` bytes that holds data, cut or padded to its size. -/
def Fits (data : List UInt8) (n : Nat) (field : List UInt8) : Prop :=
  field.length = n ∧ data.take n <+: field

/-- The buffer holds a message, with fields of `n` and `c` bytes and `present` of its
payload: all of it, and any bytes behind; or as much as there is room for. -/
inductive Holds (m : Message) (n c : Nat) : List UInt8 → Slice → Prop where
  | whole {buffer : Slice} {nameField controlField trailing : List UInt8}
      (hName : Fits m.name n nameField) (hControl : Fits m.control c controlField)
      (hBytes : buffer.bytes =
        m.header.toBytes ++ nameField ++ controlField ++ m.payload ++ trailing) :
      Holds m n c m.payload buffer
  | cut {buffer : Slice} {nameField controlField present : List UInt8}
      (hName : Fits m.name n nameField) (hControl : Fits m.control c controlField)
      (hPresent : present <+: m.payload)
      (hBytes : buffer.bytes = m.header.toBytes ++ nameField ++ controlField ++ present) :
      Holds m n c present buffer

/-- What the accessors tell. -/
structure Received (m : Message) (n c : Nat) (present : List UInt8) (msg : RecvMsgOut) :
    Prop where
  name : msg.nameData = m.name.take n
  control : msg.controlData = m.control.take c
  payload : msg.payloadData = present
  incomingNameLen : msg.incomingNameLen.toNat = m.name.length
  incomingControlLen : msg.incomingControlLen.toNat = m.control.length
  incomingPayloadLen : msg.incomingPayloadLen.toNat = m.payload.length
  flags : msg.flags = m.flags
  truncated : msg.isNameDataTruncated = true ↔ msg.nameData.length < m.name.length

theorem toBytes_length (header : IoUringRecvmsgOut) : header.toBytes.length = 16 := by
  simp [IoUringRecvmsgOut.toBytes]

theorem ofNat_leValue_leBytes (v : UInt32) :
    UInt32.ofNat (leValue (leBytes 4 v.toNat)) = v := by
  have hLt := UInt32.toNat_lt v
  rw [leValue_leBytes, Nat.mod_eq_of_lt (by omega), UInt32.ofNat_toNat]

/-- The header is read back. -/
theorem ofBytes_toBytes (header : IoUringRecvmsgOut) (rest : List UInt8) :
    IoUringRecvmsgOut.ofBytes (header.toBytes ++ rest) = header := by
  obtain ⟨namelen, controllen, payloadlen, flags⟩ := header
  have hField : ∀ {start : Nat} (xs zs : List UInt8) (v : UInt32), xs.length = start →
      UInt32.ofNat (leValue (region (xs ++ leBytes 4 v.toNat ++ zs) start 4)) = v := by
    intro start xs zs v hStart
    rw [region_append hStart (leBytes_length _ _), ofNat_leValue_leBytes]
  rw [IoUringRecvmsgOut.ofBytes, IoUringRecvmsgOut.mk.injEq]
  refine ⟨?_, ?_, ?_, ?_⟩
  · have hName := hField [] (leBytes 4 controllen.toNat ++
      leBytes 4 payloadlen.toNat ++ leBytes 4 flags.toNat ++ rest) namelen rfl
    simpa [IoUringRecvmsgOut.toBytes] using hName
  · have hControl := hField (leBytes 4 namelen.toNat)
      (leBytes 4 payloadlen.toNat ++ leBytes 4 flags.toNat ++ rest) controllen rfl
    simpa [IoUringRecvmsgOut.toBytes] using hControl
  · have hPayload := hField (leBytes 4 namelen.toNat ++ leBytes 4 controllen.toNat)
      (leBytes 4 flags.toNat ++ rest) payloadlen rfl
    simpa [IoUringRecvmsgOut.toBytes] using hPayload
  · exact hField _ _ flags rfl

/-- The first bytes of a field are those of the data. -/
theorem Fits.take_eq {data field : List UInt8} {n : Nat} (h : Fits data n field) :
    field.take (min data.length n) = data.take n := by
  have hTake := List.prefix_iff_eq_take.mp h.2
  rw [List.length_take, Nat.min_comm] at hTake
  exact hTake.symm

/-- In both cases the payload that is present is followed by some bytes, and the header and
the size of the buffer tell where it ends. -/
theorem Holds.bytes_eq {m : Message} {n c : Nat} {present : List UInt8} {buffer : Slice}
    (h : Holds m n c present buffer) :
    ∃ nameField controlField trailing, Fits m.name n nameField ∧ Fits m.control c controlField ∧
      buffer.bytes = m.header.toBytes ++ nameField ++ controlField ++ present ++ trailing ∧
      min m.payload.length (present.length + trailing.length) = present.length := by
  cases h with
  | @whole _ nameField controlField trailing hName hControl hBytes =>
    exact ⟨nameField, controlField, trailing, hName, hControl, hBytes, by omega⟩
  | @cut _ nameField controlField _ hName hControl hPresent hBytes =>
    have hLe := hPresent.length_le
    refine ⟨nameField, controlField, [], hName, hControl, ?_, ?_⟩
    · rw [hBytes, List.append_nil]
    · rw [List.length_nil]
      omega

/-- What `parse` answers does not depend on the padding or on the trailing bytes. -/
def received (m : Message) (n c : Nat) (present : List UInt8) : RecvMsgOut where
  header := m.header
  msghdrNameLen := n
  nameData := m.name.take n
  controlData := m.control.take c
  payloadData := present

theorem toNat_ofNat_lt {n : Nat} (h : n < 2 ^ 32) : (UInt32.ofNat n).toNat = n := by
  rw [UInt32.toNat_ofNat', Nat.mod_eq_of_lt h]

theorem parsed_of_holds {m : Message} {n c : Nat} {present : List UInt8} {buffer : Slice}
    (h : Holds m n c present buffer) :
    16 + n + c ≤ buffer.len ∧ parsed buffer n c = received m n c present := by
  obtain ⟨nameField, controlField, trailing, hName, hControl, hBytes, hMin⟩ := h.bytes_eq
  have hHeader : IoUringRecvmsgOut.ofBytes buffer.bytes = m.header := by
    rw [hBytes]
    simp only [List.append_assoc]
    exact ofBytes_toBytes _ _
  have hStart := toBytes_length m.header
  have hLen : buffer.len = 16 + n + c + (present.length + trailing.length) := by
    rw [Slice.len, hBytes]
    simp only [List.length_append, hStart, hName.1, hControl.1]
    omega
  refine ⟨by omega, ?_⟩
  rw [parsed, received, RecvMsgOut.mk.injEq, hHeader]
  have hNameLen : m.header.namelen.toNat = m.name.length := toNat_ofNat_lt m.name_lt
  have hControlLen : m.header.controllen.toNat = m.control.length := toNat_ofNat_lt m.control_lt
  have hPayloadLen : m.header.payloadlen.toNat = m.payload.length := toNat_ofNat_lt m.payload_lt
  rw [hNameLen, hControlLen, hPayloadLen]
  refine ⟨rfl, rfl, ?_, ?_, ?_⟩
  · -- the name field is behind the header
    have hWithin : min m.name.length n ≤ nameField.length := by
      rw [hName.1]
      exact Nat.min_le_right _ _
    have hBytes' : buffer.bytes =
        m.header.toBytes ++ nameField ++ (controlField ++ present ++ trailing) := by
      rw [hBytes]
      simp only [List.append_assoc]
    rw [hBytes', region_append_take hStart hWithin, hName.take_eq]
  · -- the control field is behind the name field, whatever the name's length
    have hWithin : min m.control.length c ≤ controlField.length := by
      rw [hControl.1]
      exact Nat.min_le_right _ _
    have hBefore : (m.header.toBytes ++ nameField).length = 16 + n := by
      rw [List.length_append, hStart, hName.1]
    have hBytes' : buffer.bytes =
        m.header.toBytes ++ nameField ++ controlField ++ (present ++ trailing) := by
      rw [hBytes]
      simp only [List.append_assoc]
    rw [hBytes', region_append_take hBefore hWithin, hControl.take_eq]
  · have hBefore : (m.header.toBytes ++ nameField ++ controlField).length = 16 + n + c := by
      rw [List.length_append, List.length_append, hStart, hName.1, hControl.1]
    rw [hLen, Nat.add_sub_cancel_left, hMin, hBytes]
    exact region_append hBefore rfl

theorem received_spec (m : Message) (n c : Nat) (present : List UInt8) :
    Received m n c present (received m n c present) := by
  have hNameLen : m.header.namelen.toNat = m.name.length := toNat_ofNat_lt m.name_lt
  refine ⟨rfl, rfl, rfl, hNameLen, toNat_ofNat_lt m.control_lt, toNat_ofNat_lt m.payload_lt,
    rfl, ?_⟩
  change decide (m.header.namelen.toNat > n) = true ↔ (m.name.take n).length < m.name.length
  rw [decide_eq_true_iff, hNameLen, List.length_take]
  omega

/-- **Inversion.** For every message, all sizes of the fields and the part of the payload that
is present: from every buffer that holds them, whatever its padding and its trailing bytes,
`parse` recovers the same, and that is the message up to truncation. -/
theorem parse_received (m : Message) (n : UInt32) (c : UInt64) (present : List UInt8) :
    ∃ msg, Received m n.toNat c.toNat present msg ∧
      ∀ buffer, Holds m n.toNat c.toNat present buffer →
        RecvMsgOut.parse buffer n c = .ok (.ok msg) := by
  refine ⟨received m n.toNat c.toNat present, received_spec _ _ _ _, ?_⟩
  intro buffer hHolds
  obtain ⟨hFits, hParsed⟩ := parsed_of_holds hHolds
  rw [parse_of_fits hFits, hParsed]

/-- A name that is cut, control data that are padded, and bytes behind the payload. -/
def smallMessage : Message :=
  ⟨[1, 2, 3], [4], [5, 6], 7, by decide, by decide, by decide⟩

def smallBuffer : Slice :=
  ⟨smallMessage.header.toBytes ++ [1, 2] ++ [4, 9] ++ [5, 6] ++ [8], by decide⟩

theorem parse_received_small :
    ∃ msg, Received smallMessage 2 2 [5, 6] msg ∧
      RecvMsgOut.parse smallBuffer 2 2 = .ok (.ok msg) := by
  obtain ⟨msg, hReceived, hParse⟩ := parse_received smallMessage 2 2 [5, 6]
  have hName : Fits smallMessage.name 2 [1, 2] := ⟨rfl, [], rfl⟩
  have hControl : Fits smallMessage.control 2 [4, 9] := ⟨rfl, [9], rfl⟩
  have hBytes : smallBuffer.bytes =
      smallMessage.header.toBytes ++ [1, 2] ++ [4, 9] ++ smallMessage.payload ++ [8] := rfl
  exact ⟨msg, hReceived, hParse smallBuffer (.whole hName hControl hBytes)⟩

end Received

end Miring.Types
