import Mathlib.Algebra.Group.Nat.Defs
import Mathlib.Data.List.Basic
import Mathlib.Tactic.Common

/-!
# Byte strings

Integers as little-endian byte strings, and parts of byte strings: `region bs start len` are
the `len` bytes from `start` on, as far as the string reaches. An array of records of one size
is the concatenation of their bytes.
-/

namespace Miring.Bytes

/-! ## Little-endian integers -/

def leValue : List UInt8 → Nat
  | [] => 0
  | b :: bs => b.toNat + 256 * leValue bs

/-- The `n` bytes of an integer. -/
def leBytes : Nat → Nat → List UInt8
  | 0, _ => []
  | n + 1, v => UInt8.ofNat v :: leBytes n (v / 256)

@[simp] theorem leBytes_length (n v : Nat) : (leBytes n v).length = n := by
  induction n generalizing v with
  | zero => rfl
  | succ n ih => rw [leBytes, List.length_cons, ih]

theorem leValue_leBytes (n v : Nat) : leValue (leBytes n v) = v % 256 ^ n := by
  induction n generalizing v with
  | zero => simp [leValue, leBytes, Nat.mod_one]
  | succ n ih =>
    have hByte : (UInt8.ofNat v).toNat = v % 256 := UInt8.toNat_ofNat'
    rw [leBytes, leValue, ih, hByte, Nat.pow_succ, Nat.mul_comm (256 ^ n), Nat.mod_mul]

/-- The integer of a byte string determines its bytes. -/
theorem leBytes_leValue (bs : List UInt8) : leBytes bs.length (leValue bs) = bs := by
  induction bs with
  | nil => rfl
  | cons b bs ih =>
    have hLt := UInt8.toNat_lt b
    have hLow : UInt8.ofNat (b.toNat + 256 * leValue bs) = b := by
      rw [← UInt8.toNat_inj, UInt8.toNat_ofNat']
      omega
    have hHigh : (b.toNat + 256 * leValue bs) / 256 = leValue bs := by omega
    rw [List.length_cons, leBytes, leValue, hLow, hHigh, ih]

theorem leValue_lt (bs : List UInt8) : leValue bs < 256 ^ bs.length := by
  induction bs with
  | nil => exact Nat.one_pos
  | cons b bs ih =>
    have hLt := UInt8.toNat_lt b
    rw [leValue, List.length_cons, Nat.pow_succ]
    omega

/-! ## Parts -/

variable {α : Type}

def region (xs : List α) (start len : Nat) : List α := (xs.drop start).take len

theorem region_length {xs : List α} {start len : Nat} (h : start + len ≤ xs.length) :
    (region xs start len).length = len := by
  rw [region, List.length_take, List.length_drop]
  omega

/-- A shorter part that starts at the same place. -/
theorem region_prefix (xs : List α) (start : Nat) {m n : Nat} (h : m ≤ n) :
    region xs start m <+: region xs start n := by
  have hTake : region xs start m = (region xs start n).take m := by
    rw [region, region, List.take_take, Nat.min_eq_left h]
  rw [hTake]
  exact List.take_prefix _ _

/-- The part behind a first string. -/
theorem region_append {xs ys zs : List α} {start len : Nat} (hs : xs.length = start)
    (hl : ys.length = len) : region (xs ++ ys ++ zs) start len = ys := by
  rw [region, List.append_assoc, List.drop_left' hs, List.take_left' hl]

/-- A part that begins behind a first string and ends within the second. -/
theorem region_append_take {xs ys zs : List α} {start len : Nat} (hs : xs.length = start)
    (hl : len ≤ ys.length) : region (xs ++ ys ++ zs) start len = ys.take len := by
  rw [region, List.append_assoc, List.drop_left' hs, List.take_append_of_le_length hl]

/-! ## Arrays of records -/

def overwrite (xs : List α) (start : Nat) (new : List α) : List α :=
  xs.take start ++ new ++ xs.drop (start + new.length)

/-- Overwrite a part of the middle string. -/
theorem overwrite_append {xs ys zs new : List α} {k : Nat} (hk : k + new.length ≤ ys.length) :
    overwrite (xs ++ ys ++ zs) (xs.length + k) new = xs ++ overwrite ys k new ++ zs := by
  have hTake : (xs ++ (ys ++ zs)).take (xs.length + k) = xs ++ ys.take k := by
    rw [List.take_length_add_append, List.take_append_of_le_length (by omega)]
  have hDrop : (xs ++ (ys ++ zs)).drop (xs.length + (k + new.length)) =
      ys.drop (k + new.length) ++ zs := by
    rw [List.drop_length_add_append, List.drop_append_of_le_length hk]
  rw [overwrite, overwrite, Nat.add_assoc, List.append_assoc xs, hTake, hDrop]
  simp only [List.append_assoc]

section Records

variable {β : Type} {bytes : β → List α} {size : Nat}

theorem flatMap_length (h : ∀ x, (bytes x).length = size) (xs : List β) :
    (xs.flatMap bytes).length = xs.length * size := by
  induction xs with
  | nil => simp
  | cons x xs ih =>
    rw [List.flatMap_cons, List.length_append, ih, h, List.length_cons, Nat.succ_mul, Nat.add_comm]

/-- The array around one record. -/
theorem flatMap_split (h : ∀ x, (bytes x).length = size) {xs : List β} {i : Nat} {x : β}
    (hx : xs[i]? = some x) :
    ∃ before behind, before.length = i * size ∧
      xs.flatMap bytes = before ++ bytes x ++ behind ∧
      ∀ f : β → β, (xs.modify i f).flatMap bytes = before ++ bytes (f x) ++ behind := by
  obtain ⟨hi, rfl⟩ := List.getElem?_eq_some_iff.mp hx
  refine ⟨(xs.take i).flatMap bytes, (xs.drop (i + 1)).flatMap bytes, ?_, ?_, ?_⟩
  · rw [flatMap_length h, List.length_take, Nat.min_eq_left (Nat.le_of_lt hi)]
  · have hSplit : xs = xs.take i ++ xs[i] :: xs.drop (i + 1) := by
      rw [List.getElem_cons_drop, List.take_append_drop]
    conv_lhs => rw [hSplit]
    rw [List.flatMap_append, List.flatMap_cons, List.append_assoc]
  · intro f
    rw [List.modify_eq_take_cons_drop hi, List.flatMap_append, List.flatMap_cons,
      List.append_assoc]

/-- The bytes at the start of a record. -/
theorem region_flatMap (h : ∀ x, (bytes x).length = size) {xs : List β} {i : Nat} {x : β}
    (hx : xs[i]? = some x) {n : Nat} (hn : n ≤ size) :
    region (xs.flatMap bytes) (i * size) n = (bytes x).take n := by
  obtain ⟨before, behind, hLength, hSplit, -⟩ := flatMap_split h hx
  rw [hSplit]
  exact region_append_take hLength (by rw [h]; exact hn)

/-- An update that overwrites a part of one record overwrites that part of the array. -/
theorem flatMap_modify (h : ∀ x, (bytes x).length = size) {xs : List β} {i : Nat} {x : β}
    (hx : xs[i]? = some x) {f : β → β} {k : Nat} {new : List α}
    (hf : bytes (f x) = overwrite (bytes x) k new) (hk : k + new.length ≤ size) :
    (xs.modify i f).flatMap bytes = overwrite (xs.flatMap bytes) (i * size + k) new := by
  obtain ⟨before, behind, hLength, hSplit, hModify⟩ := flatMap_split h hx
  rw [hSplit, hModify, hf, ← hLength]
  exact (overwrite_append (by rw [h]; exact hk)).symm

end Records

end Miring.Bytes
