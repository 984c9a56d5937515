import Mathlib.Data.List.Basic
import Mathlib.Data.Nat.ModEq
import Mathlib.Tactic.Common

/-!
# Windows of a masked ring

A ring of `size = 2 ^ k` slots is indexed by free-running `UInt32` counters: counter `i`
names the slot `i &&& (size - 1)`, and a counter wraps to `0` after `2 ^ 32 - 1`. Two
counters are compared by the distance from one to the other, taken modulo `2 ^ 32`.

`window slots mask head n` lists the contents of the `n` slots from counter `head` on.
Since `size` divides `2 ^ 32`, the slots of a window of at most `size` entries are
different (`slot_inj`), so a write behind the window leaves it unchanged (`window_set`), and
where the ring holds a list, a write behind its last item appends to it (`Holds.push`), also
where the counters wrap.
-/

namespace Miring.Ring

/-! ## Distances -/

/-- How far counter `b` is ahead of counter `a`. -/
def dist (a b : UInt32) : Nat := (b - a).toNat

theorem dist_eq (a b : UInt32) : dist a b = (2 ^ 32 - a.toNat + b.toNat) % 2 ^ 32 :=
  UInt32.toNat_sub b a

theorem dist_lt (a b : UInt32) : dist a b < 2 ^ 32 := UInt32.toNat_lt _

@[simp] theorem dist_self (a : UInt32) : dist a a = 0 := by simp [dist]

theorem add_dist (a b : UInt32) : a + UInt32.ofNat (dist a b) = b := by
  rw [dist, UInt32.ofNat_toNat, UInt32.add_comm, UInt32.sub_add_cancel]

theorem dist_eq_zero_iff {a b : UInt32} : dist a b = 0 ↔ a = b := by
  constructor
  · intro h
    have hb := add_dist a b
    rw [h] at hb
    simpa using hb
  · rintro rfl
    exact dist_self a

theorem dist_add {a b : UInt32} {n : Nat} (h : dist a b + n < 2 ^ 32) :
    dist a (b + UInt32.ofNat n) = dist a b + n := by
  rw [dist_eq] at h
  rw [dist_eq, dist_eq, UInt32.toNat_add, UInt32.toNat_ofNat']
  have := UInt32.toNat_lt a
  have := UInt32.toNat_lt b
  omega

theorem dist_succ {a b : UInt32} (h : dist a b + 1 < 2 ^ 32) : dist a (b + 1) = dist a b + 1 :=
  dist_add h

theorem dist_add_left {a b : UInt32} {n : Nat} (h : n ≤ dist a b) :
    dist (a + UInt32.ofNat n) b = dist a b - n := by
  have hLt := dist_lt a b
  rw [dist_eq] at h hLt
  rw [dist_eq, dist_eq, UInt32.toNat_add, UInt32.toNat_ofNat']
  have := UInt32.toNat_lt a
  have := UInt32.toNat_lt b
  omega

/-- The distances of two counters from a third one. -/
theorem dist_sub {a b c : UInt32} (h : dist a b ≤ dist a c) : dist b c = dist a c - dist a b := by
  rw [← dist_add_left h, add_dist]

/-- The difference of two free-running indices, computed on their counters. -/
theorem ofNat_sub_ofNat {a b : Nat} (h : a ≤ b) :
    UInt32.ofNat b - UInt32.ofNat a = UInt32.ofNat (b - a) := by
  obtain ⟨d, rfl⟩ := Nat.exists_eq_add_of_le h
  rw [Nat.add_sub_cancel_left, Nat.add_comm, UInt32.ofNat_add, UInt32.add_sub_cancel]

theorem toNat_ofNat_sub {a b : Nat} (h : a ≤ b) (hLt : b - a < 2 ^ 32) :
    (UInt32.ofNat b - UInt32.ofNat a).toNat = b - a := by
  rw [ofNat_sub_ofNat h, UInt32.toNat_ofNat', Nat.mod_eq_of_lt hLt]

theorem toNat_min (a b : UInt32) : (min a b).toNat = min a.toNat b.toNat := by
  by_cases h : a ≤ b
  · have hMin : min a b = a := if_pos h
    rw [hMin, Nat.min_eq_left (UInt32.le_iff_toNat_le.mp h)]
  · have hMin : min a b = b := if_neg h
    have hLt := UInt32.lt_iff_toNat_lt.mp (UInt32.not_le.mp h)
    rw [hMin, Nat.min_eq_right (Nat.le_of_lt hLt)]

/-! ## Slots -/

/-- `mask` selects the slot of a counter in a ring of `size` slots. -/
def Masks (mask : UInt32) (size : Nat) : Prop :=
  ∃ k, k ≤ 32 ∧ size = 2 ^ k ∧ mask.toNat + 1 = size

def slot (mask i : UInt32) : Nat := (i &&& mask).toNat

variable {mask : UInt32} {size : Nat}

theorem Masks.pos (h : Masks mask size) : 0 < size := by
  obtain ⟨k, -, rfl, -⟩ := h
  exact Nat.two_pow_pos k

theorem Masks.le (h : Masks mask size) : size ≤ 2 ^ 32 := by
  obtain ⟨k, hk, rfl, -⟩ := h
  exact Nat.pow_le_pow_right (by decide) hk

theorem slot_eq_mod (h : Masks mask size) (i : UInt32) : slot mask i = i.toNat % size := by
  obtain ⟨k, -, hs, hm⟩ := h
  have hmask : mask.toNat = 2 ^ k - 1 := by omega
  rw [slot, UInt32.toNat_and, hmask, Nat.and_two_pow_sub_one_eq_mod, hs]

theorem slot_lt (h : Masks mask size) (i : UInt32) : slot mask i < size := by
  rw [slot_eq_mod h]
  exact Nat.mod_lt _ h.pos

theorem slot_add (h : Masks mask size) (a : UInt32) (n : Nat) :
    slot mask (a + UInt32.ofNat n) = (a.toNat + n) % size := by
  obtain ⟨k, hk, hs, -⟩ := id h
  have hd : size ∣ 2 ^ 32 := by
    rw [hs]
    exact Nat.pow_dvd_pow 2 hk
  rw [slot_eq_mod h, UInt32.toNat_add, UInt32.toNat_ofNat', Nat.mod_mod_of_dvd _ hd,
    Nat.add_mod, Nat.mod_mod_of_dvd _ hd, ← Nat.add_mod]

/-- Counters less than a ring apart name different slots. -/
theorem slot_inj (h : Masks mask size) {a : UInt32} {i j : Nat} (hi : i < size) (hj : j < size)
    (he : slot mask (a + UInt32.ofNat i) = slot mask (a + UInt32.ofNat j)) : i = j := by
  rw [slot_add h, slot_add h] at he
  have hij : i ≡ j [MOD size] := Nat.ModEq.add_left_cancel' a.toNat he
  rwa [Nat.ModEq, Nat.mod_eq_of_lt hi, Nat.mod_eq_of_lt hj] at hij

/-! ## Windows -/

variable {α : Type}

/-- The contents of the `n` slots from counter `head` on. -/
def window (slots : List α) (mask head : UInt32) (n : Nat) : List (Option α) :=
  (List.range n).map fun i => slots[slot mask (head + UInt32.ofNat i)]?

@[simp] theorem window_zero (slots : List α) (head : UInt32) : window slots mask head 0 = [] := rfl

@[simp] theorem window_length (slots : List α) (head : UInt32) (n : Nat) :
    (window slots mask head n).length = n := by
  simp [window]

theorem ofNat_succ (n : Nat) : UInt32.ofNat (n + 1) = UInt32.ofNat n + 1 := by
  rw [UInt32.ofNat_add]
  rfl

theorem window_cons (slots : List α) (head : UInt32) (n : Nat) :
    window slots mask head (n + 1) =
      slots[slot mask head]? :: window slots mask (head + 1) n := by
  simp only [window, List.range_succ_eq_map, List.map_cons, List.map_map]
  congr 1
  · simp
  · apply List.map_congr_left
    intro i _
    simp only [Function.comp, Nat.succ_eq_add_one, ofNat_succ]
    rw [UInt32.add_comm (UInt32.ofNat i) 1, UInt32.add_assoc]

theorem window_concat (slots : List α) (head : UInt32) (n : Nat) :
    window slots mask head (n + 1) =
      window slots mask head n ++ [slots[slot mask (head + UInt32.ofNat n)]?] := by
  simp only [window, List.range_succ, List.map_append, List.map_cons, List.map_nil]

theorem window_add (slots : List α) (head : UInt32) (m n : Nat) :
    window slots mask head (m + n) =
      window slots mask head m ++ window slots mask (head + UInt32.ofNat m) n := by
  induction m generalizing head with
  | zero => simp
  | succ m ih =>
    rw [Nat.succ_add, window_cons, window_cons, ih, List.cons_append, ofNat_succ,
      UInt32.add_comm (UInt32.ofNat m) 1, UInt32.add_assoc]

theorem window_take (slots : List α) (head : UInt32) {m n : Nat} (h : m ≤ n) :
    (window slots mask head n).take m = window slots mask head m := by
  obtain ⟨d, rfl⟩ := Nat.exists_eq_add_of_le h
  rw [window_add, List.take_left' (window_length _ _ _)]

theorem window_drop (slots : List α) (head : UInt32) {m n : Nat} (h : m ≤ n) :
    (window slots mask head n).drop m = window slots mask (head + UInt32.ofNat m) (n - m) := by
  obtain ⟨d, rfl⟩ := Nat.exists_eq_add_of_le h
  rw [window_add, List.drop_left' (window_length _ _ _), Nat.add_sub_cancel_left]

/-- A write outside a window leaves it unchanged. -/
theorem window_set {slots : List α} {head : UInt32} {n j : Nat} (v : α)
    (hj : ∀ i, i < n → slot mask (head + UInt32.ofNat i) ≠ j) :
    window (slots.set j v) mask head n = window slots mask head n := by
  apply List.map_congr_left
  intro i hi
  exact List.getElem?_set_ne (Ne.symm (hj i (List.mem_range.mp hi)))

/-- The slot behind a window that is not full is none of its slots. -/
theorem slot_fresh (h : Masks mask size) {head : UInt32} {n i : Nat} (hn : n < size)
    (hi : i < n) : slot mask (head + UInt32.ofNat i) ≠ slot mask (head + UInt32.ofNat n) := by
  intro he
  have := slot_inj h (by omega) hn he
  omega

/-- Every entry of a window is the content of a slot. -/
theorem mem_window_isSome (h : Masks mask size) {slots : List α} (hs : slots.length = size)
    {head : UInt32} {n : Nat} {x : Option α} (hx : x ∈ window slots mask head n) : x.isSome := by
  obtain ⟨i, -, rfl⟩ := List.mem_map.mp hx
  rw [List.getElem?_eq_getElem (by rw [hs]; exact slot_lt h _)]
  rfl

theorem window_eq_map (h : Masks mask size) {slots : List α} (hs : slots.length = size)
    (head : UInt32) (n : Nat) :
    window slots mask head n = ((window slots mask head n).filterMap id).map some := by
  have hSome : ∀ x ∈ window slots mask head n, x.isSome := fun x hx => mem_window_isSome h hs hx
  generalize window slots mask head n = xs at hSome ⊢
  induction xs with
  | nil => rfl
  | cons x xs ih =>
    obtain ⟨y, rfl⟩ := Option.isSome_iff_exists.mp (hSome _ List.mem_cons_self)
    rw [List.filterMap_cons_some (f := id) rfl, List.map_cons,
      ← ih fun z hz => hSome z (List.mem_cons_of_mem _ hz)]

/-! ## Rings that hold the tail of a list -/

/-- The slots from index `r` on hold the items of the list from index `r` on. -/
def Holds (slots : List α) (mask : UInt32) (items : List α) (r : Nat) : Prop :=
  window slots mask (UInt32.ofNat r) (items.length - r) = (items.drop r).map some

namespace Holds

variable {slots items : List α} {r : Nat}

theorem nil (slots : List α) (mask : UInt32) : Holds slots mask [] 0 := rfl

/-- The next item is in the slot of its index. -/
theorem get (h : Holds slots mask items r) (hr : r < items.length) :
    slots[slot mask (UInt32.ofNat r)]? = items[r]? := by
  rw [Holds, show items.length - r = items.length - (r + 1) + 1 by omega, window_cons,
    List.drop_eq_getElem_cons hr, List.map_cons] at h
  rw [List.getElem?_eq_getElem hr]
  exact (List.cons.inj h).1

theorem advance (h : Holds slots mask items r) {n : Nat} (hn : r + n ≤ items.length) :
    Holds slots mask items (r + n) := by
  have hDrop := congrArg (List.drop n) h
  rw [window_drop _ _ (by omega), ← List.map_drop, List.drop_drop, ← UInt32.ofNat_add] at hDrop
  rwa [Holds, Nat.sub_add_eq]

/-- The window of the next `n` items. -/
theorem window_eq (h : Holds slots mask items r) {n : Nat} (hn : r + n ≤ items.length) :
    window slots mask (UInt32.ofNat r) n = ((items.drop r).take n).map some := by
  have hTake := congrArg (List.take n) h
  rwa [window_take _ _ (by omega), ← List.map_take] at hTake

/-- The counter behind the last item. -/
theorem ofNat_length {xs : List α} (hr : r ≤ xs.length) :
    UInt32.ofNat xs.length = UInt32.ofNat r + UInt32.ofNat (xs.length - r) := by
  rw [← UInt32.ofNat_add, Nat.add_sub_cancel' hr]

/-- A write to the slot behind the last item. -/
theorem set (hMask : Masks mask size) (h : Holds slots mask items r) (hr : r ≤ items.length)
    (hn : items.length - r < size) (v : α) :
    Holds (slots.set (slot mask (UInt32.ofNat items.length)) v) mask items r := by
  rw [Holds, ofNat_length hr, window_set v fun i hi => slot_fresh hMask hn hi]
  exact h

/-- The slot behind the last item holds a further one. -/
theorem snoc (h : Holds slots mask items r) (hr : r ≤ items.length) {v : α}
    (hv : slots[slot mask (UInt32.ofNat items.length)]? = some v) :
    Holds slots mask (items ++ [v]) r := by
  rw [ofNat_length hr] at hv
  rw [Holds, List.length_append, List.length_singleton, Nat.sub_add_comm hr, window_concat, hv,
    List.drop_append_of_le_length hr, List.map_append]
  exact congrArg (· ++ [some v]) h

/-- A window as the tail of a list that has as many items as the counter says. -/
theorem of_window {xs : List α} {head : UInt32}
    (h : window slots mask head xs.length = xs.map some) (pad : α) :
    Holds slots mask (List.replicate head.toNat pad ++ xs) head.toNat := by
  rw [Holds, List.drop_left' List.length_replicate, List.length_append, List.length_replicate,
    Nat.add_sub_cancel_left, UInt32.ofNat_toNat]
  exact h

/-- A push behind the last item. -/
theorem push (hMask : Masks mask size) (hs : slots.length = size) (h : Holds slots mask items r)
    (hr : r ≤ items.length) (hn : items.length - r < size) (v : α) :
    Holds (slots.set (slot mask (UInt32.ofNat items.length)) v) mask (items ++ [v]) r := by
  refine (h.set hMask hr hn v).snoc hr (List.getElem?_set_self ?_)
  rw [hs]
  exact slot_lt hMask _

end Holds

end Miring.Ring
