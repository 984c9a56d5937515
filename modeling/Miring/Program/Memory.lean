import Miring.Program.Basic
import Mathlib.Algebra.Group.Nat.Defs
import Mathlib.Tactic.Common

/-!
# Programs over a byte memory

The actions read a cell, write a cell, or leave a note in the trace. The memory maps
addresses to cells; a read needs an initialised cell and a write needs a mapped one, and
every other access is undefined.

A completed execution depends only on the cells its trace touches (`exec_congr`) and
changes only the cells it writes (`exec_stores`). Hence programs whose traces do not
conflict do not see each other: `Settled` says what every thread of a pool is going to do
and what the memory is going to be, and neither a step of a thread nor the start of a new
independent thread changes that (`Settled.advance`, `Settled.spawn`).
-/

namespace Miring

inductive MemCell (V : Type) where
  | unmapped
  | uninit
  | byte (v : V)
  deriving DecidableEq, Repr

inductive MemOp (A V L : Type) where
  | read (a : A)
  | write (a : A) (v : V)
  | note (l : L)
  deriving DecidableEq

abbrev MemOp.Res {A V L : Type} : MemOp A V L → Type
  | .read _ => V
  | .write _ _ => Unit
  | .note _ => Unit

abbrev memSig (A V L : Type) : Signature := ⟨MemOp A V L, MemOp.Res⟩

abbrev Mem (A V : Type) := A → MemCell V

variable {A V L : Type} [DecidableEq A]

def memSem : Semantics (memSig A V L) (Mem A V)
  | .read a, m =>
      match m a with
      | .byte v => some (v, m)
      | _ => none
  | .write a v, m =>
      match m a with
      | .unmapped => none
      | _ => some ((), Function.update m a (.byte v))
  | .note _, m => some ((), m)

omit [DecidableEq A] in
theorem memSem_read_iff [DecidableEq A] {a : A} {m m' : Mem A V} {v : V} :
    memSem (L := L) (.read a) m = some (v, m') ↔ m a = .byte v ∧ m' = m := by
  simp only [memSem]
  cases m a <;> simp [eq_comm]

theorem memSem_write_iff {a : A} {v : V} {m m' : Mem A V} {u : Unit} :
    memSem (L := L) (.write a v) m = some (u, m') ↔
      m a ≠ .unmapped ∧ m' = Function.update m a (.byte v) := by
  simp only [memSem]
  cases m a <;> simp [eq_comm]

/-! ## What a trace touches -/

namespace Trace

/-- The address an event accesses. -/
def addr : Event (memSig A V L) → Option A
  | ⟨.read a, _⟩ => some a
  | ⟨.write a _, _⟩ => some a
  | ⟨.note _, _⟩ => none

/-- The address an event writes. -/
def target : Event (memSig A V L) → Option A
  | ⟨.write a _, _⟩ => some a
  | _ => none

def Touches (tr : List (Event (memSig A V L))) (a : A) : Prop := ∃ e ∈ tr, addr e = some a

def Writes (tr : List (Event (memSig A V L))) (a : A) : Prop := ∃ e ∈ tr, target e = some a

/-- The memory after the writes of a trace. -/
def stores : List (Event (memSig A V L)) → Mem A V → Mem A V
  | [], m => m
  | ⟨.write a v, _⟩ :: tr, m => stores tr (Function.update m a (.byte v))
  | _ :: tr, m => stores tr m

/-- Neither trace writes a cell that the other one touches. -/
def Independent (tr tr' : List (Event (memSig A V L))) : Prop :=
  ∀ a, (Writes tr a → ¬ Touches tr' a) ∧ (Writes tr' a → ¬ Touches tr a)

omit [DecidableEq A] in
theorem independent_iff {tr tr' : List (Event (memSig A V L))} :
    Independent tr tr' ↔ ∀ e ∈ tr, ∀ e' ∈ tr',
      (∀ a ∈ target e, addr e' ≠ some a) ∧ ∀ a ∈ target e', addr e ≠ some a := by
  constructor
  · intro h e he e' he'
    refine ⟨fun a ha ha' => ?_, fun a ha ha' => ?_⟩
    · exact (h a).1 ⟨e, he, ha⟩ ⟨e', he', ha'⟩
    · exact (h a).2 ⟨e', he', ha⟩ ⟨e, he, ha'⟩
  · intro h a
    refine ⟨?_, ?_⟩
    · rintro ⟨e, he, ha⟩ ⟨e', he', ha'⟩
      exact (h e he e' he').1 a ha ha'
    · rintro ⟨e', he', ha⟩ ⟨e, he, ha'⟩
      exact (h e he e' he').2 a ha ha'

instance (tr tr' : List (Event (memSig A V L))) : Decidable (Independent tr tr') :=
  decidable_of_iff _ independent_iff.symm

omit [DecidableEq A] in
theorem Writes.touches {tr : List (Event (memSig A V L))} {a : A} (h : Writes tr a) :
    Touches tr a := by
  obtain ⟨⟨o, r⟩, he, ha⟩ := h
  refine ⟨_, he, ?_⟩
  cases o <;> simp_all [target, addr]

omit [DecidableEq A] in
theorem touches_append {tr tr' : List (Event (memSig A V L))} {a : A} :
    Touches (tr ++ tr') a ↔ Touches tr a ∨ Touches tr' a := by
  simp only [Touches, List.mem_append, or_and_right, exists_or]

omit [DecidableEq A] in
theorem touches_cons {e : Event (memSig A V L)} {tr : List (Event (memSig A V L))} {a : A} :
    Touches (e :: tr) a ↔ addr e = some a ∨ Touches tr a := by
  simp [Touches]

omit [DecidableEq A] in
theorem writes_cons {e : Event (memSig A V L)} {tr : List (Event (memSig A V L))} {a : A} :
    Writes (e :: tr) a ↔ target e = some a ∨ Writes tr a := by
  simp [Writes]

omit [DecidableEq A] in
theorem Independent.symm {tr tr' : List (Event (memSig A V L))} (h : Independent tr tr') :
    Independent tr' tr := fun a => ⟨(h a).2, (h a).1⟩

omit [DecidableEq A] in
theorem independent_nil (tr : List (Event (memSig A V L))) : Independent [] tr :=
  fun a => ⟨fun ⟨_, h, _⟩ => by simp at h, fun _ ⟨_, h, _⟩ => by simp at h⟩

omit [DecidableEq A] in
/-- A part of a trace conflicts with less than the whole. -/
theorem Independent.suffix {tr tr₁ tr' : List (Event (memSig A V L))}
    (h : Independent tr tr') (hs : tr₁ <:+ tr) : Independent tr₁ tr' := by
  have hsub : ∀ e ∈ tr₁, e ∈ tr := fun e he => hs.subset he
  refine fun a => ⟨fun ⟨e, he, ha⟩ => (h a).1 ⟨e, hsub e he, ha⟩, fun hw ⟨e, he, ha⟩ => ?_⟩
  exact (h a).2 hw ⟨e, hsub e he, ha⟩

theorem stores_of_not_writes {tr : List (Event (memSig A V L))} {a : A} (h : ¬ Writes tr a)
    (m : Mem A V) : stores tr m a = m a := by
  induction tr generalizing m with
  | nil => rfl
  | cons e tr ih =>
    rw [writes_cons, not_or] at h
    obtain ⟨o, r⟩ := e
    cases o with
    | read b => exact ih h.2 m
    | note l => exact ih h.2 m
    | write b v =>
      have hne : a ≠ b := fun hab => h.1 (by rw [hab]; rfl)
      exact (ih h.2 _).trans (Function.update_of_ne hne _ _)

/-- What a trace leaves in a cell it writes does not depend on the memory before. -/
theorem stores_of_writes {tr : List (Event (memSig A V L))} {a : A} (h : Writes tr a)
    (m m' : Mem A V) : stores tr m a = stores tr m' a := by
  induction tr generalizing m m' with
  | nil => obtain ⟨e, he, -⟩ := h; simp at he
  | cons e tr ih =>
    rw [writes_cons] at h
    obtain ⟨o, r⟩ := e
    by_cases hw : Writes tr a
    · cases o <;> exact ih hw _ _
    · have ha : target ⟨o, r⟩ = some a := h.resolve_right hw
      cases o with
      | read b => cases ha
      | note l => cases ha
      | write b v =>
        obtain rfl : b = a := by simpa [target] using ha
        simp only [stores, stores_of_not_writes hw, Function.update_self]

theorem stores_append (tr tr' : List (Event (memSig A V L))) (m : Mem A V) :
    stores (tr ++ tr') m = stores tr' (stores tr m) := by
  induction tr generalizing m with
  | nil => rfl
  | cons e tr ih =>
    obtain ⟨o, r⟩ := e
    cases o <;> exact ih _

/-- The writes of independent traces commute. -/
theorem Independent.stores_comm {tr tr' : List (Event (memSig A V L))} (h : Independent tr tr')
    (m : Mem A V) : stores tr (stores tr' m) = stores tr' (stores tr m) := by
  funext a
  by_cases hw : Writes tr a
  · have hw' : ¬ Writes tr' a := fun h' => (h a).1 hw h'.touches
    rw [stores_of_writes hw _ m, stores_of_not_writes hw']
  · rw [stores_of_not_writes hw]
    by_cases hw' : Writes tr' a
    · exact stores_of_writes hw' _ _
    · rw [stores_of_not_writes hw', stores_of_not_writes hw', stores_of_not_writes hw]

end Trace

open Trace

/-! ## What an execution depends on -/

namespace Program

variable {α : Type}

/-- A completed execution changes the memory by the writes of its trace. -/
theorem exec_stores {p : Program (memSig A V L) α} {m m' : Mem A V}
    {tr : List (Event (memSig A V L))} {a : α}
    (h : exec memSem p m = some (tr, a, m')) : m' = stores tr m := by
  induction p generalizing m tr with
  | ret b => cases h; rfl
  | act o k ih =>
    obtain ⟨r, m₁, tr', ho, hk, rfl⟩ := exec_act_iff.mp h
    have hm' := ih r hk
    cases o with
    | read b => obtain ⟨-, rfl⟩ := memSem_read_iff.mp ho; exact hm'
    | write b v => obtain ⟨-, rfl⟩ := memSem_write_iff.mp ho; exact hm'
    | note l => cases ho; exact hm'

/-- A completed execution touches mapped cells only. -/
theorem exec_mapped {p : Program (memSig A V L) α} {m m' : Mem A V}
    {tr : List (Event (memSig A V L))} {x : α} {a : A}
    (h : exec memSem p m = some (tr, x, m')) (ha : Touches tr a) : m a ≠ .unmapped := by
  induction p generalizing m tr with
  | ret b =>
    cases h
    obtain ⟨e, he, -⟩ := ha
    cases he
  | act o k ih =>
    obtain ⟨r, m₁, tr', ho, hk, rfl⟩ := exec_act_iff.mp h
    rcases touches_cons.mp ha with hHere | hLater
    · cases o with
      | read b =>
        obtain rfl := Option.some.inj hHere
        rw [(memSem_read_iff.mp ho).1]
        nofun
      | write b v =>
        obtain rfl := Option.some.inj hHere
        exact (memSem_write_iff.mp ho).1
      | note l => cases hHere
    · have hRest := ih r hk hLater
      cases o with
      | read b =>
        obtain ⟨-, rfl⟩ := memSem_read_iff.mp ho
        exact hRest
      | write b v =>
        obtain ⟨hb, rfl⟩ := memSem_write_iff.mp ho
        by_cases hab : a = b
        · rw [hab]
          exact hb
        · rwa [Function.update_of_ne hab] at hRest
      | note l =>
        cases ho
        exact hRest

/-- A memory that agrees on the touched cells yields the same trace and result. -/
theorem exec_congr {p : Program (memSig A V L) α} {m m' m₂ : Mem A V}
    {tr : List (Event (memSig A V L))} {a : α}
    (h : exec memSem p m = some (tr, a, m')) (hm : ∀ x, Touches tr x → m₂ x = m x) :
    exec memSem p m₂ = some (tr, a, stores tr m₂) := by
  induction p generalizing m m₂ tr with
  | ret b => cases h; rfl
  | act o k ih =>
    obtain ⟨r, m₁, tr', ho, hk, rfl⟩ := exec_act_iff.mp h
    have hTail : ∀ x, Touches tr' x → m₂ x = m x := fun x hx => hm x (touches_cons.mpr (.inr hx))
    rw [exec_act_iff]
    cases o with
    | read b =>
      obtain ⟨hb, rfl⟩ := memSem_read_iff.mp ho
      have hb₂ := (hm b (touches_cons.mpr (.inl rfl))).trans hb
      exact ⟨r, m₂, tr', memSem_read_iff.mpr ⟨hb₂, rfl⟩, ih r hk hTail, rfl⟩
    | write b v =>
      obtain ⟨hb, rfl⟩ := memSem_write_iff.mp ho
      have hb₂ : m₂ b ≠ .unmapped := by rwa [hm b (touches_cons.mpr (.inl rfl))]
      refine ⟨r, _, tr', memSem_write_iff.mpr ⟨hb₂, rfl⟩, ih r hk fun x hx => ?_, rfl⟩
      by_cases hxb : x = b
      · rw [hxb, Function.update_self, Function.update_self]
      · rw [Function.update_of_ne hxb, Function.update_of_ne hxb, hTail x hx]
    | note l =>
      cases ho
      exact ⟨_, m₂, tr', rfl, ih _ hk hTail, rfl⟩

end Program

/-! ## Threads whose traces do not conflict -/

open Program

variable {α : Type}

/-- What the threads of a pool are going to do from memory `m`: thread `i` will leave the
trace `trs i` and the result `rs i`, no two of these traces conflict, and the memory will
end as `M`. -/
structure Settled (threads : List (Program (memSig A V L) α)) (m : Mem A V)
    (trs : List (List (Event (memSig A V L)))) (rs : List α) (M : Mem A V) : Prop where
  traces_length : trs.length = threads.length
  results_length : rs.length = threads.length
  exec : ∀ {i : Nat} {p tr r}, threads[i]? = some p → trs[i]? = some tr → rs[i]? = some r →
    Program.exec memSem p m = some (tr, r, stores tr m)
  independent : ∀ {i j : Nat} {tr tr'}, i ≠ j → trs[i]? = some tr → trs[j]? = some tr' →
    Independent tr tr'
  final : M = stores trs.flatten m

namespace Settled

variable {threads : List (Program (memSig A V L) α)} {m M : Mem A V}
  {trs : List (List (Event (memSig A V L)))} {rs : List α}

theorem empty (m : Mem A V) : Settled ([] : List (Program (memSig A V L) α)) m [] [] m where
  traces_length := rfl
  results_length := rfl
  exec := by simp
  independent := by simp
  final := rfl

theorem lookup (h : Settled threads m trs rs M) {i : Nat} {p : Program (memSig A V L) α}
    (hp : threads[i]? = some p) : ∃ tr r, trs[i]? = some tr ∧ rs[i]? = some r := by
  have hi := (List.getElem?_eq_some_iff.mp hp).1
  have hTr : i < trs.length := by rw [h.traces_length]; exact hi
  have hRs : i < rs.length := by rw [h.results_length]; exact hi
  exact ⟨trs[i], rs[i], List.getElem?_eq_getElem hTr, List.getElem?_eq_getElem hRs⟩

/-- A finished thread has no actions left. -/
theorem trace (h : Settled threads m trs rs M) {i : Nat} {a : α}
    (hp : threads[i]? = some (.ret a)) : trs[i]? = some [] := by
  obtain ⟨tr, r, htr, hr⟩ := h.lookup hp
  have hx := h.exec hp htr hr
  rw [exec_ret] at hx
  rw [htr]
  exact congrArg some (Prod.mk.inj (Option.some.inj hx)).1.symm

/-- A finished thread has its predicted result. -/
theorem result (h : Settled threads m trs rs M) {i : Nat} {a : α}
    (hp : threads[i]? = some (.ret a)) : rs[i]? = some a := by
  obtain ⟨tr, r, htr, hr⟩ := h.lookup hp
  have hx := h.exec hp htr hr
  rw [exec_ret] at hx
  rw [hr]
  exact congrArg some (Prod.mk.inj (Prod.mk.inj (Option.some.inj hx)).2).1.symm

/-- When all threads are finished the memory is the predicted one. -/
theorem final_of_returned (h : Settled threads m trs rs M)
    (hAll : ∀ p ∈ threads, ∃ a, p = .ret a) : M = m := by
  have hNil : ∀ tr ∈ trs, tr = [] := by
    intro tr hMem
    obtain ⟨i, hTr⟩ := List.mem_iff_getElem?.mp hMem
    have hi := (List.getElem?_eq_some_iff.mp hTr).1
    rw [h.traces_length] at hi
    obtain ⟨a, ha⟩ := hAll _ (List.getElem_mem hi)
    have hp := List.getElem?_eq_getElem hi
    rw [ha] at hp
    exact Option.some.inj (hTr.symm.trans (h.trace hp))
  rw [h.final, List.flatten_eq_nil_iff.mpr hNil]
  rfl

/-- An unfinished thread can always perform its next action. -/
theorem enabled (h : Settled threads m trs rs M) {i : Nat} {o : MemOp A V L}
    {k : MemOp.Res o → Program (memSig A V L) α} (hp : threads[i]? = some (.act o k)) :
    ∃ r m', memSem o m = some (r, m') := by
  obtain ⟨tr, r, htr, hr⟩ := h.lookup hp
  obtain ⟨r', m₁, -, ho, -⟩ := exec_act_iff.mp (h.exec hp htr hr)
  exact ⟨r', m₁, ho⟩

omit [DecidableEq A] in
/-- A step shortens what is left. -/
theorem length_flatten_set {trs : List (List (Event (memSig A V L)))} {i : Nat}
    {e : Event (memSig A V L)} {tr : List (Event (memSig A V L))}
    (hi : trs[i]? = some (e :: tr)) : (trs.set i tr).flatten.length < trs.flatten.length := by
  induction trs generalizing i with
  | nil => simp at hi
  | cons t trs ih =>
    cases i with
    | zero =>
      obtain rfl : t = e :: tr := by simpa using hi
      simp
    | succ i =>
      have hRest := ih (i := i) (by simpa using hi)
      simpa using hRest

theorem flatten_stores {trs : List (List (Event (memSig A V L)))} {i : Nat}
    {e : Event (memSig A V L)} {tr : List (Event (memSig A V L))}
    (hi : trs[i]? = some (e :: tr))
    (hInd : ∀ j tr', j ≠ i → trs[j]? = some tr' → Independent [e] tr') (m : Mem A V) :
    stores (trs.set i tr).flatten (stores [e] m) = stores trs.flatten m := by
  induction trs generalizing i m with
  | nil => simp at hi
  | cons t trs ih =>
    cases i with
    | zero =>
      obtain rfl : t = e :: tr := by simpa using hi
      simp only [List.set_cons_zero, List.flatten_cons, stores_append]
      rw [← stores_append [e] tr, List.singleton_append]
    | succ i =>
      have hComm : Independent [e] t := hInd 0 t (by omega) rfl
      simp only [List.set_cons_succ, List.flatten_cons, stores_append]
      rw [← hComm.stores_comm]
      refine ih (by simpa using hi) ?_ _
      intro j tr' hj h'
      exact hInd (j + 1) tr' (by omega) (by simpa using h')

/-- **A step of a thread** changes neither the predicted results nor the final memory. -/
theorem advance (h : Settled threads m trs rs M) {i : Nat} {o : MemOp A V L}
    {k : MemOp.Res o → Program (memSig A V L) α} (hp : threads[i]? = some (.act o k))
    {r : MemOp.Res o} {m' : Mem A V} (ho : memSem o m = some (r, m')) :
    ∃ tr, trs[i]? = some (⟨o, r⟩ :: tr) ∧
      Settled (threads.set i (k r)) m' (trs.set i tr) rs M := by
  obtain ⟨tr, a, htr, ha⟩ := h.lookup hp
  have hx := h.exec hp htr ha
  obtain ⟨r', m₁, tr', ho', hk, rfl⟩ := exec_act_iff.mp hx
  obtain ⟨rfl, rfl⟩ := Prod.mk.inj (Option.some.inj (ho.symm.trans ho'))
  have hOne : Program.exec memSem (perform (S := memSig A V L) o) m = some ([⟨o, r⟩], r, m') :=
    exec_act_iff.mpr ⟨r, m', [], ho, rfl, rfl⟩
  have hm' : m' = stores [⟨o, r⟩] m := exec_stores hOne
  have hi := (List.getElem?_eq_some_iff.mp hp).1
  have hiT : i < trs.length := by rw [h.traces_length]; exact hi
  have hOther : ∀ j tr₂, j ≠ i → trs[j]? = some tr₂ → Independent (⟨o, r⟩ :: tr') tr₂ :=
    fun j tr₂ hj h₂ => h.independent (Ne.symm hj) htr h₂
  have hHead : ∀ j tr₂, j ≠ i → trs[j]? = some tr₂ → Independent [⟨o, r⟩] tr₂ := by
    intro j tr₂ hj h₂ a
    refine ⟨fun ⟨e, he, hw⟩ => (hOther j tr₂ hj h₂ a).1 ⟨e, ?_, hw⟩, fun hw ⟨e, he, ht⟩ =>
      (hOther j tr₂ hj h₂ a).2 hw ⟨e, ?_, ht⟩⟩
    all_goals
      rw [List.mem_singleton.mp he]
      exact List.mem_cons_self
  refine ⟨tr', htr, ⟨by simpa using h.traces_length, by simpa using h.results_length, ?_, ?_, ?_⟩⟩
  · intro j p t b hjp hjt hjb
    by_cases hj : j = i
    · -- the thread that moved continues with the rest of its trace
      subst hj
      rw [List.getElem?_set_self hi] at hjp
      rw [List.getElem?_set_self hiT] at hjt
      cases hjp
      cases hjt
      obtain rfl : a = b := Option.some.inj (ha.symm.trans hjb)
      rw [hk]
      exact congrArg (fun q => some (_, a, q)) (exec_stores hk)
    · -- the others do not touch what it wrote
      rw [List.getElem?_set_ne (Ne.symm hj)] at hjp hjt
      refine exec_congr (h.exec hjp hjt hjb) fun x hx => ?_
      rw [hm', stores_of_not_writes]
      exact fun hw => ((hHead j t hj hjt) x).1 hw hx
  · intro j₁ j₂ t₁ t₂ hne h₁ h₂
    by_cases hj₁ : j₁ = i
    · subst hj₁
      rw [List.getElem?_set_self hiT] at h₁
      cases h₁
      rw [List.getElem?_set_ne hne] at h₂
      exact (hOther j₂ t₂ (Ne.symm hne) h₂).suffix (List.suffix_cons _ _)
    · rw [List.getElem?_set_ne (Ne.symm hj₁)] at h₁
      by_cases hj₂ : j₂ = i
      · subst hj₂
        rw [List.getElem?_set_self hiT] at h₂
        cases h₂
        exact ((hOther j₁ t₁ hne h₁).suffix (List.suffix_cons _ _)).symm
      · rw [List.getElem?_set_ne (Ne.symm hj₂)] at h₂
        exact h.independent hne h₁ h₂
  · rw [h.final, hm', flatten_stores htr hHead]

/-- **A new thread** that is independent of all the others and would run to `r` from the
final memory joins the pool. -/
theorem spawn (h : Settled threads m trs rs M) {p : Program (memSig A V L) α}
    {tr : List (Event (memSig A V L))} {r : α} {M' : Mem A V}
    (hp : Program.exec memSem p M = some (tr, r, M'))
    (hInd : ∀ tr' ∈ trs, Independent tr tr') :
    Settled (threads ++ [p]) m (trs ++ [tr]) (rs ++ [r]) M' := by
  have hFlat : ∀ x, Touches tr x → m x = M x := by
    intro x hx
    rw [h.final, stores_of_not_writes]
    rintro ⟨e, he, hw⟩
    obtain ⟨tr', htr', hetr'⟩ := List.mem_flatten.mp he
    exact (hInd tr' htr' x).2 ⟨e, hetr', hw⟩ hx
  refine ⟨by simp [h.traces_length], by simp [h.results_length], ?_, ?_, ?_⟩
  · intro i q t b hq ht hb
    rcases Nat.lt_trichotomy i threads.length with hi | hi | hi
    · rw [List.getElem?_append_left hi] at hq
      rw [List.getElem?_append_left (by rw [h.traces_length]; exact hi)] at ht
      rw [List.getElem?_append_left (by rw [h.results_length]; exact hi)] at hb
      exact h.exec hq ht hb
    · subst hi
      rw [List.getElem?_concat_length] at hq
      rw [← h.traces_length, List.getElem?_concat_length] at ht
      rw [← h.results_length, List.getElem?_concat_length] at hb
      cases hq
      cases ht
      cases hb
      exact exec_congr hp hFlat
    · rw [List.getElem?_eq_none (by simp; omega)] at hq
      cases hq
  · intro i j t t' hne hi hj
    have hlt : ∀ {l : Nat} {u : List (Event (memSig A V L))}, (trs ++ [tr])[l]? = some u →
        trs[l]? = some u ∨ (l = trs.length ∧ u = tr) := by
      intro l u hu
      rcases Nat.lt_trichotomy l trs.length with hl | hl | hl
      · exact .inl (by rwa [List.getElem?_append_left hl] at hu)
      · subst hl
        rw [List.getElem?_concat_length] at hu
        exact .inr ⟨rfl, (Option.some.inj hu).symm⟩
      · rw [List.getElem?_eq_none (by simp; omega)] at hu
        cases hu
    rcases hlt hi with hi' | ⟨hi', rfl⟩
    · rcases hlt hj with hj' | ⟨hj', rfl⟩
      · exact h.independent hne hi' hj'
      · exact (hInd t (List.mem_of_getElem? hi')).symm
    · rcases hlt hj with hj' | ⟨hj', rfl⟩
      · exact hInd t' (List.mem_of_getElem? hj')
      · omega
  · rw [exec_stores hp, h.final, List.flatten_append, stores_append]
    simp

end Settled

end Miring
