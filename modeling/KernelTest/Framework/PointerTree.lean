import Mathlib.Logic.Basic
import Mathlib.Tactic.Common

/-!
# Tables of pointers to tables

A store of tables in which a pointer is the name of another table and the null pointer is 0. What
a path of indices leads to, and how that changes when a table is added or an entry is stored.
-/

namespace KernelTest

/-- The path to a table: one of the roots, or the table behind entry `i` of another one. -/
inductive TablePath (κ ι : Type)
  | root (k : κ)
  | child (t : TablePath κ ι) (i : ι)
  deriving DecidableEq, Repr

theorem TablePath.ne_child {κ ι : Type} (t : TablePath κ ι) (i : ι) : t ≠ .child t i := by
  induction t generalizing i with
  | root k => intro heq; cases heq
  | child t j ih =>
    intro heq
    injection heq with hparent _
    exact ih j hparent

/-- The pointers at the roots, and the entries of the table with a given name. -/
structure PointerMap (κ ι β : Type) where
  root : κ → β
  entry : β → ι → β

namespace PointerMap

variable {κ ι β : Type} [Zero β] [DecidableEq β]

/-- The table at the end of a path, or 0 when a pointer on the path is null. -/
def tableAt (m : PointerMap κ ι β) : TablePath κ ι → β
  | .root k => m.root k
  | .child t i => if m.tableAt t = 0 then 0 else m.entry (m.tableAt t) i

@[simp] theorem tableAt_root (m : PointerMap κ ι β) (k : κ) : m.tableAt (.root k) = m.root k := rfl

theorem tableAt_child {m : PointerMap κ ι β} {t : TablePath κ ι} (h : m.tableAt t ≠ 0) (i : ι) :
    m.tableAt (.child t i) = m.entry (m.tableAt t) i := if_neg h

theorem tableAt_child_of_zero {m : PointerMap κ ι β} {t : TablePath κ ι} (h : m.tableAt t = 0)
    (i : ι) : m.tableAt (.child t i) = 0 := if_pos h

theorem tableAt_parent {m : PointerMap κ ι β} {t : TablePath κ ι} {i : ι}
    (h : m.tableAt (.child t i) ≠ 0) : m.tableAt t ≠ 0 :=
  fun hzero => h (tableAt_child_of_zero hzero i)

/-- No table is reached by two of the paths in `V`. -/
def Distinct (m : PointerMap κ ι β) (V : TablePath κ ι → Prop) : Prop :=
  ∀ t t', V t → V t' → m.tableAt t ≠ 0 → m.tableAt t = m.tableAt t' → t = t'

def ParentClosed (V : TablePath κ ι → Prop) : Prop := ∀ t i, V (.child t i) → V t

structure AddsTable (V : TablePath κ ι → Prop) (m m' : PointerMap κ ι β) (T : TablePath κ ι)
    (b : β) : Prop where
  ne_zero : b ≠ 0
  absent : m.tableAt T = 0
  parent : ∀ t i, T = .child t i → m.tableAt t ≠ 0
  fresh : ∀ t, V t → m.tableAt t ≠ b
  rooted : ∀ k, T = .root k → m'.root k = b
  root : ∀ k, T ≠ .root k → m'.root k = m.root k
  linked : ∀ t i, T = .child t i → m'.entry (m.tableAt t) i = b
  kept : ∀ t i, V t → m.tableAt t ≠ 0 → T ≠ .child t i →
    m'.entry (m.tableAt t) i = m.entry (m.tableAt t) i
  empty : ∀ i, m'.entry b i = 0

namespace AddsTable

variable {V : TablePath κ ι → Prop} {m m' : PointerMap κ ι β} {T : TablePath κ ι} {b : β}

private theorem tableAt_cases (h : AddsTable V m m' T b) (hclosed : ParentClosed V)
    {t : TablePath κ ι} (ht : V t) :
    (t = T → m'.tableAt t = b) ∧ (t ≠ T → m'.tableAt t = m.tableAt t) := by
  induction t with
  | root k => exact ⟨fun heq => h.rooted k heq.symm, fun hne => h.root k (Ne.symm hne)⟩
  | child t i ih =>
    obtain ⟨hself, hother⟩ := ih (hclosed t i ht)
    by_cases hT : t = T
    · have hparent := hself hT
      have hne : m'.tableAt t ≠ 0 := by
        rw [hparent]
        exact h.ne_zero
      have hnot : TablePath.child t i ≠ T :=
        fun heq => t.ne_child i (hT.trans heq.symm)
      refine ⟨fun heq => absurd heq hnot, fun _ => ?_⟩
      rw [tableAt_child hne, hparent, h.empty, tableAt_child_of_zero (hT ▸ h.absent)]
    · have hparent := hother hT
      by_cases hzero : m.tableAt t = 0
      · refine ⟨fun heq => absurd hzero (h.parent t i heq.symm), fun _ => ?_⟩
        rw [tableAt_child_of_zero (hparent.trans hzero), tableAt_child_of_zero hzero]
      · rw [tableAt_child (by rwa [hparent]), hparent]
        refine ⟨fun heq => h.linked t i heq.symm, fun hne => ?_⟩
        rw [h.kept t i (hclosed t i ht) hzero (Ne.symm hne), tableAt_child hzero]

theorem tableAt_self (h : AddsTable V m m' T b) (hclosed : ParentClosed V) (hT : V T) :
    m'.tableAt T = b :=
  (h.tableAt_cases hclosed hT).1 rfl

theorem tableAt_other (h : AddsTable V m m' T b) (hclosed : ParentClosed V) {t : TablePath κ ι}
    (ht : V t) (hne : t ≠ T) : m'.tableAt t = m.tableAt t :=
  (h.tableAt_cases hclosed ht).2 hne

theorem distinct (h : AddsTable V m m' T b) (hclosed : ParentClosed V) (hd : m.Distinct V) :
    m'.Distinct V := by
  intro t t' ht ht' hne heq
  by_cases hT : t = T
  · by_cases hT' : t' = T
    · rw [hT, hT']
    · rw [hT, h.tableAt_self hclosed (hT ▸ ht), h.tableAt_other hclosed ht' hT'] at heq
      exact absurd heq.symm (h.fresh t' ht')
  · rw [h.tableAt_other hclosed ht hT] at hne heq
    by_cases hT' : t' = T
    · rw [hT', h.tableAt_self hclosed (hT' ▸ ht')] at heq
      exact absurd heq (h.fresh t ht)
    · rw [h.tableAt_other hclosed ht' hT'] at heq
      exact hd t t' ht ht' hne heq

end AddsTable

/-- `m'` is `m` with `v` in entry `e` of the table at the end of `L`, which leads to no other. -/
structure StoresEntry (V : TablePath κ ι → Prop) (m m' : PointerMap κ ι β) (L : TablePath κ ι)
    (e : ι) (v : β) : Prop where
  leaf : ∀ i, ¬ V (.child L i)
  root : ∀ k, m'.root k = m.root k
  stored : m'.entry (m.tableAt L) e = v
  kept : ∀ t i, V t → m.tableAt t ≠ 0 → t ≠ L ∨ i ≠ e →
    m'.entry (m.tableAt t) i = m.entry (m.tableAt t) i

theorem StoresEntry.tableAt_eq {V : TablePath κ ι → Prop} {m m' : PointerMap κ ι β}
    {L : TablePath κ ι} {e : ι} {v : β} (h : StoresEntry V m m' L e v) (hclosed : ParentClosed V)
    {t : TablePath κ ι} (ht : V t) : m'.tableAt t = m.tableAt t := by
  induction t with
  | root k => exact h.root k
  | child t i ih =>
    have hparent := ih (hclosed t i ht)
    have hne : t ≠ L := fun heq => h.leaf i (heq ▸ ht)
    by_cases hzero : m.tableAt t = 0
    · rw [tableAt_child_of_zero (hparent.trans hzero), tableAt_child_of_zero hzero]
    · rw [tableAt_child (by rwa [hparent]), hparent,
        h.kept t i (hclosed t i ht) hzero (Or.inl hne), tableAt_child hzero]

end PointerMap

end KernelTest
