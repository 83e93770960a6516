import Mathlib.Data.List.Basic

/-!
# Doubly linked lists in a store of nodes

A store gives every node its two neighbours. `Seg s p xs q` says that `xs` is a doubly linked run
of nodes whose first `prev` is `p` and whose last `next` is `q`; runs are taken apart and put
together with `seg_append`, and updates elsewhere leave them alone.
-/

namespace KernelTest

/-- The two links of a node; `none` is the null pointer. -/
structure Links (ν : Type) where
  next : Option ν
  prev : Option ν
  deriving DecidableEq

namespace Links

variable {ν : Type} {s t : ν → Links ν} {p q : Option ν} {n : ν} {xs ys : List ν}

/-- `xs` is doubly linked, coming from `p` and going on to `q`. -/
def Seg (s : ν → Links ν) : Option ν → List ν → Option ν → Prop
  | _, [], _ => True
  | p, n :: ns, q => (s n).prev = p ∧ (s n).next = ns.head?.or q ∧ Seg s (some n) ns q

@[simp] theorem seg_nil : Seg s p [] q := trivial

theorem seg_cons :
    Seg s p (n :: xs) q ↔ (s n).prev = p ∧ (s n).next = xs.head?.or q ∧ Seg s (some n) xs q :=
  Iff.rfl

@[simp] theorem seg_singleton : Seg s p [n] q ↔ (s n).prev = p ∧ (s n).next = q := by
  simp [seg_cons]

theorem seg_append : Seg s p (xs ++ ys) q ↔
    Seg s p xs (ys.head?.or q) ∧ Seg s (xs.getLast?.or p) ys q := by
  induction xs generalizing p with
  | nil => simp
  | cons n xs ih =>
    have hlast : (n :: xs).getLast?.or p = xs.getLast?.or (some n) := by
      cases xs <;> simp [List.getLast?_cons]
    have hhead : (xs ++ ys).head?.or q = xs.head?.or (ys.head?.or q) := by
      cases xs <;> simp
    rw [List.cons_append, seg_cons, seg_cons, ih, hlast, hhead]
    tauto

theorem seg_congr (h : ∀ n ∈ xs, s n = t n) : Seg s p xs q ↔ Seg t p xs q := by
  induction xs generalizing p with
  | nil => simp
  | cons n xs ih =>
    rw [seg_cons, seg_cons, h n (by simp), ih fun m hm => h m (by simp [hm])]

theorem Seg.prev_head {k : ν} (h : Seg s p xs q) (hk : xs.head? = some k) : (s k).prev = p := by
  cases xs with
  | nil => cases hk
  | cons n xs =>
    rw [← Option.some.inj hk]
    exact h.1

theorem Seg.next_last {k : ν} (h : Seg s p xs q) (hk : xs.getLast? = some k) :
    (s k).next = q := by
  rcases List.eq_nil_or_concat' xs with rfl | ⟨ys, n, rfl⟩
  · cases hk
  · rw [seg_append, seg_singleton] at h
    have hnk : n = k := by simpa using hk
    rw [← hnk]
    exact h.2.2

theorem Seg.relink {p' q' : Option ν} (h : Seg s p xs q) (hnodup : xs.Nodup)
    (hfirst : ∀ k, xs.head? = some k → (t k).prev = p')
    (hprev : ∀ k ∈ xs, xs.head? ≠ some k → (t k).prev = (s k).prev)
    (hlast : ∀ k, xs.getLast? = some k → (t k).next = q')
    (hnext : ∀ k ∈ xs, xs.getLast? ≠ some k → (t k).next = (s k).next) :
    Seg t p' xs q' := by
  induction xs generalizing p p' with
  | nil => trivial
  | cons n xs ih =>
    rw [seg_cons] at h
    rw [List.nodup_cons] at hnodup
    have hne : ∀ k ∈ xs, n ≠ k := fun k hk => (ne_of_mem_of_not_mem hk hnodup.1).symm
    have hin : ∀ k, xs.head? = some k → k ∈ xs := fun k hk => List.mem_of_mem_head? hk
    rw [seg_cons]
    refine ⟨hfirst n rfl, ?_, ?_⟩
    · rcases List.eq_nil_or_concat' xs with rfl | ⟨zs, z, rfl⟩
      · exact hlast n rfl
      · have hlast' : (n :: (zs ++ [z])).getLast? = some z := by
          rw [← List.cons_append, List.getLast?_concat]
        have hnz : z ≠ n := (hne z (by simp)).symm
        rw [hnext n (by simp) (by simp [hlast', hnz]), h.2.1]
        cases zs <;> rfl
    · refine ih h.2.2 hnodup.2 ?_ ?_ ?_ ?_
      · intro k hk
        have hkx := hin k hk
        rw [hprev k (by simp [hkx]) (by simpa using hne k hkx)]
        exact h.2.2.prev_head hk
      · intro k hk _
        exact hprev k (by simp [hk]) (by simpa using hne k hk)
      · intro k hk
        apply hlast k
        rw [List.getLast?_cons, hk]
        rfl
      · intro k hk hlk
        apply hnext k (by simp [hk])
        cases xs with
        | nil => cases hk
        | cons x xs => rwa [List.getLast?_cons_cons]

end Links

end KernelTest
