import Mathlib.Logic.Function.Basic

/-!
# Write-back caches

A cache is a list of lines over a store. Relative to the memory that a cacheless run would have,
it is coherent when every tracked line holds that memory's value, and every tracked key is up to
date in the store unless a dirty line holds it. Each cache operation replaces one line; the rules
below say what that does to coherence, and a cache without dirty lines leaves the two stores equal.
-/

namespace KernelTest

variable {α K V : Type}

/-- How a line of type `α` is read: the key it holds, whether it is dirty, and its value. -/
structure LineView (α K V : Type) where
  key : α → K
  dirty : α → Bool
  val : α → V

structure Coherent (view : LineView α K V) (tracked : K → Prop) (lines : List α)
    (store memory : K → V) : Prop where
  unique : ∀ (i j : Nat) (a b : α), lines[i]? = some a → lines[j]? = some b → tracked (view.key a) →
    view.key a = view.key b → i = j
  cached : ∀ (i : Nat) (a : α), lines[i]? = some a → tracked (view.key a) →
    view.val a = memory (view.key a)
  clean : ∀ (i : Nat) (a : α), lines[i]? = some a → tracked (view.key a) → view.dirty a = false →
    store (view.key a) = memory (view.key a)
  absent : ∀ k, tracked k → (∀ (i : Nat) (a : α), lines[i]? = some a → view.key a ≠ k) → store k = memory k
  dirty : ∀ (i : Nat) (a : α), lines[i]? = some a → view.dirty a = true → tracked (view.key a)

namespace Coherent

variable {view : LineView α K V} {tracked : K → Prop} {lines : List α} {store memory : K → V}

private theorem of_set {i j : Nat} {a b : α} (h : (lines.set i b)[j]? = some a) :
    (j = i ∧ a = b) ∨ (j ≠ i ∧ lines[j]? = some a) := by
  rw [List.getElem?_set] at h
  by_cases hij : i = j
  · left
    rw [if_pos hij] at h
    split at h
    · exact ⟨hij.symm, (Option.some.inj h).symm⟩
    · cases h
  · right
    rw [if_neg hij] at h
    exact ⟨Ne.symm hij, h⟩

private theorem set_other {i j : Nat} {a b : α} (hij : j ≠ i) (h : lines[j]? = some a) :
    (lines.set i b)[j]? = some a := by
  rwa [List.getElem?_set_ne (Ne.symm hij)]

private theorem set_same {i : Nat} {a b : α} (h : lines[i]? = some a) :
    (lines.set i b)[i]? = some b :=
  List.getElem?_set_self (List.getElem?_eq_some_iff.mp h).choose

theorem set_same_key (h : Coherent view tracked lines store memory) {i : Nat} {a b : α}
    {store' memory' : K → V} (ha : lines[i]? = some a) (hkey : view.key b = view.key a)
    (hval : tracked (view.key a) → view.val b = memory' (view.key a))
    (hclean : tracked (view.key a) → view.dirty b = false →
      store' (view.key a) = memory' (view.key a))
    (hdirty : view.dirty b = true → tracked (view.key a))
    (hstore : ∀ k, tracked k → k ≠ view.key a → store' k = store k)
    (hmemory : ∀ k, tracked k → k ≠ view.key a → memory' k = memory k) :
    Coherent view tracked (lines.set i b) store' memory' := by
  have hother : ∀ (j : Nat) (c : α), lines[j]? = some c → j ≠ i → tracked (view.key c) →
      view.key c ≠ view.key a := by
    intro j c hc hji ht heq
    exact hji (h.unique j i c a hc ha ht heq)
  constructor
  · intro j k c d hc hd ht heq
    rcases of_set hc with ⟨hj, hcb⟩ | ⟨hj, hc'⟩ <;> rcases of_set hd with ⟨hk, hdb⟩ | ⟨hk, hd'⟩
    · rw [hj, hk]
    · rw [hcb, hkey] at ht heq
      exact absurd (h.unique k i d a hd' ha (heq ▸ ht) heq.symm) hk
    · rw [hdb, hkey] at heq
      exact absurd (h.unique j i c a hc' ha ht heq) hj
    · exact h.unique j k c d hc' hd' ht heq
  · intro j c hc ht
    rcases of_set hc with ⟨-, rfl⟩ | ⟨hj, hc⟩
    · rw [hkey] at ht ⊢
      exact hval ht
    · rw [hmemory _ ht (hother j c hc hj ht)]
      exact h.cached j c hc ht
  · intro j c hc ht hcl
    rcases of_set hc with ⟨-, rfl⟩ | ⟨hj, hc⟩
    · rw [hkey] at ht ⊢
      exact hclean ht hcl
    · rw [hmemory _ ht (hother j c hc hj ht), hstore _ ht (hother j c hc hj ht)]
      exact h.clean j c hc ht hcl
  · intro k ht hk
    have hka : k ≠ view.key a := by
      intro heq
      exact hk i b (set_same ha) (by rw [hkey, heq])
    rw [hstore k ht hka, hmemory k ht hka]
    apply h.absent k ht
    intro j c hc
    by_cases hj : j = i
    · rw [hj, ha] at hc
      cases hc
      exact Ne.symm hka
    · exact hk j c (set_other hj hc)
  · intro j c hc hd
    rcases of_set hc with ⟨-, rfl⟩ | ⟨-, hc⟩
    · rw [hkey]
      exact hdirty hd
    · exact h.dirty j c hc hd

theorem set_new_key (h : Coherent view tracked lines store memory) {i : Nat} {a b : α}
    {memory' : K → V} (ha : lines[i]? = some a) (hca : view.dirty a = false)
    (htb : tracked (view.key b)) (hfresh : ∀ (j : Nat) (c : α), lines[j]? = some c → view.key c ≠ view.key b)
    (hval : view.val b = memory' (view.key b))
    (hclean : view.dirty b = false → store (view.key b) = memory' (view.key b))
    (hmemory : ∀ k, tracked k → k ≠ view.key b → memory' k = memory k) :
    Coherent view tracked (lines.set i b) store memory' := by
  constructor
  · intro j k c d hc hd ht heq
    rcases of_set hc with ⟨hj, hcb⟩ | ⟨hj, hc'⟩ <;> rcases of_set hd with ⟨hk, hdb⟩ | ⟨hk, hd'⟩
    · rw [hj, hk]
    · rw [hcb] at heq
      exact absurd heq.symm (hfresh k d hd')
    · rw [hdb] at heq
      exact absurd heq (hfresh j c hc')
    · exact h.unique j k c d hc' hd' ht heq
  · intro j c hc ht
    rcases of_set hc with ⟨-, rfl⟩ | ⟨-, hc⟩
    · exact hval
    · rw [hmemory _ ht (hfresh j c hc)]
      exact h.cached j c hc ht
  · intro j c hc ht hcl
    rcases of_set hc with ⟨-, rfl⟩ | ⟨-, hc⟩
    · exact hclean hcl
    · rw [hmemory _ ht (hfresh j c hc)]
      exact h.clean j c hc ht hcl
  · intro k ht hk
    have hkb : k ≠ view.key b := fun heq => hk i b (set_same ha) heq.symm
    rw [hmemory k ht hkb]
    -- a key that has just lost its line was held clean, so the store has its value
    by_cases hka : view.key a = k
    · rw [← hka] at ht ⊢
      exact h.clean i a ha ht hca
    · apply h.absent k ht
      intro j c hc
      by_cases hj : j = i
      · rw [hj, ha] at hc
        cases hc
        exact hka
      · exact hk j c (set_other hj hc)
  · intro j c hc hd
    rcases of_set hc with ⟨-, rfl⟩ | ⟨-, hc⟩
    · exact htb
    · exact h.dirty j c hc hd

theorem touch (h : Coherent view tracked lines store memory) {i : Nat} {a b : α}
    (ha : lines[i]? = some a) (hkey : view.key b = view.key a) (hd : view.dirty b = view.dirty a)
    (hval : view.val b = view.val a) : Coherent view tracked (lines.set i b) store memory := by
  apply h.set_same_key ha hkey
  · intro ht
    rw [hval, h.cached i a ha ht]
  · intro ht hc
    exact h.clean i a ha ht (by rw [← hd, hc])
  · intro hb
    exact h.dirty i a ha (by rw [← hd, hb])
  · exact fun _ _ _ => rfl
  · exact fun _ _ _ => rfl

theorem flush (h : Coherent view tracked lines store memory) {i : Nat} {a b : α} {store' : K → V}
    (ha : lines[i]? = some a) (hda : view.dirty a = true) (hkey : view.key b = view.key a)
    (hval : view.val b = view.val a) (hd : view.dirty b = false)
    (hsame : store' (view.key a) = view.val a)
    (hstore : ∀ k, tracked k → k ≠ view.key a → store' k = store k) :
    Coherent view tracked (lines.set i b) store' memory := by
  have ht := h.dirty i a ha hda
  apply h.set_same_key ha hkey
  · intro _
    rw [hval, h.cached i a ha ht]
  · intro _ _
    rw [hsame, h.cached i a ha ht]
  · intro hb
    rw [hd] at hb
    cases hb
  · exact hstore
  · exact fun _ _ _ => rfl

theorem store_eq (h : Coherent view tracked lines store memory)
    (hclean : ∀ (i : Nat) (a : α), lines[i]? = some a → view.dirty a = false) {k : K} (ht : tracked k) :
    store k = memory k := by
  by_cases hk : ∃ (i : Nat) (a : α), lines[i]? = some a ∧ view.key a = k
  · obtain ⟨i, a, ha, rfl⟩ := hk
    exact h.clean i a ha ht (hclean i a ha)
  · apply h.absent k ht
    intro i a ha heq
    exact hk ⟨i, a, ha, heq⟩

theorem initial {lines : List α} {store : K → V}
    (hkey : ∀ (i : Nat) (a : α), lines[i]? = some a → ¬ tracked (view.key a))
    (hclean : ∀ (i : Nat) (a : α), lines[i]? = some a → view.dirty a = false) :
    Coherent view tracked lines store store := by
  constructor
  · intro i j a b ha _ ht _
    exact absurd ht (hkey i a ha)
  · intro i a ha ht
    exact absurd ht (hkey i a ha)
  · intro i a ha ht _
    exact absurd ht (hkey i a ha)
  · exact fun _ _ _ => rfl
  · intro i a ha hd
    rw [hclean i a ha] at hd
    cases hd

end Coherent

end KernelTest
