import Mathlib.Logic.Basic

/-!
# Walks along a successor function

A loop that replaces its position by the next one for as long as a condition holds. The positions it
visits are a list, and the loop ends exactly when there is one.
-/

namespace KernelTest

variable {σ : Type} {next : σ → σ} {going : σ → Prop}

/-- From the first position through the listed ones, at each of which the loop goes on, to the last
one. -/
inductive Path (next : σ → σ) (going : σ → Prop) : σ → List σ → σ → Prop
  | nil (s : σ) : Path next going s [] s
  | cons {s t : σ} {visited : List σ} (hgoing : going s) (rest : Path next going (next s) visited t) :
    Path next going s (s :: visited) t

/-- The loop visits the listed positions and ends. -/
inductive Visits (next : σ → σ) (going : σ → Prop) : σ → List σ → Prop
  | stop {s : σ} (hstop : ¬ going s) : Visits next going s []
  | step {s : σ} {visited : List σ} (hgoing : going s) (rest : Visits next going (next s) visited) :
    Visits next going s (s :: visited)

theorem Path.visits {s t : σ} {left right : List σ} (h : Path next going s left t)
    (h' : Visits next going t right) : Visits next going s (left ++ right) := by
  induction h with
  | nil => exact h'
  | cons hgoing _ ih => exact .step hgoing (ih h')

theorem Path.append {s t u : σ} {left right : List σ} (h : Path next going s left t)
    (h' : Path next going t right u) : Path next going s (left ++ right) u := by
  induction h with
  | nil => exact h'
  | cons hgoing _ ih => exact .cons hgoing (ih h')

namespace Visits

variable {s : σ} {visited : List σ}

theorem next_ne (h : Visits next going s visited) (hgoing : going s) : next s ≠ s := by
  induction h with
  | stop hstop => exact absurd hgoing hstop
  | step _ rest ih =>
    intro heq
    rw [heq] at ih
    exact ih hgoing heq

theorem going_of_mem (h : Visits next going s visited) {t : σ} (ht : t ∈ visited) :
    going t ∧ next t ≠ t := by
  induction h with
  | stop => cases ht
  | step hgoing rest ih =>
    rcases List.mem_cons.mp ht with rfl | hrest
    · exact ⟨hgoing, (Visits.step hgoing rest).next_ne hgoing⟩
    · exact ih hrest

theorem invariant (h : Visits next going s visited) {I : σ → Prop} (hs : I s)
    (hnext : ∀ t, going t → I t → I (next t)) : ∀ t ∈ visited, I t := by
  induction h with
  | stop =>
    intro t ht
    cases ht
  | step hgoing _ ih =>
    intro t ht
    rcases List.mem_cons.mp ht with rfl | hrest
    · exact hs
    · exact ih (hnext _ hgoing hs) t hrest

theorem length_le (h : Visits next going s visited) (m : σ → Nat) {bound : Nat}
    (hgrow : ∀ t ∈ visited, m t < m (next t)) (hbound : ∀ t, going t → m t < bound) :
    visited.length ≤ bound - m s := by
  induction h with
  | stop => exact Nat.zero_le _
  | @step s visited hgoing _ ih =>
    have hhead := hgrow s List.mem_cons_self
    have hlt := hbound s hgoing
    have hrest := ih fun t ht => hgrow t (List.mem_cons_of_mem s ht)
    rw [List.length_cons]
    omega

end Visits

end KernelTest
