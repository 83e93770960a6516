import Mathlib.Logic.Basic

/-!
# Wait queues

Tasks sleep on a queue until they are wanted. Somebody who makes them wanted wakes up the queue
afterwards, and until then owes it to them.
-/

namespace KernelTest

structure WaitQueue (τ : Type) where
  queued : List τ
  /-- Those who are queued should be woken up. -/
  wanted : Prop
  /-- The task is on its way to emptying the queue. -/
  waking : τ → Prop

namespace WaitQueue

variable {τ : Type} {w w' : WaitQueue τ}

def Served (w : WaitQueue τ) : Prop := w.queued ≠ [] → w.wanted → ∃ t, w.waking t

theorem served_of_empty (h : w.queued = []) : w.Served := fun hne => absurd h hne

theorem Served.step (h : w.Served) (hqueued : w'.queued ≠ [] → w.queued ≠ [])
    (hwanted : w'.wanted → w.wanted ∨ ∃ t, w'.waking t)
    (hwaking : ∀ t, w.waking t → (∃ t', w'.waking t') ∨ w'.queued = []) : w'.Served := by
  intro hne hw'
  cases hwanted hw' with
  | inr hwaker => exact hwaker
  | inl hw =>
    obtain ⟨t, ht⟩ := h (hqueued hne) hw
    cases hwaking t ht with
    | inl hwaker => exact hwaker
    | inr hnil => exact absurd hnil hne

theorem Served.not_wanted (h : w.Served) {t : τ} (ht : t ∈ w.queued) (hstill : ∀ u, ¬ w.waking u) :
    ¬ w.wanted := by
  intro hw
  obtain ⟨u, hu⟩ := h (List.ne_nil_of_mem ht) hw
  exact hstill u hu

end WaitQueue

end KernelTest
