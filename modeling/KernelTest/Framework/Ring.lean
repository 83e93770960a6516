import Mathlib.Data.Nat.ModEq
import Mathlib.Logic.Function.Basic
import Mathlib.Tactic.SplitIfs

/-!
# Rings and the streams through them

A ring of `size` places is filled and emptied at two indices that go round. Counted without going
round, `r` elements were taken and `w` were put, and the indices are `r % size` and `w % size`.
-/

namespace KernelTest.Ring

/-- The elements between the index `r` that is read at and the index `w` that is written at. -/
def unread (size r w : Nat) : Nat := if r = w then 0 else if w < r then size - r + w else w - r

def available (size r w : Nat) : Nat :=
  if r = w then size - 1 else if w < r then r - w - 1 else size - w + r - 1

theorem unread_add_available {size r w : Nat} (hr : r < size) (hw : w < size) :
    unread size r w + available size r w = size - 1 := by
  unfold unread available
  split
  · omega
  · split <;> omega

variable {size r w : Nat}

theorem mod_eq_of_window (h : r ≤ w) (h' : w < r + size) :
    w % size = if r % size + (w - r) < size then r % size + (w - r)
      else r % size + (w - r) - size := by
  have hr : r % size < size := Nat.mod_lt r (by omega)
  have hw : w % size = (r % size + (w - r)) % size := by
    rw [Nat.mod_add_mod, Nat.add_sub_cancel' h]
  rw [hw]
  split
  · next hlt => exact Nat.mod_eq_of_lt hlt
  · next hge =>
    rw [Nat.mod_eq_sub_mod (by omega)]
    exact Nat.mod_eq_of_lt (by omega)

theorem unread_mod (h : r ≤ w) (h' : w < r + size) :
    unread size (r % size) (w % size) = w - r := by
  have hr : r % size < size := Nat.mod_lt r (by omega)
  rw [mod_eq_of_window h h', unread]
  split_ifs <;> omega

theorem available_mod (h : r ≤ w) (h' : w < r + size) :
    available size (r % size) (w % size) = size - 1 - (w - r) := by
  have hr : r % size < size := Nat.mod_lt r (by omega)
  have hw : w % size < size := Nat.mod_lt w (by omega)
  have hsum := unread_add_available hr hw
  rw [unread_mod h h'] at hsum
  omega

theorem succ_mod (n : Nat) (h : 0 < size) :
    (n + 1) % size = if n % size + 1 = size then 0 else n % size + 1 := by
  have hn : n % size < size := Nat.mod_lt n h
  rw [← Nat.mod_add_mod]
  split
  · next heq => rw [heq, Nat.mod_self]
  · exact Nat.mod_eq_of_lt (by omega)

variable {α : Type} {buffer : Nat → α} {stream : List α}

/-- From the position `r` on, the stream is in the ring. -/
def Holds (size : Nat) (buffer : Nat → α) (r : Nat) (stream : List α) : Prop :=
  ∀ p, r ≤ p → ∀ c, stream[p]? = some c → buffer (p % size) = c

theorem Holds.mono (h : Holds size buffer r stream) {r' : Nat} (hr : r ≤ r') :
    Holds size buffer r' stream := fun p hp => h p (by omega)

theorem Holds.write (h : Holds size buffer r stream) (hlen : stream.length < r + size) (c : α) :
    Holds size (Function.update buffer (stream.length % size) c) r (stream ++ [c]) := by
  intro p hp d hd
  by_cases hlt : p < stream.length
  · have hne : p % size ≠ stream.length % size := by
      intro heq
      have hwindow : stream.length < p + size := by omega
      have hmod := mod_eq_of_window hlt.le hwindow
      have hps : p % size < size := Nat.mod_lt p (by omega)
      rw [← heq] at hmod
      split at hmod <;> omega
    rw [List.getElem?_append_left hlt] at hd
    rw [Function.update_of_ne hne]
    exact h p hp d hd
  · have hp' : p = stream.length := by
      have hsome := (List.getElem?_eq_some_iff.1 hd).1
      rw [List.length_append, List.length_singleton] at hsome
      omega
    rw [hp', List.getElem?_concat_length] at hd
    cases hd
    rw [hp', Function.update_self]

theorem Holds.read (h : Holds size buffer r stream) {taken : List α} (hpre : taken <+: stream)
    (hr : taken.length = r) (hlt : r < stream.length) :
    taken ++ [buffer (r % size)] <+: stream := by
  obtain ⟨rest, rfl⟩ := hpre
  cases rest with
  | nil =>
    rw [List.append_nil] at hlt
    omega
  | cons c rest =>
    have hc : (taken ++ c :: rest)[r]? = some c := by
      rw [← hr, List.getElem?_append_right (Nat.le_refl _), Nat.sub_self]
      rfl
    rw [h r (Nat.le_refl r) c hc]
    exact ⟨rest, by simp⟩

end KernelTest.Ring
