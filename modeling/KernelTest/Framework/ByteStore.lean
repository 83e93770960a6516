import Mathlib.Data.UInt
import Mathlib.Logic.Function.Basic

/-!
# Files as byte sequences

A store of named files, each of them a length and a byte for every place, also behind the end. What a
place holds after a number of changes is what the last one stored there, in whatever order the files
were changed.
-/

namespace KernelTest

structure ByteFile where
  len : Nat
  byte : Nat → UInt8

/-- A change of a file: bytes are stored from an offset on, or its length is set to 0. -/
inductive FileChange
  | put (offset size : Nat) (data : Nat → UInt8)
  | clear

namespace FileChange

/-- The byte that the change stores at a place. -/
def stored : FileChange → Nat → Option UInt8
  | put offset size data, p => if offset ≤ p ∧ p < offset + size then some (data (p - offset)) else none
  | clear, _ => none

def apply : FileChange → ByteFile → ByteFile
  | put offset size data, f =>
    ⟨max f.len (offset + size), fun p => ((put offset size data).stored p).getD (f.byte p)⟩
  | clear, f => ⟨0, f.byte⟩

theorem byte_apply (c : FileChange) (f : ByteFile) (p : Nat) :
    (c.apply f).byte p = (c.stored p).getD (f.byte p) := by
  cases c <;> rfl

end FileChange

section Store

variable {ι : Type} [DecidableEq ι]

/-- The store after a list of changes to named files. -/
def changeAll : List (ι × FileChange) → (ι → ByteFile) → ι → ByteFile
  | [], σ => σ
  | (n, c) :: cs, σ => changeAll cs (Function.update σ n (c.apply (σ n)))

/-- What the last change of the file stores at the place. -/
def lastStored (n : ι) (p : Nat) : List (ι × FileChange) → Option UInt8
  | [] => none
  | (m, c) :: cs => (lastStored n p cs).or (if m = n then c.stored p else none)

/-- A place holds what was stored there last. -/
theorem byte_changeAll (cs : List (ι × FileChange)) (σ : ι → ByteFile) (n : ι) (p : Nat) :
    (changeAll cs σ n).byte p = (lastStored n p cs).getD ((σ n).byte p) := by
  induction cs generalizing σ with
  | nil => rfl
  | cons mc cs ih =>
    obtain ⟨m, c⟩ := mc
    rw [changeAll, ih, lastStored]
    cases hlast : lastStored n p cs with
    | some b => rfl
    | none =>
      by_cases hm : m = n
      · subst hm
        rw [Function.update_self, if_pos rfl, c.byte_apply]
        rfl
      · rw [Function.update_of_ne (Ne.symm hm), if_neg hm]
        rfl

theorem changeAll_append (cs cs' : List (ι × FileChange)) (σ : ι → ByteFile) :
    changeAll (cs ++ cs') σ = changeAll cs' (changeAll cs σ) := by
  induction cs generalizing σ with
  | nil => rfl
  | cons mc cs ih => exact ih _

end Store

end KernelTest
