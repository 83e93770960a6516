import Mathlib.Data.Nat.Basic
import Mathlib.Logic.Function.Basic
import Mathlib.Tactic.Common

/-!
# Nested critical sections

`int_disable` and `int_resume` keep the depth of nested critical sections in one counter, and decide
from the interrupt flag and the counter when interrupts come back on. The calls that change the
interrupt handlers write to the flag as well.
-/

namespace KernelTest.Cpu

/-- The interrupt flag of the processor and the static variables of the module. -/
structure Irq where
  interruptFlag : Bool
  /-- `sync_depth`, an `int` -/
  syncDepth : BitVec 32
  /-- `irq_routines`, where 0 is no handler -/
  irqRoutines : Nat → Nat

namespace Irq

/-- `SYNC_CLI()`. -/
def cli (s : Irq) : Irq := { s with interruptFlag := false }

/-- `SYNC_STI()`. -/
def sti (s : Irq) : Irq := { s with interruptFlag := true }

/-- `int_disable()`. -/
def intDisable (s : Irq) : Irq :=
  if s.interruptFlag then { s.cli with syncDepth := 1 }
  else { s.cli with syncDepth := s.syncDepth + 1 }

def intEnable (s : Irq) : Irq := { s with syncDepth := 0 }.sti

/-- `int_resume()`. -/
def intResume (s : Irq) : Irq :=
  if s.syncDepth = 0 ∨ s.syncDepth = 1 then s.sti
  else { s with syncDepth := s.syncDepth - 1 }

/-- The loop of `irq_install_handler` over the `n` entries of the chain from `i` on. -/
def addRoutine (irqNum handler : Nat) : Nat → Nat → Irq → Irq
  | 0, _, s => s
  | n + 1, i, s =>
    if s.irqRoutines (i * 16 + irqNum) ≠ 0 then addRoutine irqNum handler n (i + 1) s
    else { s with irqRoutines := Function.update s.irqRoutines (i * 16 + irqNum) handler }

/-- `irq_install_handler(irq_num, irq_handler)`. -/
def irqInstallHandler (irqNum handler : Nat) (s : Irq) : Irq :=
  (addRoutine irqNum handler 4 0 s.cli).sti

/-- The loop of `irq_uninstall_handler`. -/
def clearRoutines (irqNum : Nat) : Nat → Nat → Irq → Irq
  | 0, _, s => s
  | n + 1, i, s =>
    clearRoutines irqNum n (i + 1)
      { s with irqRoutines := Function.update s.irqRoutines (i * 16 + irqNum) 0 }

/-- `irq_uninstall_handler(irq_num)`. -/
def irqUninstallHandler (irqNum : Nat) (s : Irq) : Irq := (clearRoutines irqNum 4 0 s.cli).sti

end Irq

/-- A well-nested program; what it does besides these calls is left out. -/
inductive Nested
  | skip
  | seq (p q : Nested)
  /-- `int_disable(); p; int_resume();` -/
  | critical (p : Nested)
  | install (irqNum handler : Nat)
  | uninstall (irqNum : Nat)
  deriving Repr

namespace Nested

def run : Nested → Irq → Irq
  | skip, s => s
  | seq p q, s => q.run (p.run s)
  | critical p, s => (p.run s.intDisable).intResume
  | install irqNum handler, s => s.irqInstallHandler irqNum handler
  | uninstall irqNum, s => s.irqUninstallHandler irqNum

/-- The values of the interrupt flag while the program runs, after every step that writes to it. -/
def flags : Nested → Irq → List Bool
  | skip, _ => []
  | seq p q, s => p.flags s ++ q.flags (p.run s)
  | critical p, s =>
    s.intDisable.interruptFlag :: p.flags s.intDisable ++
      [(p.run s.intDisable).intResume.interruptFlag]
  | install irqNum handler, s =>
    [s.cli.interruptFlag, (s.irqInstallHandler irqNum handler).interruptFlag]
  | uninstall irqNum, s => [s.cli.interruptFlag, (s.irqUninstallHandler irqNum).interruptFlag]

/-- Interrupts are off from the `int_disable` around `p` until its `int_resume`, and then they are as
they were before. -/
def KeepsFlag (p : Nested) (s : Irq) : Prop :=
  s.intDisable.interruptFlag = false ∧ (∀ f ∈ p.flags s.intDisable, f = false) ∧
    ((critical p).run s).interruptFlag = s.interruptFlag

/-- How deep critical sections are nested in the program. -/
def depth : Nested → Nat
  | seq p q => max p.depth q.depth
  | critical p => p.depth + 1
  | _ => 0

/-- The program leaves the interrupt handlers alone. -/
def NoHandlers : Nested → Prop
  | skip => True
  | seq p q => p.NoHandlers ∧ q.NoHandlers
  | critical p => p.NoHandlers
  | install _ _ => False
  | uninstall _ => False

variable {p : Nested} {s : Irq}

theorem intDisable_flag (s : Irq) : s.intDisable.interruptFlag = false := by
  rw [Irq.intDisable]
  split <;> rfl

theorem intDisable_off (hoff : s.interruptFlag = false) :
    s.intDisable = { s with syncDepth := s.syncDepth + 1 } := by
  rw [Irq.intDisable, hoff, if_neg (by simp), Irq.cli, ← hoff]

theorem intResume_flag (hoff : s.interruptFlag = false) :
    s.intResume.interruptFlag = false ↔ s.syncDepth ≠ 0 ∧ s.syncDepth ≠ 1 := by
  rw [Irq.intResume]
  by_cases hdepth : s.syncDepth = 0 ∨ s.syncDepth = 1
  · rw [if_pos hdepth, ← not_or]
    exact iff_of_false (by simp [Irq.sti]) (not_not_intro hdepth)
  · rw [if_neg hdepth, ← not_or]
    exact iff_of_true hoff hdepth

theorem run_of_off (hoff : s.interruptFlag = false) (hflags : ∀ f ∈ p.flags s, f = false) :
    p.run s = s := by
  induction p generalizing s with
  | skip => rfl
  | seq p q ihp ihq =>
    rw [flags, List.forall_mem_append] at hflags
    have hp := ihp hoff hflags.1
    rw [hp] at hflags
    rw [run, hp, ihq hoff hflags.2]
  | critical p ih =>
    rw [flags, List.forall_mem_append, List.forall_mem_cons] at hflags
    obtain ⟨⟨_, hbody⟩, hresume⟩ := hflags
    have hp := ih (intDisable_flag s) hbody
    rw [hp] at hresume
    have hdepth := (intResume_flag (intDisable_flag s)).1 (hresume _ (by simp))
    rw [run, hp, Irq.intResume, if_neg (not_or.2 hdepth), intDisable_off hoff,
      BitVec.add_sub_cancel]
  | install irqNum handler =>
    have hlast := hflags true (by simp [flags, Irq.irqInstallHandler, Irq.sti])
    cases hlast
  | uninstall irqNum =>
    have hlast := hflags true (by simp [flags, Irq.irqUninstallHandler, Irq.sti])
    cases hlast

theorem off_iff (hoff : s.interruptFlag = false) : (∀ f ∈ p.flags s, f = false) ↔
    p.NoHandlers ∧ (p.depth = 0 ∨
      1 ≤ s.syncDepth.toNat ∧ s.syncDepth.toNat + p.depth < 4294967296) := by
  induction p generalizing s with
  | skip => simp [flags, NoHandlers, depth]
  | seq p q ihp ihq =>
    rw [flags, List.forall_mem_append, NoHandlers, depth]
    constructor
    · rintro ⟨hp, hq⟩
      rw [run_of_off hoff hp] at hq
      obtain ⟨hp1, hp2⟩ := (ihp hoff).1 hp
      obtain ⟨hq1, hq2⟩ := (ihq hoff).1 hq
      exact ⟨⟨hp1, hq1⟩, by omega⟩
    · rintro ⟨⟨hp1, hq1⟩, hdepth⟩
      have hp := (ihp hoff).2 ⟨hp1, by omega⟩
      refine ⟨hp, ?_⟩
      rw [run_of_off hoff hp]
      exact (ihq hoff).2 ⟨hq1, by omega⟩
  | critical p ih =>
    have hnat : s.intDisable.syncDepth.toNat = (s.syncDepth.toNat + 1) % 4294967296 := by
      rw [intDisable_off hoff]
      exact BitVec.toNat_add ..
    have hlt := s.syncDepth.isLt
    have hbody := ih (intDisable_flag s)
    have hresume : (∀ f ∈ p.flags s.intDisable, f = false) →
        ((p.run s.intDisable).intResume.interruptFlag = false ↔
          s.intDisable.syncDepth.toNat ≠ 0 ∧ s.intDisable.syncDepth.toNat ≠ 1) := by
      intro hflags
      rw [run_of_off (intDisable_flag s) hflags, intResume_flag (intDisable_flag s)]
      exact and_congr (not_congr BitVec.toNat_inj.symm) (not_congr BitVec.toNat_inj.symm)
    rw [flags, List.forall_mem_append, List.forall_mem_cons, NoHandlers, depth]
    constructor
    · rintro ⟨⟨_, hflags⟩, hlast⟩
      obtain ⟨h1, h2⟩ := hbody.1 hflags
      have h3 := (hresume hflags).1 (hlast _ (by simp))
      exact ⟨h1, by omega⟩
    · rintro ⟨h1, h2⟩
      have hflags := hbody.2 ⟨h1, by omega⟩
      exact ⟨⟨intDisable_flag s, hflags⟩, by simpa using (hresume hflags).2 (by omega)⟩
  | install irqNum handler => simp [flags, NoHandlers, Irq.irqInstallHandler, Irq.sti]
  | uninstall irqNum => simp [flags, NoHandlers, Irq.irqUninstallHandler, Irq.sti]

/-- A critical section keeps interrupts off and gives the flag back exactly if no handler is changed
in it and, where it is entered with interrupts off, the depth says that it is not the first one. -/
theorem keepsFlag_iff (p : Nested) (s : Irq) : p.KeepsFlag s ↔ p.NoHandlers ∧
    (if s.interruptFlag then p.depth + 1 < 4294967296
      else 0 < s.syncDepth.toNat ∧ s.syncDepth.toNat + 1 + p.depth < 4294967296) := by
  have hoff := intDisable_flag s
  have hbody := off_iff (p := p) hoff
  by_cases hflag : s.interruptFlag = true
  · have hdepth : s.intDisable.syncDepth = 1 := by rw [Irq.intDisable, if_pos hflag]
    have hnat : s.intDisable.syncDepth.toNat = 1 := by
      rw [hdepth]
      rfl
    rw [hnat] at hbody
    have hrange : p.depth = 0 ∨ 1 ≤ 1 ∧ 1 + p.depth < 4294967296 ↔ p.depth + 1 < 4294967296 := by
      omega
    rw [KeepsFlag, hbody, if_pos hflag, hrange]
    constructor
    · exact fun h => h.2.1
    · intro h
      refine ⟨hoff, h, ?_⟩
      rw [run, run_of_off hoff (hbody.2 ⟨h.1, hrange.2 h.2⟩), Irq.intResume, if_pos (Or.inr hdepth),
        hflag]
      rfl
  · have hlt := s.syncDepth.isLt
    rw [Bool.not_eq_true] at hflag
    have hnat : s.intDisable.syncDepth.toNat = (s.syncDepth.toNat + 1) % 4294967296 := by
      rw [intDisable_off hflag]
      exact BitVec.toNat_add ..
    have hlast : (∀ f ∈ p.flags s.intDisable, f = false) →
        (((critical p).run s).interruptFlag = s.interruptFlag ↔
          s.intDisable.syncDepth.toNat ≠ 0 ∧ s.intDisable.syncDepth.toNat ≠ 1) := by
      intro hflags
      rw [run, run_of_off hoff hflags, hflag, intResume_flag hoff]
      exact and_congr (not_congr BitVec.toNat_inj.symm) (not_congr BitVec.toNat_inj.symm)
    rw [KeepsFlag, if_neg (by simp [hflag])]
    constructor
    · rintro ⟨_, hflags, hresume⟩
      obtain ⟨h1, h2⟩ := hbody.1 hflags
      have h3 := (hlast hflags).1 hresume
      exact ⟨h1, by omega⟩
    · rintro ⟨h1, h2⟩
      have hflags := hbody.2 ⟨h1, by omega⟩
      exact ⟨hoff, hflags, (hlast hflags).2 (by omega)⟩

/-- In an interrupt handler that comes before any other section, `int_resume` turns interrupts on. -/
theorem keepsFlag_fails_in_handler :
    ¬ ∀ (p : Nested) (s : Irq), p.KeepsFlag s := by
  intro hall
  have hflag := (hall .skip ⟨false, 0, fun _ => 0⟩).2.2
  exact absurd hflag (by decide)

end Nested

end KernelTest.Cpu
