import Mathlib.Data.List.FinRange
import KernelTest.Boot.ModuleKeys
import KernelTest.Framework.Exec

/-!
# The vector of system calls

`syscalls_initialize` clears the vector by a number of bytes that is the number of its entries, installs what
has been scheduled, and then the default system calls, under names that are made from a counter.
-/

namespace KernelTest.Boot

open Libc

/-! ## The last one of a list -/

/-- The value of the last member that has one. -/
def lastBy {P β : Type} (f : P → Option β) (ps : List P) : Option β := ps.reverse.findSome? f

section Last

variable {P β : Type} {f : P → Option β} {ps : List P} {p : P} {b : β}

theorem lastBy_cons (f : P → Option β) (p : P) (ps : List P) : lastBy f (p :: ps) = (lastBy f ps).or (f p) := by
  rw [lastBy, List.reverse_cons, List.findSome?_append]
  simp [lastBy]

theorem lastBy_eq_none : lastBy f ps = none ↔ ∀ p ∈ ps, f p = none := by
  simp [lastBy, List.findSome?_eq_none_iff]

theorem lastBy_eq_some (hp : p ∈ ps) (hf : f p = some b) (h : ∀ q ∈ ps, ∀ c, f q = some c → c = b) :
    lastBy f ps = some b := by
  cases hlast : lastBy f ps with
  | none =>
    rw [lastBy_eq_none.mp hlast p hp] at hf
    cases hf
  | some c =>
    obtain ⟨q, hq, hc⟩ := List.exists_of_findSome?_eq_some hlast
    rw [h q (List.mem_reverse.mp hq) c hc]

end Last

/-! ## The system calls -/

/-- `SYSCALL_MAXCALLS` -/
def syscallMaxcalls : Nat := 128

/-- `num_syscalls`, the numbers up to `SYS_LSTAT`. -/
def numSyscalls : Nat := 59

/-- `struct syscall_packet` -/
structure SyscallPacket where
  syscallName : CText
  no : Fin syscallMaxcalls
  syscallAddr : UInt32

/-- `syscall_vector`, `syscall_vector_hash` and `syscall_count`. -/
structure Syscalls where
  vector : List UInt32
  hash : Hashmap Block
  count : Nat

/-- `syscall_schedule_install(name, no, addr)`: the result and `syscall_schedule_installs`. -/
def syscallScheduleInstall (initialized : Bool) (installs : Option (List SyscallPacket)) (p : SyscallPacket) :
    Int × Option (List SyscallPacket) :=
  if initialized then (-1, installs) else (0, some (installs.getD [] ++ [p]))

/-- `memset(v, 0, n)` for the bytes of whole words. -/
def clearBytes (v : List UInt32) (n : Nat) : List UInt32 := List.replicate (n / 4) 0 ++ v.drop (n / 4)

/-- `syscall_install_s(name, no, addr)` -/
def syscallInstallS (st : Syscalls) (name : Block) (no : Nat) (addr : UInt32) : Except Fault Syscalls :=
  if no < st.vector.length then do
    let (_, hash) ← hashmapSet st.hash name no
    pure ⟨st.vector.set no addr, hash, u32 (st.count + 1)⟩
  else throw .overrun

/-- The bytes of `sysc`. -/
def sysc : CText := ⟨[115, 121, 115, 99], by decide⟩

/-- `syscall_install_n(no, addr)` -/
def syscallInstallN (heap : Nat → UInt8) (st : Syscalls) (no : Nat) (addr : UInt32) : Except Fault Syscalls := do
  let name ← sprintf heap 16 (keyText sysc.1 st.count)
  syscallInstallS st name no addr

def installScheduled : List SyscallPacket → Syscalls → Except Fault Syscalls
  | [], st => pure st
  | p :: packets, st => do
    let st ← syscallInstallS st (p.syscallName.1 ++ [0]) p.no p.syscallAddr
    installScheduled packets st

/-- The loop over the default system calls. -/
def installDefaults (heap : Nat → UInt8) (syscalls : Fin numSyscalls → UInt32) :
    List (Fin numSyscalls) → Syscalls → Except Fault Syscalls
  | [], st => pure st
  | i :: rest, st => do
    let st ← syscallInstallN heap st i (syscalls i)
    installDefaults heap syscalls rest st

/-- `syscalls_initialize()`, without the interrupt handler, the symbol and the message. `junk` are the words of
the fresh vector, and `heap` fills the other fresh blocks. -/
def syscallsInitialize (junk : Nat → UInt32) (heap : Nat → UInt8) (syscalls : Fin numSyscalls → UInt32)
    (installs : Option (List SyscallPacket)) : Except Fault Syscalls := do
  let vector := clearBytes ((List.range syscallMaxcalls).map junk) syscallMaxcalls
  let st ← installScheduled (installs.getD []) ⟨vector, hashmapCreate heap syscallMaxcalls, 0⟩
  installDefaults heap syscalls (List.finRange numSyscalls) st

/-- `syscall_run_s(name)`: the number that the interrupt is raised with. -/
def syscallRunS (st : Syscalls) (name : Block) : Except Fault (Option Nat) := do
  if ← hashmapHas st.hash name then do
    let intno ← hashmapGet st.hash name
    pure (some intno)
  else pure none

/-- `syscall_handler(regs)`: the address that is called for the number in `eax`. -/
def syscallHandler (st : Syscalls) (eax : Nat) : Except Fault (Option UInt32) :=
  if eax ≥ syscallMaxcalls then pure none
  else
    match st.vector[eax]? with
    | none => throw .overrun
    | some cback => pure (if cback = 0 then none else some cback)

/-! ## What it should do -/

/-- Packets of 12 bytes each in an address space of 32 bits. -/
abbrev Schedule : Type := {packets : List SyscallPacket // 12 * packets.length < 2 ^ 32}

/-- The calls of `syscall_schedule_install` before the initialization. -/
def scheduled (packets : List SyscallPacket) : Option (List SyscallPacket) :=
  packets.foldl (fun installs p => (syscallScheduleInstall false installs p).2) none

/-- The address last scheduled for a number. -/
def lastAddress (packets : List SyscallPacket) (n : Nat) : Option UInt32 :=
  lastBy (fun p => if p.no.1 = n then some p.syscallAddr else none) packets

/-- The number last scheduled under a name. -/
def lastNumber (packets : List SyscallPacket) (name : CText) : Option Nat :=
  lastBy (fun p => if p.syscallName = name then some p.no.1 else none) packets

/-- The entry for a number: what was scheduled last, or the default, or 0. -/
def entryFor (syscalls : Fin numSyscalls → UInt32) (packets : List SyscallPacket) (n : Nat) : UInt32 :=
  (lastAddress packets n).getD (if h : n < numSyscalls then syscalls ⟨n, h⟩ else 0)

/-- The vector has the entries, and running a scheduled name reaches the entry of its number. -/
structure InitializesWell (junk : Nat → UInt32) (heap : Nat → UInt8) (syscalls : Fin numSyscalls → UInt32)
    (packets : List SyscallPacket) (st : Syscalls) : Prop where
  run : syscallsInitialize junk heap syscalls (scheduled packets) = .ok st
  vector : ∀ n < syscallMaxcalls, st.vector[n]? = some (entryFor syscalls packets n)
  names : ∀ key name n, DenotesText key name → lastNumber packets name = some n →
    syscallRunS st key = .ok (some n) ∧
      syscallHandler st n = .ok (if entryFor syscalls packets n = 0 then none else some (entryFor syscalls packets n))

/-! ## Installing -/

section Install

variable {heap : Nat → UInt8} {st : Syscalls} {v : Nat → UInt32} {m : CText → Option Nat} {k no : Nat}
  {packets : List SyscallPacket} {key : Block} {name : CText} {addr : UInt32}

def Numbers (heap : Nat → UInt8) (hash : Hashmap Block) (m : CText → Option Nat) : Prop :=
  ∃ t, hash.Represents (stringFuncs heap) (fun a : CText => a.1 ++ [0]) textHash t ∧ HashTable.find textHash t = m

structure Shows (heap : Nat → UInt8) (st : Syscalls) (v : Nat → UInt32) (m : CText → Option Nat) (k : Nat) : Prop where
  vector : st.vector = (List.range syscallMaxcalls).map v
  numbers : Numbers heap st.hash m
  count : st.count = k

theorem map_range_set {n i : Nat} (v : Nat → UInt32) (a : UInt32) :
    ((List.range n).map v).set i a = (List.range n).map (Function.update v i a) := by
  apply List.ext_getElem (by simp)
  intro j hj hj'
  simp [List.getElem_set, Function.update_apply, eq_comm]

theorem Shows.installS (h : Shows heap st v m k) (hk : k + 1 < 2 ^ 32) (hkey : DenotesText key name)
    (hno : no < syscallMaxcalls) (addr : UInt32) : ∃ st', syscallInstallS st key no addr = .ok st' ∧
      Shows heap st' (Function.update v no addr) (Function.update m name (some no)) (k + 1) := by
  obtain ⟨t, ht, hm⟩ := h.numbers
  obtain ⟨hash', hset, hrepresents⟩ := ht.set (stringFuncs_lawful heap) hkey no
  have hlen : no < st.vector.length := by simpa [h.vector] using hno
  refine ⟨⟨st.vector.set no addr, hash', u32 (st.count + 1)⟩, ?_, ?_, ⟨_, hrepresents, ?_⟩, ?_⟩
  · rw [syscallInstallS, if_pos hlen, hset]
    rfl
  · rw [h.vector, map_range_set]
  · rw [HashTable.find_insert ht.pos, hm]
  · rw [h.count]
    exact u32_of_lt hk

def wordsAfter (v : Nat → UInt32) (packets : List SyscallPacket) : Nat → UInt32 :=
  fun n => (lastAddress packets n).getD (v n)

def numbersAfter (m : CText → Option Nat) (packets : List SyscallPacket) : CText → Option Nat :=
  fun name => (lastNumber packets name).or (m name)

theorem wordsAfter_cons (v : Nat → UInt32) (p : SyscallPacket) (packets : List SyscallPacket) :
    wordsAfter v (p :: packets) = wordsAfter (Function.update v p.no p.syscallAddr) packets := by
  funext n
  rw [wordsAfter, wordsAfter, lastAddress, lastBy_cons, ← lastAddress, Function.update_apply]
  by_cases hn : n = p.no.1
  · subst hn
    cases lastAddress packets p.no.1 <;> simp
  · have hn' : p.no.1 ≠ n := Ne.symm hn
    simp [hn, hn']

theorem numbersAfter_cons (m : CText → Option Nat) (p : SyscallPacket) (packets : List SyscallPacket) :
    numbersAfter m (p :: packets) = numbersAfter (Function.update m p.syscallName (some p.no.1)) packets := by
  funext name
  rw [numbersAfter, numbersAfter, lastNumber, lastBy_cons, ← lastNumber, Function.update_apply]
  by_cases hname : name = p.syscallName
  · subst hname
    cases lastNumber packets p.syscallName <;> simp
  · have hname' : p.syscallName ≠ name := Ne.symm hname
    simp [hname, hname']

theorem Shows.installScheduled (h : Shows heap st v m k) (hk : k + packets.length < 2 ^ 32) :
    ∃ st', Boot.installScheduled packets st = .ok st' ∧
      Shows heap st' (wordsAfter v packets) (numbersAfter m packets) (k + packets.length) := by
  induction packets generalizing st v m k with
  | nil => exact ⟨st, rfl, h⟩
  | cons p packets ih =>
    rw [List.length_cons] at hk
    obtain ⟨st₁, hrun, h₁⟩ := h.installS (by omega) (denotes_name p.syscallName) p.no.2 p.syscallAddr
    obtain ⟨st₂, hrest, h₂⟩ := ih h₁ (by omega)
    refine ⟨st₂, ?_, ?_⟩
    · rw [Boot.installScheduled, hrun]
      exact hrest
    · rwa [← wordsAfter_cons, ← numbersAfter_cons, Nat.add_assoc, Nat.add_comm 1] at h₂

def defaultPackets (syscalls : Fin numSyscalls → UInt32) (k : Nat) : List (Fin numSyscalls) → List SyscallPacket
  | [] => []
  | i :: rest => ⟨keyOfCall sysc k, ⟨i.1, Nat.lt_trans i.2 (by decide)⟩, syscalls i⟩ ::
      defaultPackets syscalls (k + 1) rest

theorem length_keyText_sysc (hk : k < 10 ^ 10) : (keyText sysc.1 k).length < 16 := by
  have hdigits : (Nat.toDigits 10 k).length ≤ 10 := (Nat.length_toDigits_le_iff (by decide) (by decide)).mpr hk
  rw [keyText, List.length_append, List.length_cons, decimal, List.length_map]
  change 4 + _ < 16
  omega

theorem Shows.installDefaults (syscalls : Fin numSyscalls → UInt32) (is : List (Fin numSyscalls))
    (h : Shows heap st v m k) (hk : k + is.length < 2 ^ 32) :
    ∃ st', Boot.installDefaults heap syscalls is st = .ok st' ∧
      Shows heap st' (wordsAfter v (defaultPackets syscalls k is)) (numbersAfter m (defaultPackets syscalls k is))
        (k + is.length) := by
  induction is generalizing st v m k with
  | nil => exact ⟨st, rfl, h⟩
  | cons i is ih =>
    rw [List.length_cons] at hk
    have hfits : (keyText sysc.1 st.count).length < 16 := length_keyText_sysc (by rw [h.count]; omega)
    have hkey : DenotesText (keyText sysc.1 st.count ++ 0 :: (malloc heap 16).drop ((keyText sysc.1 st.count).length + 1))
        (keyOfCall sysc k) := by
      rw [h.count]
      exact denotes_sprintf (keyOfCall sysc k)
    have hno : i.1 < syscallMaxcalls := Nat.lt_trans i.2 (by decide)
    obtain ⟨st₁, hrun, h₁⟩ := h.installS (by omega) hkey hno (syscalls i)
    obtain ⟨st₂, hrest, h₂⟩ := ih h₁ (by omega)
    refine ⟨st₂, ?_, ?_⟩
    · rw [Boot.installDefaults, syscallInstallN, sprintf_eq heap hfits, Exec.ok_bind, hrun]
      exact hrest
    · rw [defaultPackets, wordsAfter_cons, numbersAfter_cons, List.length_cons, Nat.add_comm is.length,
        ← Nat.add_assoc]
      exact h₂

end Install

/-! ## The initialization -/

section Initialize

variable {junk : Nat → UInt32} {heap : Nat → UInt8} {syscalls : Fin numSyscalls → UInt32} {st : Syscalls}
  {v : Nat → UInt32} {m : CText → Option Nat} {k n : Nat} {packets : List SyscallPacket} {key : Block} {name : CText}

theorem mem_defaultPackets {is : List (Fin numSyscalls)} {p : SyscallPacket} :
    p ∈ defaultPackets syscalls k is ↔ ∃ (j : Nat) (i : Fin numSyscalls), is[j]? = some i ∧
      p = ⟨keyOfCall sysc (k + j), ⟨i.1, Nat.lt_trans i.2 (by decide)⟩, syscalls i⟩ := by
  induction is generalizing k with
  | nil => simp [defaultPackets]
  | cons i is ih =>
    rw [defaultPackets, List.mem_cons, ih]
    constructor
    · intro h
      cases h with
      | inl h => exact ⟨0, i, rfl, h⟩
      | inr h =>
        obtain ⟨j, i', hi', hp⟩ := h
        exact ⟨j + 1, i', hi', by rw [hp, Nat.add_assoc, Nat.add_comm 1]⟩
    · intro ⟨j, i', hi', hp⟩
      cases j with
      | zero =>
        cases hi'
        exact .inl hp
      | succ j => exact .inr ⟨j, i', hi', by rw [hp, Nat.add_assoc, Nat.add_comm 1]⟩

theorem mem_defaults {p : SyscallPacket} : p ∈ defaultPackets syscalls k (List.finRange numSyscalls) ↔
    ∃ i : Fin numSyscalls, p = ⟨keyOfCall sysc (k + i), ⟨i.1, Nat.lt_trans i.2 (by decide)⟩, syscalls i⟩ := by
  rw [mem_defaultPackets]
  constructor
  · intro ⟨j, i, hi, hp⟩
    obtain ⟨hj, hget⟩ := List.getElem?_eq_some_iff.mp hi
    rw [List.getElem_finRange] at hget
    exact ⟨i, by rw [hp, ← hget]; rfl⟩
  · intro ⟨i, hp⟩
    exact ⟨i.1, i, by simp, hp⟩

theorem lastAddress_defaults (h : n < numSyscalls) :
    lastAddress (defaultPackets syscalls k (List.finRange numSyscalls)) n = some (syscalls ⟨n, h⟩) := by
  apply lastBy_eq_some (mem_defaults.mpr ⟨⟨n, h⟩, rfl⟩) (if_pos rfl)
  intro q hq c hc
  obtain ⟨i, rfl⟩ := mem_defaults.mp hq
  by_cases hi : i.1 = n
  · subst hi
    simpa using hc.symm
  · simp [hi] at hc

theorem lastAddress_defaults_none (h : numSyscalls ≤ n) :
    lastAddress (defaultPackets syscalls k (List.finRange numSyscalls)) n = none := by
  apply lastBy_eq_none.mpr
  intro q hq
  obtain ⟨i, rfl⟩ := mem_defaults.mp hq
  exact if_neg (Nat.ne_of_lt (Nat.lt_of_lt_of_le i.2 h))

theorem lastNumber_defaults (i : Fin numSyscalls) :
    lastNumber (defaultPackets syscalls k (List.finRange numSyscalls)) (keyOfCall sysc (k + i)) = some i.1 := by
  apply lastBy_eq_some (mem_defaults.mpr ⟨i, rfl⟩) (if_pos rfl)
  intro q hq c hc
  obtain ⟨j, rfl⟩ := mem_defaults.mp hq
  by_cases hj : k + j.1 = k + i.1
  · have hij : j.1 = i.1 := by omega
    rw [if_pos (by rw [hj])] at hc
    rw [← Option.some.inj hc, hij]
  · rw [if_neg fun h => hj (keyOfCall_inj.mp h).2] at hc
    cases hc

theorem lastNumber_defaults_none (h : ∀ i : Fin numSyscalls, keyOfCall sysc (k + i) ≠ name) :
    lastNumber (defaultPackets syscalls k (List.finRange numSyscalls)) name = none := by
  apply lastBy_eq_none.mpr
  intro q hq
  obtain ⟨i, rfl⟩ := mem_defaults.mp hq
  exact if_neg (h i)

theorem scheduled_getD (packets : List SyscallPacket) : (scheduled packets).getD [] = packets := by
  have hfold : ∀ installs : Option (List SyscallPacket),
      (packets.foldl (fun installs p => (syscallScheduleInstall false installs p).2) installs).getD [] =
        installs.getD [] ++ packets := by
    induction packets with
    | nil => simp
    | cons p packets ih =>
      intro installs
      rw [List.foldl_cons, ih]
      simp [syscallScheduleInstall]
  exact hfold none

def cleared (junk : Nat → UInt32) (n : Nat) : UInt32 := if n < 32 then 0 else junk n

theorem clearBytes_eq (junk : Nat → UInt32) :
    clearBytes ((List.range syscallMaxcalls).map junk) syscallMaxcalls =
      (List.range syscallMaxcalls).map (cleared junk) := by
  apply List.ext_getElem
  · simp [clearBytes, syscallMaxcalls]
  · intro i hi hi'
    simp only [clearBytes, syscallMaxcalls, List.getElem_append, List.length_replicate, List.getElem_replicate,
      List.getElem_drop, List.getElem_map, List.getElem_range, cleared]
    by_cases hlt : i < 32
    · simp [hlt]
    · have hsum : 128 / 4 + (i - 128 / 4) = i := by omega
      simp [hlt, hsum]

theorem exists_initialized (junk : Nat → UInt32) (heap : Nat → UInt8) (syscalls : Fin numSyscalls → UInt32)
    (packets : Schedule) : ∃ st, syscallsInitialize junk heap syscalls (scheduled packets.1) = .ok st ∧
      Shows heap st
        (wordsAfter (wordsAfter (cleared junk) packets.1)
          (defaultPackets syscalls packets.1.length (List.finRange numSyscalls)))
        (numbersAfter (numbersAfter (fun _ => none) packets.1)
          (defaultPackets syscalls packets.1.length (List.finRange numSyscalls)))
        (packets.1.length + numSyscalls) := by
  have hlt := packets.2
  have hstart : Shows heap ⟨(List.range syscallMaxcalls).map (cleared junk), hashmapCreate heap syscallMaxcalls, 0⟩
      (cleared junk) (fun _ => none) 0 := by
    exact ⟨rfl, ⟨_, represents_create heap _ _ (by decide) (by decide), funext fun a => HashTable.find_empty _ a⟩, rfl⟩
  have hcount : 0 + packets.1.length < 2 ^ 32 := by omega
  obtain ⟨st₁, hrun₁, h₁⟩ := hstart.installScheduled hcount
  rw [Nat.zero_add] at h₁
  obtain ⟨st₂, hrun₂, h₂⟩ := h₁.installDefaults syscalls (List.finRange numSyscalls)
    (by rw [List.length_finRange, numSyscalls]; omega)
  rw [List.length_finRange] at h₂
  refine ⟨st₂, ?_, h₂⟩
  rw [syscallsInitialize, scheduled_getD, clearBytes_eq, hrun₁, Exec.ok_bind, hrun₂]

theorem Shows.runS (h : Shows heap st v m k) (hkey : DenotesText key name) : syscallRunS st key = .ok (m name) := by
  obtain ⟨t, ht, hm⟩ := h.numbers
  rw [syscallRunS, ht.has (stringFuncs_lawful heap) hkey, Exec.ok_bind, ht.get (stringFuncs_lawful heap) hkey, hm]
  cases m name <;> rfl

theorem Shows.getElem? (h : Shows heap st v m k) (hn : n < syscallMaxcalls) : st.vector[n]? = some (v n) := by
  rw [h.vector, List.getElem?_map, List.getElem?_range hn]
  rfl

theorem Shows.handler (h : Shows heap st v m k) (hn : n < syscallMaxcalls) :
    syscallHandler st n = .ok (if v n = 0 then none else some (v n)) := by
  rw [syscallHandler, if_neg (Nat.not_le.mpr hn), h.getElem? hn]
  rfl

/-- No default system call replaces a scheduled one with another address, the words that are neither cleared nor
set are 0, and a scheduled name that is also made for a default system call has the same number. -/
structure ScheduleFits (junk : Nat → UInt32) (syscalls : Fin numSyscalls → UInt32) (packets : List SyscallPacket) :
    Prop where
  defaults : ∀ (i : Fin numSyscalls) (a : UInt32), lastAddress packets i = some a → a = syscalls i
  fresh : ∀ n, numSyscalls ≤ n → n < syscallMaxcalls → lastAddress packets n = none → junk n = 0
  names : ∀ (i : Fin numSyscalls) (n : Nat),
    lastNumber packets (keyOfCall sysc (packets.length + i)) = some n → n = i

theorem lastNumber_lt (h : lastNumber packets name = some n) : n < syscallMaxcalls := by
  obtain ⟨p, -, hp⟩ := List.exists_of_findSome?_eq_some h
  by_cases hname : p.syscallName = name
  · rw [if_pos hname] at hp
    exact Option.some.inj hp ▸ p.no.2
  · rw [if_neg hname] at hp
    cases hp

/-- The initialization does what it should exactly if the schedule and the fresh memory fit. -/
theorem initializesWell_iff (junk : Nat → UInt32) (heap : Nat → UInt8) (syscalls : Fin numSyscalls → UInt32)
    (packets : Schedule) :
    (∃ st, InitializesWell junk heap syscalls packets.1 st) ↔ ScheduleFits junk syscalls packets.1 := by
  obtain ⟨st, hrun, hst⟩ := exists_initialized junk heap syscalls packets
  have hlow : ∀ i : Fin numSyscalls, wordsAfter (wordsAfter (cleared junk) packets.1)
      (defaultPackets syscalls packets.1.length (List.finRange numSyscalls)) i = syscalls i := by
    intro i
    rw [wordsAfter, lastAddress_defaults i.2]
    rfl
  have hhigh : ∀ n, numSyscalls ≤ n → wordsAfter (wordsAfter (cleared junk) packets.1)
      (defaultPackets syscalls packets.1.length (List.finRange numSyscalls)) n =
        (lastAddress packets.1 n).getD (junk n) := by
    intro n hn
    have hcleared : cleared junk n = junk n := if_neg (by rw [numSyscalls] at hn; omega)
    rw [wordsAfter, lastAddress_defaults_none hn, Option.getD_none, wordsAfter, hcleared]
  constructor
  · intro ⟨st', hwell⟩
    have hsame : st' = st := Except.ok.inj (hwell.run.symm.trans hrun)
    rw [hsame] at hwell
    constructor
    · intro i a ha
      have hi : i.1 < syscallMaxcalls := Nat.lt_trans i.2 (by decide)
      have hword := (hst.getElem? hi).symm.trans (hwell.vector i hi)
      rw [hlow, entryFor, ha, Option.some.injEq] at hword
      exact hword.symm
    · intro n hn hlt hnone
      have hword := (hst.getElem? hlt).symm.trans (hwell.vector n hlt)
      rw [hhigh n hn, entryFor, hnone, Option.some.injEq, dif_neg (Nat.not_lt.mpr hn)] at hword
      exact hword
    · intro i n hn
      have hkey := denotes_name (keyOfCall sysc (packets.1.length + i))
      have hnumber := (hst.runS hkey).symm.trans (hwell.names _ _ n hkey hn).1
      rw [numbersAfter, lastNumber_defaults, Except.ok.injEq, Option.some_or, Option.some.injEq] at hnumber
      exact hnumber.symm
  · intro hfits
    have hwords : ∀ n < syscallMaxcalls, wordsAfter (wordsAfter (cleared junk) packets.1)
        (defaultPackets syscalls packets.1.length (List.finRange numSyscalls)) n = entryFor syscalls packets.1 n := by
      intro n hn
      by_cases hlt : n < numSyscalls
      · have hword := hlow ⟨n, hlt⟩
        rw [hword, entryFor, dif_pos hlt]
        cases ha : lastAddress packets.1 n with
        | none => rfl
        | some a => exact (hfits.defaults ⟨n, hlt⟩ a ha).symm
      · rw [hhigh n (Nat.le_of_not_lt hlt), entryFor, dif_neg hlt]
        cases ha : lastAddress packets.1 n with
        | none => exact hfits.fresh n (Nat.le_of_not_lt hlt) hn ha
        | some a => rfl
    refine ⟨st, hrun, fun n hn => by rw [hst.getElem? hn, hwords n hn], fun key name n hkey hn => ?_⟩
    have hno := lastNumber_lt hn
    rw [hst.runS hkey, hst.handler hno, hwords n hno]
    refine ⟨?_, rfl⟩
    by_cases hmade : ∃ i : Fin numSyscalls, keyOfCall sysc (packets.1.length + i) = name
    · obtain ⟨i, rfl⟩ := hmade
      rw [numbersAfter, lastNumber_defaults, hfits.names i n hn]
      rfl
    · rw [numbersAfter, lastNumber_defaults_none fun i hi => hmade ⟨i, hi⟩, numbersAfter, hn]
      rfl

/-- No system call is scheduled, and the memory holds 1 where the vector's word 100 is. -/
theorem not_initializesWell_junk :
    ¬ ∃ st, InitializesWell (fun n => if n = 100 then 1 else 0) (fun _ => 0) (fun _ => 0) [] st := by
  intro ⟨st', hwell⟩
  obtain ⟨st, hrun, hst⟩ := exists_initialized (fun n => if n = 100 then 1 else 0) (fun _ => 0) (fun _ => 0)
    ⟨[], by decide⟩
  have hsame : st' = st := Except.ok.inj (hwell.run.symm.trans hrun)
  rw [hsame] at hwell
  have hword := (hst.getElem? (n := 100) (by decide)).symm.trans (hwell.vector 100 (by decide))
  rw [wordsAfter, lastAddress_defaults_none (by decide)] at hword
  exact absurd hword (by decide)

end Initialize

end KernelTest.Boot
