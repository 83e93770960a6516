import KernelTest.Boot.Syscalls

/-!
# Installing and uninstalling system calls

Beside the vector of system calls there are a map from names to numbers and a counter, which is also the next free
number. `syscall_uninstall` looks at the first entry of the vector alone, and for its name it compares the numbers
in the map with the address.
-/

namespace KernelTest.Boot

open Libc

inductive SyscallCall
  /-- `syscall_install_s(name, no, addr)` -/
  | installS (name : CText) (no : Fin syscallMaxcalls) (addr : UInt32)
  /-- `syscall_install_s(name, addr)` -/
  | installNext (name : CText) (addr : UInt32)
  /-- `syscall_install_n(no, addr)` -/
  | installN (no : Fin syscallMaxcalls) (addr : UInt32)
  /-- `syscall_install_p(addr)` -/
  | installP (addr : UInt32)
  /-- `syscall_uninstall(addr)` -/
  | uninstall (addr : UInt32)

/-- The loop of `syscall_uninstall` over the vector: its first round ends it. -/
def uninstallEntry (addr : UInt32) (vector : List UInt32) : List UInt32 :=
  if vector[0]? = some addr then vector.set 0 0 else vector

/-- The loop of `syscall_uninstall` over the names: the number is compared with the address and taken for a key;
`text a` is the string at the address `a`. -/
def uninstallName (text : UInt32 → Block) (addr : UInt32) (hash : Hashmap Block) :
    List Block → Except Fault (Hashmap Block)
  | [] => pure hash
  | key :: keys => do
    let addrPtr ← hashmapGet hash key
    if addrPtr = addr.toNat then do
      let (_, hash) ← hashmapRemove hash (text addr)
      pure hash
    else uninstallName text addr hash keys

/-- `syscall_uninstall(addr)` -/
def syscallUninstall (text : UInt32 → Block) (st : Syscalls) (addr : UInt32) : Except Fault Syscalls := do
  let keys ← hashmapKeys st.hash
  let hash ← uninstallName text addr st.hash keys
  pure ⟨uninstallEntry addr st.vector, hash, sub32 st.count 1⟩

def SyscallCall.run (heap : Nat → UInt8) (text : UInt32 → Block) (st : Syscalls) : SyscallCall → Except Fault Syscalls
  | installS name no addr => syscallInstallS st (name.1 ++ [0]) no addr
  | installNext name addr => syscallInstallS st (name.1 ++ [0]) st.count addr
  | installN no addr => syscallInstallN heap st no addr
  | installP addr => syscallInstallN heap st st.count addr
  | uninstall addr => syscallUninstall text st addr

/-- The table before any call; `junk` are the words of the fresh vector. -/
def syscallsStart (junk : Nat → UInt32) (heap : Nat → UInt8) : Syscalls :=
  ⟨clearBytes ((List.range syscallMaxcalls).map junk) syscallMaxcalls, hashmapCreate heap syscallMaxcalls, 0⟩

/-- The counter is the number of live entries, and a name has the number of a live entry. -/
structure TableHolds (st : Syscalls) : Prop where
  count : st.count = st.vector.countP (· ≠ 0)
  names : ∀ key name, DenotesText key name → ∃ r, syscallRunS st key = .ok r ∧
    ∀ n, r = some n → ∃ a, st.vector[n]? = some a ∧ a ≠ 0

/-- An address is installed under a number and a name, and nothing else changes. -/
structure Installed (st : Syscalls) (name : CText) (no : Nat) (addr : UInt32) (st' : Syscalls) : Prop where
  vector : st'.vector = st.vector.set no addr
  names : ∀ key a, DenotesText key a → syscallRunS st' key = if a = name then .ok (some no) else syscallRunS st key

/-- The entries that hold an address are removed with their names, and nothing else changes. -/
structure Uninstalled (st : Syscalls) (addr : UInt32) (st' : Syscalls) : Prop where
  vector : st'.vector = st.vector.map fun a => if a = addr then 0 else a
  names : ∀ key name n, DenotesText key name → (syscallRunS st' key = .ok (some n) ↔
    syscallRunS st key = .ok (some n) ∧ st.vector[n]? ≠ some addr)

/-- A call does what it should; without a number it finds a free one. -/
def SyscallCall.Works (heap : Nat → UInt8) (text : UInt32 → Block) (st : Syscalls) (call : SyscallCall) : Prop :=
  ∃ st', call.run heap text st = .ok st' ∧ TableHolds st' ∧
    match call with
    | installS name no addr => Installed st name no addr st'
    | installNext name addr => st.vector[st.count]? = some 0 ∧ Installed st name st.count addr st'
    | installN no addr => Installed st (keyOfCall sysc st.count) no addr st'
    | installP addr => st.vector[st.count]? = some 0 ∧ Installed st (keyOfCall sysc st.count) st.count addr st'
    | uninstall addr => Uninstalled st addr st'

/-- The entry for the number is free and the address is not null; what is uninstalled is the first entry, no other
one holds its address, and no name has its number or a number equal to its address. -/
def SyscallCall.Careful (st : Syscalls) : SyscallCall → Prop
  | installS _ no addr | installN no addr => st.vector[no.1]? = some 0 ∧ addr ≠ 0
  | installNext _ addr | installP addr => st.vector[st.count]? = some 0 ∧ addr ≠ 0
  | uninstall addr => addr ≠ 0 ∧ st.vector[0]? = some addr ∧ (∀ n, 0 < n → st.vector[n]? ≠ some addr) ∧
    ∀ key name n, DenotesText key name → syscallRunS st key = .ok (some n) → n ≠ 0 ∧ n ≠ addr.toNat

inductive CarefulRun (heap : Nat → UInt8) (text : UInt32 → Block) (start : Syscalls) : Syscalls → Prop
  | start : CarefulRun heap text start start
  | call {st st' : Syscalls} {call : SyscallCall} : CarefulRun heap text start st → call.Careful st →
      call.run heap text st = .ok st' → CarefulRun heap text start st'

section Table

variable {heap : Nat → UInt8} {text : UInt32 → Block} {st : Syscalls} {v : Nat → UInt32} {m : CText → Option Nat}
  {k no : Nat} {addr : UInt32} {key : Block} {name : CText}

structure LiveTable (heap : Nat → UInt8) (st : Syscalls) (v : Nat → UInt32) (m : CText → Option Nat) : Prop where
  shows : Shows heap st v m (((List.range syscallMaxcalls).map v).countP (· ≠ 0))
  live : ∀ name n, m name = some n → n < syscallMaxcalls ∧ v n ≠ 0

theorem LiveTable.holds (h : LiveTable heap st v m) : TableHolds st := by
  constructor
  · rw [h.shows.vector]
    exact h.shows.count
  · intro key name hkey
    refine ⟨m name, h.shows.runS hkey, fun n hn => ?_⟩
    obtain ⟨hlt, hlive⟩ := h.live name n hn
    exact ⟨v n, h.shows.getElem? hlt, hlive⟩

theorem liveCount_le (v : Nat → UInt32) : ((List.range syscallMaxcalls).map v).countP (· ≠ 0) ≤ 128 := by
  refine Nat.le_trans List.countP_le_length ?_
  rw [List.length_map, List.length_range]
  exact Nat.le_refl 128

theorem countP_update (hno : no < syscallMaxcalls) (hfree : v no = 0) (haddr : addr ≠ 0) :
    ((List.range syscallMaxcalls).map (Function.update v no addr)).countP (· ≠ 0) =
      ((List.range syscallMaxcalls).map v).countP (· ≠ 0) + 1 := by
  have hlen : no < ((List.range syscallMaxcalls).map v).length := by simpa using hno
  rw [← map_range_set, List.countP_set hlen]
  simp [hfree, haddr]

theorem countP_clear (hno : no < syscallMaxcalls) (hlive : v no ≠ 0) :
    ((List.range syscallMaxcalls).map (Function.update v no 0)).countP (· ≠ 0) + 1 =
      ((List.range syscallMaxcalls).map v).countP (· ≠ 0) := by
  have hback := @countP_update (Function.update v no 0) no (v no) hno (Function.update_self ..) hlive
  rw [Function.update_idem, Function.update_eq_self] at hback
  exact hback.symm

theorem LiveTable.install (h : LiveTable heap st v m) (hkey : DenotesText key name)
    (hfree : st.vector[no]? = some 0) (haddr : addr ≠ 0) : ∃ st', syscallInstallS st key no addr = .ok st' ∧
      TableHolds st' ∧ Installed st name no addr st' ∧
      LiveTable heap st' (Function.update v no addr) (Function.update m name (some no)) := by
  have hno : no < syscallMaxcalls := by
    obtain ⟨hlt, -⟩ := List.getElem?_eq_some_iff.mp hfree
    rw [h.shows.vector] at hlt
    simpa using hlt
  have hzero : v no = 0 := by
    rw [h.shows.getElem? hno, Option.some.injEq] at hfree
    exact hfree
  have hcount := liveCount_le v
  obtain ⟨st', hrun, hst'⟩ := h.shows.installS (by omega) hkey hno addr
  rw [← countP_update hno hzero haddr] at hst'
  have htable : LiveTable heap st' (Function.update v no addr) (Function.update m name (some no)) := by
    refine ⟨hst', fun a n hn => ?_⟩
    by_cases hsame : n = no
    · rw [hsame, Function.update_self]
      exact ⟨hno, haddr⟩
    · by_cases ha : a = name
      · rw [ha, Function.update_self, Option.some.injEq] at hn
        exact absurd hn.symm hsame
      · rw [Function.update_of_ne ha] at hn
        rw [Function.update_of_ne hsame]
        exact h.live a n hn
  refine ⟨st', hrun, htable.holds, ⟨?_, ?_⟩, htable⟩
  · rw [hst'.vector, h.shows.vector, map_range_set]
  · intro key' a hkey'
    rw [hst'.runS hkey', h.shows.runS hkey', Function.update_apply]
    split <;> rfl

theorem LiveTable.installN (h : LiveTable heap st v m) (hfree : st.vector[no]? = some 0) (haddr : addr ≠ 0) :
    ∃ st', syscallInstallN heap st no addr = .ok st' ∧ TableHolds st' ∧
      Installed st (keyOfCall sysc st.count) no addr st' ∧
      LiveTable heap st' (Function.update v no addr) (Function.update m (keyOfCall sysc st.count) (some no)) := by
  have hcount := liveCount_le v
  rw [← h.shows.count] at hcount
  have hfits : (keyText sysc.1 st.count).length < 16 := length_keyText_sysc (Nat.lt_of_le_of_lt hcount (by decide))
  have hkey : DenotesText (keyText sysc.1 st.count ++ 0 :: (malloc heap 16).drop ((keyText sysc.1 st.count).length + 1))
      (keyOfCall sysc st.count) := denotes_sprintf (keyOfCall sysc st.count)
  rw [syscallInstallN, sprintf_eq heap hfits, Exec.ok_bind]
  exact h.install hkey hfree haddr

theorem uninstallName_eq (hshows : Shows heap st v m k) {keys : List Block} {names : List CText}
    (hkeys : List.Forall₂ DenotesText keys names) (hsome : ∀ a ∈ names, (m a).isSome)
    (hne : ∀ a n, m a = some n → n ≠ addr.toNat) : uninstallName text addr st.hash keys = .ok st.hash := by
  obtain ⟨t, ht, hm⟩ := hshows.numbers
  induction hkeys with
  | nil => rfl
  | @cons key a keys names hkey _ ih =>
    obtain ⟨n, hn⟩ := Option.isSome_iff_exists.mp (hsome a List.mem_cons_self)
    have hget : hashmapGet st.hash key = .ok n := by
      rw [ht.get (stringFuncs_lawful heap) hkey, hm, hn]
      rfl
    rw [uninstallName, hget, Exec.ok_bind, if_neg (hne a n hn)]
    exact ih fun b hb => hsome b (List.mem_cons_of_mem a hb)

theorem LiveTable.uninstall (h : LiveTable heap st v m) (haddr : addr ≠ 0) (hfirst : v 0 = addr)
    (hothers : ∀ n < syscallMaxcalls, 0 < n → v n ≠ addr) (hnames : ∀ a n, m a = some n → n ≠ 0 ∧ n ≠ addr.toNat) :
    ∃ st', syscallUninstall text st addr = .ok st' ∧ TableHolds st' ∧ Uninstalled st addr st' ∧
      LiveTable heap st' (Function.update v 0 0) m := by
  obtain ⟨t, ht, hm⟩ := h.shows.numbers
  obtain ⟨keys, names, -, hpresent, hkeys, hdenote, -⟩ := (ht.holds (stringFuncs_lawful heap)).listed
  rw [hm] at hpresent
  have hzero : st.vector[0]? = some addr := hfirst ▸ h.shows.getElem? (by decide)
  have hcleared := @countP_clear v 0 (by decide) (hfirst ▸ haddr)
  have hcount := liveCount_le v
  have hdown : sub32 st.count 1 = ((List.range syscallMaxcalls).map (Function.update v 0 0)).countP (· ≠ 0) := by
    rw [h.shows.count, sub32_of_le (by omega) (by omega)]
    omega
  have htable : LiveTable heap ⟨st.vector.set 0 0, st.hash, sub32 st.count 1⟩ (Function.update v 0 0) m := by
    refine ⟨⟨?_, h.shows.numbers, hdown⟩, fun a n hn => ?_⟩
    · rw [h.shows.vector, map_range_set]
    · obtain ⟨hlt, hlive⟩ := h.live a n hn
      rw [Function.update_of_ne (hnames a n hn).1]
      exact ⟨hlt, hlive⟩
  refine ⟨_, ?_, htable.holds, ⟨?_, ?_⟩, htable⟩
  · rw [syscallUninstall, hkeys, Exec.ok_bind,
      uninstallName_eq h.shows hdenote (fun a ha => (hpresent a).mp ha) fun a n hn => (hnames a n hn).2, Exec.ok_bind,
      uninstallEntry, if_pos hzero]
    rfl
  · rw [h.shows.vector, map_range_set, List.map_map]
    apply List.map_congr_left
    intro n hn
    have hlt := List.mem_range.mp hn
    by_cases hpos : n = 0
    · rw [hpos, Function.update_self]
      exact (if_pos hfirst).symm
    · rw [Function.update_of_ne hpos]
      exact (if_neg (hothers n hlt (Nat.pos_of_ne_zero hpos))).symm
  · intro key name n hkey
    rw [htable.shows.runS hkey, h.shows.runS hkey]
    refine ⟨fun hn => ⟨hn, ?_⟩, fun hn => hn.1⟩
    rw [Except.ok.injEq] at hn
    obtain ⟨hlt, -⟩ := h.live name n hn
    rw [h.shows.getElem? hlt]
    exact fun heq => hothers n hlt (Nat.pos_of_ne_zero (hnames name n hn).1) (Option.some.inj heq)

theorem LiveTable.works {call : SyscallCall} (h : LiveTable heap st v m) (hcall : call.Careful st) :
    call.Works heap text st ∧ ∀ st', call.run heap text st = .ok st' → ∃ v m, LiveTable heap st' v m := by
  have hnext : ∀ {st₁ v₁ m₁}, call.run heap text st = .ok st₁ → LiveTable heap st₁ v₁ m₁ →
      ∀ st', call.run heap text st = .ok st' → ∃ v m, LiveTable heap st' v m := by
    intro st₁ v₁ m₁ hrun htable st' hrun'
    rw [hrun, Except.ok.injEq] at hrun'
    exact ⟨v₁, m₁, hrun' ▸ htable⟩
  cases call with
  | installS name no addr =>
    obtain ⟨st', hrun, hholds, hinstalled, htable⟩ := h.install (denotes_name name) hcall.1 hcall.2
    exact ⟨⟨st', hrun, hholds, hinstalled⟩, hnext hrun htable⟩
  | installNext name addr =>
    obtain ⟨st', hrun, hholds, hinstalled, htable⟩ := h.install (denotes_name name) hcall.1 hcall.2
    exact ⟨⟨st', hrun, hholds, hcall.1, hinstalled⟩, hnext hrun htable⟩
  | installN no addr =>
    obtain ⟨st', hrun, hholds, hinstalled, htable⟩ := h.installN hcall.1 hcall.2
    exact ⟨⟨st', hrun, hholds, hinstalled⟩, hnext hrun htable⟩
  | installP addr =>
    obtain ⟨st', hrun, hholds, hinstalled, htable⟩ := h.installN hcall.1 hcall.2
    exact ⟨⟨st', hrun, hholds, hcall.1, hinstalled⟩, hnext hrun htable⟩
  | uninstall addr =>
    obtain ⟨haddr, hfirst, hothers, hnames⟩ := hcall
    have hfirst' : v 0 = addr := by
      rw [h.shows.getElem? (by decide), Option.some.injEq] at hfirst
      exact hfirst
    have hothers' : ∀ n < syscallMaxcalls, 0 < n → v n ≠ addr := by
      intro n hn hpos heq
      exact hothers n hpos (heq ▸ h.shows.getElem? hn)
    have hnames' : ∀ a n, m a = some n → n ≠ 0 ∧ n ≠ addr.toNat := by
      intro a n hn
      exact hnames _ a n (denotes_name a) (by rw [h.shows.runS (denotes_name a), hn])
    obtain ⟨st', hrun, hholds, huninstalled, htable⟩ := h.uninstall haddr hfirst' hothers' hnames'
    exact ⟨⟨st', hrun, hholds, huninstalled⟩, hnext hrun htable⟩

theorem liveTable_start {junk : Nat → UInt32} (hjunk : ∀ n, 32 ≤ n → n < syscallMaxcalls → junk n = 0) :
    LiveTable heap (syscallsStart junk heap) (fun _ => 0) fun _ => none := by
  have hmap := represents_create heap (fun a : CText => a.1 ++ [0]) textHash (show 0 < syscallMaxcalls by decide)
    (by decide)
  refine ⟨⟨?_, ⟨List.replicate syscallMaxcalls [], hmap, funext fun a => HashTable.find_empty _ a⟩, rfl⟩, ?_⟩
  · rw [syscallsStart, clearBytes_eq]
    apply List.map_congr_left
    intro n hn
    rw [cleared]
    by_cases hlt : n < 32
    · rw [if_pos hlt]
    · rw [if_neg hlt]
      exact hjunk n (Nat.le_of_not_lt hlt) (List.mem_range.mp hn)
  · intro name n hn
    cases hn

/-- In every run of careful calls, from a fresh vector that is all zero, the table is consistent, and the next
careful call does what it should. -/
theorem syscallTable_of_run {junk : Nat → UInt32} (hjunk : ∀ n, 32 ≤ n → n < syscallMaxcalls → junk n = 0)
    (hrun : CarefulRun heap text (syscallsStart junk heap) st) :
    TableHolds st ∧ ∀ call : SyscallCall, call.Careful st → call.Works heap text st := by
  suffices h : ∃ v m, LiveTable heap st v m by
    obtain ⟨v, m, htable⟩ := h
    exact ⟨htable.holds, fun call hcall => (htable.works hcall).1⟩
  induction hrun with
  | start => exact ⟨_, _, liveTable_start hjunk⟩
  | call _ hcall hcallRun ih =>
    obtain ⟨v, m, htable⟩ := ih
    exact (htable.works hcall).2 _ hcallRun

/-- After an address is installed as the first system call. -/
theorem syscallTable_of_run_first : ∃ st, st.vector[0]? = some 7 ∧ TableHolds st ∧
    ∀ call : SyscallCall, call.Careful st → call.Works (fun _ => 0) (fun _ => []) st := by
  have htable := @liveTable_start (fun _ => 0) (fun _ => 0) (fun _ _ _ => rfl)
  have hcall : (SyscallCall.installP 7).Careful (syscallsStart (fun _ => 0) fun _ => 0) :=
    ⟨htable.shows.getElem? (by decide), by decide⟩
  obtain ⟨st, hrun, -, -, hinstalled⟩ := (@LiveTable.works _ (fun _ => []) _ _ _ _ htable hcall).1
  have hfirst : st.vector[0]? = some 7 := by
    rw [hinstalled.vector]
    rfl
  exact ⟨st, hfirst, syscallTable_of_run (fun _ _ _ => rfl) (.call .start hcall hrun)⟩

/-- Nothing is installed, and the counter is decremented. -/
theorem not_works_uninstall :
    ¬ (SyscallCall.uninstall 7).Works (fun _ => 0) (fun _ => []) (syscallsStart (fun _ => 0) fun _ => 0) := by
  intro ⟨st', hrun, hholds, _⟩
  change syscallUninstall _ _ _ = _ at hrun
  rw [syscallUninstall] at hrun
  obtain ⟨keys, -, hrun⟩ := Exec.of_bind_eq_ok hrun
  obtain ⟨hash, -, hrun⟩ := Exec.of_bind_eq_ok hrun
  cases hrun
  have hcount : sub32 0 1 = (uninstallEntry 7 (syscallsStart (fun _ => 0) fun _ => 0).vector).countP (· ≠ 0) :=
    hholds.count
  exact absurd hcount (by decide)

end Table

end KernelTest.Boot
