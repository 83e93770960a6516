import KernelTest.Boot.Args
import KernelTest.Libc.HashmapRemoval
import KernelTest.Libc.Split

/-!
# The callbacks of the timer

The timer keeps the names of its services in an array, with the next free place and a count, and their addresses
in a hash map. `pit_handler` takes the count for the length of a prefix of the array without holes.
-/

namespace KernelTest.Drivers

open Libc
open Boot (textHash)

/-- `PIT_CALLBACK_SERVICE_MAX` -/
def pitCallbackServiceMax : Nat := 16

/-- `IOCTL_NULL` -/
def ioctlNull : Nat := 2 ^ 32 - 1

/-- `services_names`, a null pointer or a block each, `next_available_service`, `pit_cback_count` and
`pit_cbacks`. -/
structure PitServices where
  names : List (Option Block)
  nextAvailable : Nat
  count : Nat
  cbacks : Hashmap Block

namespace PitServices

/-- What is behind `services_names[i]`. -/
def serviceName (st : PitServices) (i : Nat) : Except Fault Block :=
  match st.names[i]? with
  | some (some name) => .ok name
  | _ => .error .overrun

/-- So many rounds of the loop of `pit_handler`, from `i` on: the addresses that are called. -/
def callServices (st : PitServices) : Nat → Nat → Except Fault (List Nat)
  | _, 0 => pure []
  | i, rounds + 1 => do
    let name ← st.serviceName i
    let addr ← hashmapGet st.cbacks name
    let called ← callServices st (i + 1) rounds
    pure (if addr = 0 then called else addr :: called)

/-- The part of `pit_handler` that calls the services. -/
def pitHandler (st : PitServices) (servicing : Bool) : Except Fault (List Nat) :=
  if servicing then st.callServices 0 st.count else pure []

/-- The loop that looks for the next available service. -/
def nextService (names : List (Option Block)) (nextAvailable : Nat) : Nat :=
  ((List.range pitCallbackServiceMax).find? fun i => names[i]? = some none).getD nextAvailable

/-- `pit_install_cback(func_name, address)` -/
def pitInstallCback (heap : Nat → UInt8) (st : PitServices) (funcName : Block) (address : Nat) :
    Except Fault (Nat × PitServices) := do
  let has ← hashmapHas st.cbacks funcName
  if has ∨ st.count ≥ pitCallbackServiceMax then pure (ioctlNull, st)
  else do
    let (ret, cbacks) ← hashmapSet st.cbacks funcName address
    let n ← strlen funcName
    if st.nextAvailable < st.names.length then do
      let name ← copyString (malloc heap (n + 1)) 0 funcName
      let names := st.names.set st.nextAvailable (some name)
      pure (ret, ⟨names, nextService names st.nextAvailable, st.count + 1, cbacks⟩)
    else throw .overrun

/-- So many rounds of the loop of `pit_uninstall_cback`, from `i` on: where the name is. -/
def findService (st : PitServices) (funcName : Block) : Nat → Nat → Except Fault (Option Nat)
  | _, 0 => pure none
  | i, rounds + 1 => do
    let name ← st.serviceName i
    let d ← strcmp name funcName
    if d = 0 then pure (some i) else findService st funcName (i + 1) rounds

/-- `pit_uninstall_cback(func_name)` -/
def pitUninstallCback (st : PitServices) (funcName : Block) : Except Fault (Nat × PitServices) :=
  if st.count = 0 then pure (ioctlNull, st)
  else do
    let found ← st.findService funcName 0 st.count
    let (ret, cbacks) ← hashmapRemove st.cbacks funcName
    match found with
    | none => pure (ret, { st with cbacks := cbacks })
    | some i => pure (ret, ⟨st.names.set i none, i, st.count - 1, cbacks⟩)

/-- The services that `pit_init` leaves. -/
def start (heap : Nat → UInt8) : PitServices :=
  ⟨List.replicate pitCallbackServiceMax none, 0, 0, hashmapCreate heap pitCallbackServiceMax⟩

end PitServices

/-- The calls that install and uninstall callbacks. -/
inductive PitCall
  | install (name : CText) (address : Nat)
  | uninstall (name : CText)

def PitCall.run (heap : Nat → UInt8) (st : PitServices) : PitCall → Except Fault (Nat × PitServices)
  | install name address => st.pitInstallCback heap (name.1 ++ [0]) address
  | uninstall name => st.pitUninstallCback (name.1 ++ [0])

/-- The callbacks that are installed, in order. -/
abbrev Installed : Type := List (CText × Nat)

/-- An installation under a known name or beyond the maximum is refused. -/
def Installed.Refuses (l : Installed) (name : CText) : Prop := name ∈ l.map Prod.fst ∨ pitCallbackServiceMax ≤ l.length

instance (l : Installed) (name : CText) : Decidable (l.Refuses name) := inferInstanceAs (Decidable (_ ∨ _))

/-- What a call should do to the installed callbacks. -/
def PitCall.apply (l : Installed) : PitCall → Installed
  | install name address => if l.Refuses name then l else l ++ [(name, address)]
  | uninstall name => l.filter (·.1 ≠ name)

/-- A tick calls each installed callback once and nothing else, and faults nowhere; the count is right, and a
refused installation changes nothing. -/
structure PitServices.Serves (heap : Nat → UInt8) (st : PitServices) (l : Installed) : Prop where
  tick : ∃ called, st.pitHandler true = .ok called ∧ called.Perm ((l.map Prod.snd).filter (· ≠ 0))
  count : st.count = l.length
  refused : ∀ name address, l.Refuses name →
    st.pitInstallCback heap (name.1 ++ [0]) address = .ok (ioctlNull, st)

/-- What is uninstalled is the callback installed last, or there is none with the name and its bucket in the map
does not have one entry. -/
def PitCall.Careful (st : PitServices) (l : Installed) : PitCall → Prop
  | install _ _ => True
  | uninstall name => (∃ address, l.getLast? = some (name, address)) ∨
      name ∉ l.map Prod.fst ∧
        ¬ ∃ i x, st.cbacks.bucket (name.1 ++ [0]) = .ok i ∧ st.cbacks.slot i = .ok [x]

/-- The services that allowed calls lead to, with the installed callbacks. -/
inductive PitRun (heap : Nat → UInt8) (allowed : PitServices → Installed → PitCall → Prop) :
    PitServices → Installed → Prop
  | start : PitRun heap allowed (PitServices.start heap) []
  | call {st st' : PitServices} {l : Installed} {call : PitCall} {ret : Nat} : PitRun heap allowed st l →
      allowed st l call → call.run heap st = .ok (ret, st') → PitRun heap allowed st' (call.apply l)

namespace PitServices

variable {heap : Nat → UInt8} {st : PitServices} {l done rest : Installed} {name : CText} {address k : Nat}

def nameText (e : CText × Nat) : Block := e.1.1 ++ [0]

/-- What the reached services are like: the names of the installed callbacks, in order and without holes. -/
structure InOrder (heap : Nat → UInt8) (st : PitServices) (l : Installed) : Prop where
  names : ∀ i < pitCallbackServiceMax, st.names[i]? = some (l[i]?.map nameText)
  next : st.nextAvailable = min l.length 15
  count : st.count = l.length
  room : l.length ≤ pitCallbackServiceMax
  nodup : (l.map Prod.fst).Nodup
  cbacks : ∃ t, st.cbacks.Represents (stringFuncs heap) (fun a : CText => a.1 ++ [0]) textHash t ∧
    ∀ name address, HashTable.find textHash t name = some address ↔ (name, address) ∈ l

theorem denotes_nameText (e : CText × Nat) : DenotesText (nameText e) e.1 := cString_terminated e.1.2

theorem InOrder.serviceName (h : InOrder heap st l) {i : Nat} {e : CText × Nat} (hi : l[i]? = some e) :
    st.serviceName i = .ok (nameText e) := by
  have hlt : i < pitCallbackServiceMax := by
    obtain ⟨hlt, -⟩ := List.getElem?_eq_some_iff.mp hi
    exact Nat.lt_of_lt_of_le hlt h.room
  rw [PitServices.serviceName, h.names i hlt, hi]
  rfl

theorem InOrder.hashmapHas (h : InOrder heap st l) (name : CText) :
    hashmapHas st.cbacks (name.1 ++ [0]) = .ok (decide (name ∈ l.map Prod.fst)) := by
  obtain ⟨t, ht, hfind⟩ := h.cbacks
  rw [ht.has (stringFuncs_lawful heap) (cString_terminated name.2), Except.ok.injEq, Bool.eq_iff_iff,
    decide_eq_true_iff, Option.isSome_iff_exists, List.mem_map]
  constructor
  · intro ⟨address, ha⟩
    exact ⟨(name, address), (hfind name address).mp ha, rfl⟩
  · intro ⟨e, he, hname⟩
    exact ⟨e.2, (hfind name e.2).mpr (hname ▸ he)⟩

theorem InOrder.callServices (h : InOrder heap st (done ++ rest)) :
    st.callServices done.length rest.length = .ok ((rest.map Prod.snd).filter (· ≠ 0)) := by
  induction rest generalizing done with
  | nil => rfl
  | cons e rest ih =>
    have hname : st.serviceName done.length = .ok (nameText e) := by
      apply h.serviceName
      rw [List.getElem?_append_right (Nat.le_refl _), Nat.sub_self]
      rfl
    have haddr : hashmapGet st.cbacks (nameText e) = .ok e.2 := by
      obtain ⟨t, ht, hfind⟩ := h.cbacks
      have he : HashTable.find textHash t e.1 = some e.2 := (hfind e.1 e.2).mpr (by simp)
      rw [ht.get (stringFuncs_lawful heap) (denotes_nameText e), he]
      rfl
    have hnext : InOrder heap st ((done ++ [e]) ++ rest) := by
      rw [List.append_assoc]
      exact h
    have hcalled := ih hnext
    rw [List.length_append] at hcalled
    rw [List.length_cons, PitServices.callServices, hname, Exec.ok_bind, haddr, Exec.ok_bind]
    change (st.callServices (done.length + [e].length) rest.length >>= _) = _
    rw [hcalled, Exec.ok_bind]
    by_cases hzero : e.2 = 0
    · rw [if_pos hzero, List.map_cons, List.filter_cons_of_neg (by simpa using hzero)]
      rfl
    · rw [if_neg hzero, List.map_cons, List.filter_cons_of_pos (by simpa using hzero)]
      rfl

theorem InOrder.refused (h : InOrder heap st l) (address : Nat) (hname : l.Refuses name) :
    st.pitInstallCback heap (name.1 ++ [0]) address = .ok (ioctlNull, st) := by
  have hcond : decide (name ∈ l.map Prod.fst) = true ∨ st.count ≥ pitCallbackServiceMax := by
    rw [decide_eq_true_iff, h.count]
    exact hname
  rw [pitInstallCback, h.hashmapHas name, Exec.ok_bind, if_pos hcond]
  rfl

theorem InOrder.serves (h : InOrder heap st l) : st.Serves heap l := by
  refine ⟨⟨_, ?_, .refl _⟩, h.count, fun name address hname => h.refused address hname⟩
  rw [pitHandler, if_pos rfl, h.count]
  exact @InOrder.callServices heap st [] l h

theorem nextService_eq {names : List (Option Block)} (hnames : ∀ i < pitCallbackServiceMax,
    names[i]? = some (l[i]?.map nameText)) (hroom : l.length ≤ pitCallbackServiceMax) (next : Nat) :
    nextService names next = if l.length < pitCallbackServiceMax then l.length else next := by
  have hfree : ∀ i < pitCallbackServiceMax, (names[i]? = some none ↔ l.length ≤ i) := by
    intro i hi
    rw [hnames i hi, Option.some.injEq, Option.map_eq_none_iff, List.getElem?_eq_none_iff]
  rw [nextService]
  by_cases hlt : l.length < pitCallbackServiceMax
  · have hfind : (List.range pitCallbackServiceMax).find? (fun i => names[i]? = some none) = some l.length := by
      rw [List.find?_range_eq_some]
      refine ⟨?_, List.mem_range.mpr hlt, ?_⟩
      · simpa using (hfree l.length hlt).mpr (Nat.le_refl _)
      · intro i hi
        simpa using mt (hfree i (Nat.lt_trans hi hlt)).mp (Nat.not_le.mpr hi)
    rw [if_pos hlt, hfind]
    rfl
  · have hfind : (List.range pitCallbackServiceMax).find? (fun i => names[i]? = some none) = none := by
      rw [List.find?_range_eq_none]
      intro i hi
      simpa using mt (hfree i hi).mp (by omega)
    rw [if_neg hlt, hfind]
    rfl

theorem getElem?_concat_of_ne {α : Type} {l : List α} {i : Nat} (h : l.length ≠ i) (a : α) : (l ++ [a])[i]? = l[i]? := by
  by_cases hin : i < l.length
  · rw [List.getElem?_append_left hin]
  · rw [List.getElem?_eq_none (Nat.le_of_not_lt hin), List.getElem?_eq_none (by simp; omega)]

theorem InOrder.install (h : InOrder heap st l) (address : Nat) (hname : ¬ l.Refuses name) :
    ∃ ret st', st.pitInstallCback heap (name.1 ++ [0]) address = .ok (ret, st') ∧
      InOrder heap st' (l ++ [(name, address)]) := by
  obtain ⟨t, ht, hfind⟩ := h.cbacks
  obtain ⟨cbacks, hset, hcbacks⟩ := ht.set (stringFuncs_lawful heap) (cString_terminated name.2) address
  have hnew : name ∉ l.map Prod.fst := fun hmem => hname (.inl hmem)
  have hlt : l.length < pitCallbackServiceMax := Nat.not_le.mp fun hle => hname (.inr hle)
  have hcond : ¬ (decide (name ∈ l.map Prod.fst) = true ∨ st.count ≥ pitCallbackServiceMax) := by
    rw [decide_eq_true_iff, h.count]
    exact hname
  have hnext : st.nextAvailable = l.length := by
    rw [h.next]
    exact Nat.min_eq_left (Nat.le_of_lt_succ hlt)
  have hplace : st.nextAvailable < st.names.length := by
    rw [hnext]
    exact (List.getElem?_eq_some_iff.mp (h.names l.length hlt)).1
  have hcopy : copyString (malloc heap (name.1.length + 1)) 0 (name.1 ++ [0]) = .ok (nameText (name, address)) := by
    have hcopy := copyString_eq name.2 [] (malloc heap (name.1.length + 1)) []
    rw [List.nil_append, length_malloc, if_pos (Nat.le_refl _), List.nil_append,
      List.drop_eq_nil_of_le (Nat.le_of_eq (length_malloc heap _))] at hcopy
    exact hcopy
  have hnames : ∀ i < pitCallbackServiceMax, (st.names.set st.nextAvailable (some (nameText (name, address))))[i]? =
      some ((l ++ [(name, address)])[i]?.map nameText) := by
    intro i hi
    rw [List.getElem?_set, hnext]
    by_cases hlast : l.length = i
    · rw [if_pos hlast, if_pos (hnext ▸ hplace), ← hlast, List.getElem?_concat_length]
      rfl
    · rw [if_neg hlast, h.names i hi, getElem?_concat_of_ne hlast]
  let names := st.names.set st.nextAvailable (some (nameText (name, address)))
  refine ⟨(HashTable.find textHash t name).getD 0, ⟨names, nextService names st.nextAvailable, st.count + 1, cbacks⟩,
    ?_, ⟨hnames, ?_, ?_, ?_, ?_, _, hcbacks, ?_⟩⟩
  · rw [pitInstallCback, h.hashmapHas name, Exec.ok_bind, if_neg hcond, hset, Exec.ok_bind]
    change (strlen _ >>= _) = _
    rw [strlen_eq (cString_terminated name.2), Exec.ok_bind, if_pos hplace, hcopy]
    rfl
  · change nextService _ _ = _
    rw [nextService_eq hnames (by simp; omega), hnext, List.length_append, List.length_singleton]
    unfold pitCallbackServiceMax at *
    split <;> omega
  · change st.count + 1 = _
    rw [h.count, List.length_append, List.length_singleton]
  · rw [List.length_append, List.length_singleton]
    exact hlt
  · rw [List.map_append, List.nodup_append]
    refine ⟨h.nodup, List.nodup_singleton _, ?_⟩
    intro a ha b hb heq
    have hlast : b = name := List.mem_singleton.mp hb
    exact hnew (hlast ▸ heq ▸ ha)
  · intro a v
    rw [HashTable.find_insert ht.pos, Function.update_apply, List.mem_append, List.mem_singleton, Prod.mk.injEq,
      ← hfind a v]
    by_cases ha : a = name
    · have hnone : HashTable.find textHash t a ≠ some v := by
        intro hsome
        exact hnew (ha ▸ List.mem_map_of_mem ((hfind a v).mp hsome))
      rw [if_pos ha, Option.some.injEq]
      exact ⟨fun hv => .inr ⟨ha, hv.symm⟩, fun hv => (hv.resolve_left hnone).2.symm⟩
    · rw [if_neg ha]
      simp [ha]

theorem findService_skip (hnames : ∀ i e, rest[i]? = some e → st.serviceName (k + i) = .ok (nameText e))
    (hname : name ∉ rest.map Prod.fst) (rounds : Nat) : st.findService (name.1 ++ [0]) k (rest.length + rounds) =
      st.findService (name.1 ++ [0]) (k + rest.length) rounds := by
  induction rest generalizing k with
  | nil => rw [List.length_nil, Nat.zero_add, Nat.add_zero]
  | cons e rest ih =>
    have hrest : ∀ i e', rest[i]? = some e' → st.serviceName (k + 1 + i) = .ok (nameText e') := by
      intro i e' hi
      rw [Nat.add_right_comm]
      exact hnames (i + 1) e' hi
    have hfirst : st.serviceName k = .ok (nameText e) := hnames 0 e rfl
    obtain ⟨d, hd, hiff⟩ := strcmp_eq_zero (denotes_nameText e) (cString_terminated name.2)
    have hne : d ≠ 0 := fun hzero => hname (by simp [Subtype.ext (hiff.mp hzero)])
    have hskip := ih hrest fun hmem => hname (List.mem_cons_of_mem _ hmem)
    rw [List.length_cons, Nat.add_right_comm, PitServices.findService, hfirst, Exec.ok_bind, hd, Exec.ok_bind,
      if_neg hne, hskip, Nat.add_assoc, Nat.add_comm 1]

theorem InOrder.notMem_of_last (h : InOrder heap st (l ++ [(name, address)])) : name ∉ l.map Prod.fst := by
  have hnodup := h.nodup
  rw [List.map_append, List.nodup_append] at hnodup
  exact fun hmem => hnodup.2.2 name hmem name (by simp) rfl

theorem filter_unknown (hname : name ∉ l.map Prod.fst) : l.filter (·.1 ≠ name) = l := by
  apply List.filter_eq_self.mpr
  intro e he
  simpa using fun heq : e.1 = name => hname (heq ▸ List.mem_map_of_mem he)

theorem InOrder.filter_last (h : InOrder heap st (l ++ [(name, address)])) :
    (l ++ [(name, address)]).filter (·.1 ≠ name) = l := by
  rw [List.filter_append, filter_unknown h.notMem_of_last]
  simp

theorem InOrder.findService_last (h : InOrder heap st (l ++ [(name, address)])) :
    st.findService (name.1 ++ [0]) 0 (l.length + 1) = .ok (some l.length) := by
  have hnames : ∀ i e, l[i]? = some e → st.serviceName (0 + i) = .ok (nameText e) := by
    intro i e hi
    rw [Nat.zero_add]
    apply h.serviceName
    rw [List.getElem?_append_left (List.getElem?_eq_some_iff.mp hi).1, hi]
  have hlast : st.serviceName l.length = .ok (nameText (name, address)) :=
    h.serviceName (List.getElem?_concat_length ..)
  obtain ⟨d, hd, hiff⟩ := strcmp_eq_zero (denotes_nameText (name, address)) (cString_terminated name.2)
  rw [findService_skip hnames h.notMem_of_last, Nat.zero_add, PitServices.findService, hlast, Exec.ok_bind, hd, Exec.ok_bind,
    if_pos (hiff.mpr rfl)]
  rfl

theorem InOrder.findService_unknown (h : InOrder heap st l) (hname : name ∉ l.map Prod.fst) :
    st.findService (name.1 ++ [0]) 0 l.length = .ok none := by
  have hnames : ∀ i e, l[i]? = some e → st.serviceName (0 + i) = .ok (nameText e) := by
    intro i e hi
    rw [Nat.zero_add]
    exact h.serviceName hi
  exact findService_skip hnames hname 0

theorem InOrder.remove (h : InOrder heap st l) (hlonely : name ∉ l.map Prod.fst →
    ¬ ∃ i x, st.cbacks.bucket (name.1 ++ [0]) = .ok i ∧ st.cbacks.slot i = .ok [x]) :
    ∃ ret cbacks t, hashmapRemove st.cbacks (name.1 ++ [0]) = .ok (ret, cbacks) ∧
      cbacks.Represents (stringFuncs heap) (fun a : CText => a.1 ++ [0]) textHash t ∧
      ∀ a v, HashTable.find textHash t a = some v ↔ (a, v) ∈ l.filter (·.1 ≠ name) := by
  obtain ⟨t, ht, hfind⟩ := h.cbacks
  have hkey : DenotesText (name.1 ++ [0]) name := cString_terminated name.2
  have hlonely' : ¬ (HashTable.find textHash t name = none ∧ (HashTable.bucketOf textHash t name).length = 1) := by
    intro ⟨hnone, hone⟩
    have hnew : name ∉ l.map Prod.fst := by
      intro hmem
      obtain ⟨e, he, rfl⟩ := List.mem_map.mp hmem
      have hsome := (hfind e.1 e.2).mpr he
      rw [hnone] at hsome
      cases hsome
    obtain ⟨e, he⟩ := List.length_eq_one_iff.mp hone
    have hslot := ht.slot_bucketOf name
    rw [he] at hslot
    exact hlonely hnew ⟨_, _, ht.bucket_eq (stringFuncs_lawful heap) hkey, hslot⟩
  obtain ⟨cbacks, hremove, hcbacks⟩ := ht.remove_any (stringFuncs_lawful heap) hkey hlonely'
  refine ⟨_, cbacks, _, hremove, hcbacks, fun a v => ?_⟩
  rw [HashTable.find_erase ht.wellPlaced ht.pos, Function.update_apply, List.mem_filter, ← hfind a v]
  by_cases ha : a = name
  · simp [ha]
  · simp [ha]

theorem InOrder.uninstall_last (h : InOrder heap st (l ++ [(name, address)])) :
    ∃ ret st', st.pitUninstallCback (name.1 ++ [0]) = .ok (ret, st') ∧ InOrder heap st' l := by
  have hmem : name ∈ (l ++ [(name, address)]).map Prod.fst := by simp
  have hcount : st.count = l.length + 1 := by
    rw [h.count, List.length_append, List.length_singleton]
  have hroom : l.length + 1 ≤ pitCallbackServiceMax := by
    have hroom := h.room
    rwa [List.length_append, List.length_singleton] at hroom
  obtain ⟨ret, cbacks, t, hremove, hcbacks, hfind⟩ := h.remove fun hnot => absurd hmem hnot
  rw [h.filter_last] at hfind
  refine ⟨ret, ⟨st.names.set l.length none, l.length, st.count - 1, cbacks⟩, ?_,
    ⟨?_, ?_, ?_, Nat.le_of_succ_le hroom, ?_, t, hcbacks, hfind⟩⟩
  · rw [pitUninstallCback, if_neg (by omega), hcount, h.findService_last, Exec.ok_bind, hremove]
    rfl
  · intro i hi
    have hplace : l.length < st.names.length := (List.getElem?_eq_some_iff.mp (h.names l.length hroom)).1
    change (st.names.set l.length none)[i]? = _
    rw [List.getElem?_set]
    by_cases hlast : l.length = i
    · rw [if_pos hlast, if_pos hplace, ← hlast, List.getElem?_eq_none (Nat.le_refl _)]
      rfl
    · rw [if_neg hlast, h.names i hi, getElem?_concat_of_ne hlast]
  · exact (Nat.min_eq_left (Nat.le_of_succ_le_succ hroom)).symm
  · exact Nat.sub_eq_of_eq_add hcount
  · have hnodup := h.nodup
    rw [List.map_append] at hnodup
    exact hnodup.of_append_left

theorem InOrder.uninstall_unknown (h : InOrder heap st l) (hname : name ∉ l.map Prod.fst)
    (hlonely : ¬ ∃ i x, st.cbacks.bucket (name.1 ++ [0]) = .ok i ∧ st.cbacks.slot i = .ok [x]) :
    ∃ ret st', st.pitUninstallCback (name.1 ++ [0]) = .ok (ret, st') ∧ InOrder heap st' l := by
  rw [pitUninstallCback]
  by_cases hzero : st.count = 0
  · rw [if_pos hzero]
    exact ⟨_, st, rfl, h⟩
  · obtain ⟨ret, cbacks, t, hremove, hcbacks, hfind⟩ := h.remove fun _ => hlonely
    rw [filter_unknown hname] at hfind
    rw [if_neg hzero, h.count, h.findService_unknown hname, Exec.ok_bind, hremove]
    exact ⟨ret, ⟨st.names, st.nextAvailable, l.length, cbacks⟩, rfl, h.names, h.next, rfl, h.room, h.nodup, t, hcbacks,
      hfind⟩

theorem InOrder.run (h : InOrder heap st l) (call : PitCall) (hcall : call.Careful st l) :
    ∃ ret st', call.run heap st = .ok (ret, st') ∧ InOrder heap st' (call.apply l) := by
  cases call with
  | install name address =>
    change ∃ ret st', _ ∧ InOrder heap st' (if l.Refuses name then l else l ++ [(name, address)])
    by_cases hname : l.Refuses name
    · rw [if_pos hname]
      exact ⟨ioctlNull, st, h.refused address hname, h⟩
    · rw [if_neg hname]
      exact h.install address hname
  | uninstall name =>
    change ∃ ret st', _ ∧ InOrder heap st' (l.filter (·.1 ≠ name))
    cases hcall with
    | inl hlast =>
      obtain ⟨address, hlast⟩ := hlast
      obtain ⟨l, rfl⟩ := List.getLast?_eq_some_iff.mp hlast
      rw [h.filter_last]
      exact h.uninstall_last
    | inr hunknown =>
      rw [filter_unknown hunknown.1]
      exact h.uninstall_unknown hunknown.1 hunknown.2

theorem inOrder_start (heap : Nat → UInt8) : InOrder heap (start heap) [] := by
  have hnames : ∀ i < pitCallbackServiceMax, (start heap).names[i]? = some (([] : Installed)[i]?.map nameText) := by
    intro i hi
    exact List.getElem?_replicate_of_lt hi
  refine ⟨hnames, rfl, rfl, by decide, List.nodup_nil, _, represents_create heap _ _ (by decide) (by decide), ?_⟩
  intro name address
  rw [HashTable.find_empty]
  exact iff_of_false nofun List.not_mem_nil

end PitServices

/-- In every run of careful calls the timer serves the installed callbacks, and the next careful call returns. -/
theorem pitServes_of_run {heap : Nat → UInt8} {st : PitServices} {l : Installed}
    (hrun : PitRun heap (fun st l call => call.Careful st l) st l) :
    st.Serves heap l ∧ ∀ call : PitCall, call.Careful st l → ∃ ret st', call.run heap st = .ok (ret, st') := by
  suffices h : st.InOrder heap l by
    refine ⟨h.serves, fun call hcall => ?_⟩
    obtain ⟨ret, st', hreturns, -⟩ := h.run call hcall
    exact ⟨ret, st', hreturns⟩
  induction hrun with
  | start => exact PitServices.inOrder_start heap
  | call _ hcall hreturns ih =>
    obtain ⟨ret, st', hreturns', hst'⟩ := ih.run _ hcall
    rw [hreturns, Except.ok.injEq, Prod.mk.injEq] at hreturns'
    exact hreturns'.2 ▸ hst'

/-- The names `a` and `b`. -/
def nameA : CText := ⟨[97], nul_notMem_a⟩

def nameB : CText := ⟨[98], nul_notMem_b⟩

/-- After two callbacks are installed and the second one is uninstalled. -/
theorem pitServes_of_run_two : ∃ st, PitServices.Serves (fun _ => 0) st [(nameA, 7)] ∧
    ∀ call : PitCall, call.Careful st [(nameA, 7)] → ∃ ret st', call.run (fun _ => 0) st = .ok (ret, st') := by
  have hstart := PitServices.inOrder_start fun _ => 0
  obtain ⟨ret₁, st₁, hrun₁, h₁⟩ := hstart.run (.install nameA 7) trivial
  obtain ⟨ret₂, st₂, hrun₂, h₂⟩ := h₁.run (.install nameB 8) trivial
  have hlast : (PitCall.uninstall nameB).Careful st₂ [(nameA, 7), (nameB, 8)] := .inl ⟨8, rfl⟩
  obtain ⟨ret₃, st₃, hrun₃, -⟩ := h₂.run _ hlast
  have hrun := PitRun.call (.call (.call .start trivial hrun₁) trivial hrun₂) hlast hrun₃
  exact ⟨st₃, pitServes_of_run hrun⟩

/-- The first of two callbacks is uninstalled: the next tick takes a null pointer for a name. -/
theorem not_serves_first : ∃ st l, PitRun (fun _ => 0) (fun _ _ _ => True) st l ∧
    ¬ PitServices.Serves (fun _ => 0) st l := by
  have hruns : ∃ ret st, PitCall.run (fun _ => 0) (PitServices.start fun _ => 0) (.install nameA 7) = .ok (ret, st) ∧
    ∃ ret st', PitCall.run (fun _ => 0) st (.install nameB 8) = .ok (ret, st') ∧
    ∃ ret st'', PitCall.run (fun _ => 0) st' (.uninstall nameA) = .ok (ret, st'') ∧
      st''.pitHandler true = .error .overrun := ⟨_, _, rfl, _, _, rfl, _, _, rfl, rfl⟩
  obtain ⟨ret₁, st₁, hrun₁, ret₂, st₂, hrun₂, ret₃, st₃, hrun₃, htick⟩ := hruns
  refine ⟨st₃, _, .call (.call (.call .start trivial hrun₁) trivial hrun₂) trivial hrun₃, ?_⟩
  intro hserves
  obtain ⟨called, hcalled, -⟩ := hserves.tick
  rw [htick] at hcalled
  cases hcalled

end KernelTest.Drivers
