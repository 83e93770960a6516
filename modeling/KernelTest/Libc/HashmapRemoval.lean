import KernelTest.Framework.Exec
import KernelTest.Libc.HashmapChains

/-!
# Who owns the entries of a hash map

A hash map allocates a block for each entry and, if its keys are strings, one for the copy of the key. The map
with its blocks is the plain one with more bookkeeping. `hashmap_remove` frees the blocks of the entry that it
unlinks; but behind a first entry with another key it looks at a next one also when there is none.
-/

namespace KernelTest.Libc

/-- A `hashmap_entry_t` with the numbers of its block and of the block of its key, if that is a copy. -/
structure Entry (κ : Type) where
  block : Nat
  keyBlock : Option Nat
  key : κ
  value : Nat

/-- A `hashmap_t`. Blocks are numbered as they are allocated, `copies` says whether keys are copied into blocks
and freed, and `freed` are the blocks that have been freed, in order. -/
structure OwnedMap (κ : Type) where
  funcs : HashFuncs κ
  copies : Bool
  size : Nat
  entries : List (List (Entry κ))
  next : Nat
  freed : List Nat

/-- `hashmap_create(n)` -/
def createStrings (junk : Nat → UInt8) (n : Nat) : OwnedMap Block :=
  ⟨stringFuncs junk, true, n, List.replicate (slotsFor n) [], 0, []⟩

/-- `hashmap_create_int(n)` -/
def createInts (n : Nat) : OwnedMap UInt32 := ⟨intFuncs, false, n, List.replicate (slotsFor n) [], 0, []⟩

section Operations

variable {κ α : Type}

def Entry.pair (e : Entry κ) : κ × Nat := (e.key, e.value)

/-- What `hash_key_free(x->key)` and `hash_val_free(x)` free. -/
def Entry.blocks (e : Entry κ) : List Nat := e.keyBlock.toList ++ [e.block]

def chainBlocks (chain : List (Entry κ)) : List Nat := chain.flatMap Entry.blocks

def OwnedMap.blocks (map : OwnedMap κ) : List Nat := map.entries.flatMap chainBlocks

def OwnedMap.forget (map : OwnedMap κ) : Hashmap κ :=
  ⟨map.funcs, map.size, map.entries.map (List.map Entry.pair)⟩

/-- `map->entries[i]` -/
def OwnedMap.slot (map : OwnedMap κ) (i : Nat) : Except Fault (List (Entry κ)) :=
  match map.entries[i]? with
  | none => .error .overrun
  | some chain => .ok chain

/-- A new entry with the key `k`. -/
def OwnedMap.newEntry (map : OwnedMap κ) (value : Nat) (k : κ) : Entry κ :=
  ⟨map.next, if map.copies then some (map.next + 1) else none, k, value⟩

/-- The walk of `hashmap_set`: what it returns, whether an entry is made, and the chain afterwards. -/
def setWalk (f : HashFuncs κ) (key : κ) (value : Nat) (new : κ → Entry κ) :
    List (Entry κ) → Except Fault (Nat × Bool × List (Entry κ))
  | [] => do
    let k ← f.hashKeyDup key
    pure (0, true, [new k])
  | x :: next => do
    if ← f.hashComp x.key key then
      pure (x.value, false, { x with value := value } :: next)
    else
      let (out, made, next) ← setWalk f key value new next
      pure (out, made, x :: next)

/-- `hashmap_set` -/
def OwnedMap.set (map : OwnedMap κ) (key : κ) (value : Nat) : Except Fault (Nat × OwnedMap κ) := do
  let i ← map.forget.bucket key
  let x ← map.slot i
  let (out, made, x) ← setWalk map.funcs key value (map.newEntry value) x
  let used := if made then (if map.copies then 2 else 1) else 0
  pure (out, { map with entries := map.entries.set i x, next := map.next + used })

/-- The loop of `hashmap_remove` behind an entry with another key: what it returns, what it frees, and the
chain afterwards. -/
def removeBehind (f : HashFuncs κ) (key : κ) :
    List (Entry κ) → Except Fault (Nat × List Nat × List (Entry κ))
  | [] => .error .overrun
  | x :: next => do
    if ← f.hashComp x.key key then
      pure (x.value, x.blocks, next)
    else if next.isEmpty then
      pure (0, [], [x])
    else
      let (out, freed, next) ← removeBehind f key next
      pure (out, freed, x :: next)

/-- The walk of `hashmap_remove` along a chain. -/
def removeWalk (f : HashFuncs κ) (key : κ) :
    List (Entry κ) → Except Fault (Nat × List Nat × List (Entry κ))
  | [] => pure (0, [], [])
  | x :: next => do
    if ← f.hashComp x.key key then
      pure (x.value, x.blocks, next)
    else
      let (out, freed, next) ← removeBehind f key next
      pure (out, freed, x :: next)

/-- `hashmap_remove` -/
def OwnedMap.remove (map : OwnedMap κ) (key : κ) : Except Fault (Nat × OwnedMap κ) := do
  let i ← map.forget.bucket key
  let x ← map.slot i
  let (out, freed, x) ← removeWalk map.funcs key x
  pure (out, { map with entries := map.entries.set i x, freed := map.freed ++ freed })

/-- The maps that `hashmap_set` and `hashmap_remove` lead to, with the finite maps that they should be. -/
inductive Reaches [DecidableEq α] (start : OwnedMap κ) (denotes : κ → α → Prop) :
    OwnedMap κ → (α → Option Nat) → Prop
  | start : Reaches start denotes start fun _ => none
  | set {map map' : OwnedMap κ} {m : α → Option Nat} {key : κ} {a : α} {value out : Nat} :
      Reaches start denotes map m → denotes key a → map.set key value = .ok (out, map') →
      Reaches start denotes map' (Function.update m a (some value))
  | remove {map map' : OwnedMap κ} {m : α → Option Nat} {key : κ} {a : α} {out : Nat} :
      Reaches start denotes map m → denotes key a → map.remove key = .ok (out, map') →
      Reaches start denotes map' (Function.update m a none)

/-- The key's value is returned, the result is the finite map without the key, and what leaves the map is
freed, no block twice and none that is still in the map. -/
def RemovesProperly [DecidableEq α] (map : OwnedMap κ) (denotes : κ → α → Prop) (m : α → Option Nat) (key : κ)
    (a : α) : Prop :=
  ∃ (map' : OwnedMap κ) (freed : List Nat), map.remove key = .ok ((m a).getD 0, map') ∧
    map'.forget.Holds denotes (Function.update m a none) ∧ map'.freed = map.freed ++ freed ∧
    map.blocks.Perm (freed ++ map'.blocks) ∧ (map'.freed ++ map'.blocks).Nodup

def OwnedMap.Lonely (map : OwnedMap κ) (key : κ) : Prop :=
  ∃ i x, map.forget.bucket key = .ok i ∧ map.slot i = .ok [x]

end Operations

/-! ## The plain map -/

section Forget

variable {κ : Type} {f : HashFuncs κ} {key : κ} {value : Nat}

theorem setEntry_forget (new : κ → Entry κ) (hnew : ∀ k, (new k).pair = (k, value)) (chain : List (Entry κ)) :
    setEntry f key value (chain.map Entry.pair) =
      (setWalk f key value new chain).map fun r => (r.1, r.2.2.map Entry.pair) := by
  induction chain with
  | nil =>
    rw [List.map_nil, setEntry, setWalk]
    cases f.hashKeyDup key with
    | error e => rfl
    | ok k => exact congrArg (fun p => Except.ok (0, [p])) (hnew k).symm
  | cons x chain ih =>
    rw [List.map_cons, setEntry, setWalk, ih]
    change (f.hashComp x.key key >>= _) = _
    cases f.hashComp x.key key with
    | error e => rfl
    | ok same =>
      cases same with
      | true => rfl
      | false => cases setWalk f key value new chain <;> rfl

theorem removeAfter_forget (chain : List (Entry κ)) : removeAfter f key (chain.map Entry.pair) =
    (removeBehind f key chain).map fun r => (r.1, r.2.2.map Entry.pair) := by
  induction chain with
  | nil => rfl
  | cons x chain ih =>
    rw [List.map_cons, removeAfter, removeBehind, ih]
    change (f.hashComp x.key key >>= _) = _
    cases f.hashComp x.key key with
    | error e => rfl
    | ok same =>
      cases same with
      | true => rfl
      | false =>
        cases chain with
        | nil => rfl
        | cons y chain => cases removeBehind f key (y :: chain) <;> rfl

theorem removeEntry_forget (chain : List (Entry κ)) : removeEntry f key (chain.map Entry.pair) =
    (removeWalk f key chain).map fun r => (r.1, r.2.2.map Entry.pair) := by
  cases chain with
  | nil => rfl
  | cons x chain =>
    rw [List.map_cons, removeEntry, removeWalk, removeAfter_forget]
    change (f.hashComp x.key key >>= _) = _
    cases f.hashComp x.key key with
    | error e => rfl
    | ok same =>
      cases same with
      | true => rfl
      | false => cases removeBehind f key chain <;> rfl

theorem slot_forget (map : OwnedMap κ) (i : Nat) :
    map.forget.slot i = (map.slot i).map (List.map Entry.pair) := by
  rw [Hashmap.slot, OwnedMap.slot, OwnedMap.forget, List.getElem?_map]
  cases map.entries[i]? <;> rfl

theorem hashmapSet_forget (map : OwnedMap κ) (key : κ) (value : Nat) :
    hashmapSet map.forget key value = (map.set key value).map fun r => (r.1, r.2.forget) := by
  rw [hashmapSet, OwnedMap.set]
  cases map.forget.bucket key with
  | error e => rfl
  | ok i =>
    rw [Exec.ok_bind, Exec.ok_bind, slot_forget]
    cases map.slot i with
    | error e => rfl
    | ok x =>
      change (setEntry map.funcs key value (x.map Entry.pair) >>= _) = _
      rw [setEntry_forget (map.newEntry value) (fun _ => rfl), Exec.ok_bind]
      cases setWalk map.funcs key value (map.newEntry value) x with
      | error e => rfl
      | ok r => exact congrArg (fun l => Except.ok (r.1, (⟨map.funcs, map.size, l⟩ : Hashmap κ))) List.map_set.symm

theorem hashmapRemove_forget (map : OwnedMap κ) (key : κ) :
    hashmapRemove map.forget key = (map.remove key).map fun r => (r.1, r.2.forget) := by
  rw [hashmapRemove, OwnedMap.remove]
  cases map.forget.bucket key with
  | error e => rfl
  | ok i =>
    rw [Exec.ok_bind, Exec.ok_bind, slot_forget]
    cases map.slot i with
    | error e => rfl
    | ok x =>
      change (removeEntry map.funcs key (x.map Entry.pair) >>= _) = _
      rw [removeEntry_forget, Exec.ok_bind]
      cases removeWalk map.funcs key x with
      | error e => rfl
      | ok r => exact congrArg (fun l => Except.ok (r.1, (⟨map.funcs, map.size, l⟩ : Hashmap κ))) List.map_set.symm

end Forget

/-! ## The blocks -/

section Blocks

variable {κ : Type} {f : HashFuncs κ} {key : κ} {value out i : Nat} {new : κ → Entry κ} {map map' : OwnedMap κ}
  {chain chain' : List (Entry κ)} {freed b : List Nat} {made : Bool}

def OwnedMap.Owned (map : OwnedMap κ) : Prop := (map.freed ++ map.blocks).Perm (List.range map.next)

theorem setWalk_blocks (hnew : ∀ k, (new k).blocks = b) (h : setWalk f key value new chain = .ok (out, made, chain')) :
    (chainBlocks chain').Perm (chainBlocks chain ++ if made then b else []) := by
  induction chain generalizing out made chain' with
  | nil =>
    rw [setWalk] at h
    obtain ⟨k, -, h⟩ := Exec.of_bind_eq_ok h
    cases h
    simp [chainBlocks, hnew]
  | cons x chain ih =>
    rw [setWalk] at h
    obtain ⟨same, -, h⟩ := Exec.of_bind_eq_ok h
    cases same with
    | true =>
      cases h
      simp [chainBlocks, Entry.blocks]
    | false =>
      obtain ⟨⟨out₁, made₁, chain₁⟩, hrest, h⟩ := Exec.of_bind_eq_ok h
      cases h
      have hperm := (ih hrest).append_left x.blocks
      rwa [← List.append_assoc] at hperm

theorem chainBlocks_behind (x : Entry κ) (h : (chainBlocks chain).Perm (freed ++ chainBlocks chain')) :
    (chainBlocks (x :: chain)).Perm (freed ++ chainBlocks (x :: chain')) :=
  (h.append_left x.blocks).trans (List.perm_append_comm_assoc _ _ _)

theorem removeBehind_blocks (h : removeBehind f key chain = .ok (out, freed, chain')) :
    (chainBlocks chain).Perm (freed ++ chainBlocks chain') := by
  induction chain generalizing out freed chain' with
  | nil => cases h
  | cons x chain ih =>
    rw [removeBehind] at h
    obtain ⟨same, -, h⟩ := Exec.of_bind_eq_ok h
    cases same with
    | true =>
      cases h
      exact List.Perm.refl _
    | false =>
      by_cases hnil : chain.isEmpty = true
      · simp only [Bool.false_eq_true, if_false, hnil, if_true] at h
        cases h
        rw [List.isEmpty_iff.mp hnil]
        exact List.Perm.refl _
      · simp only [Bool.false_eq_true, if_false, hnil] at h
        obtain ⟨⟨out₁, freed₁, chain₁⟩, hrest, h⟩ := Exec.of_bind_eq_ok h
        cases h
        exact chainBlocks_behind x (ih hrest)

theorem removeWalk_blocks (h : removeWalk f key chain = .ok (out, freed, chain')) :
    (chainBlocks chain).Perm (freed ++ chainBlocks chain') := by
  cases chain with
  | nil =>
    cases h
    exact List.Perm.refl _
  | cons x chain =>
    rw [removeWalk] at h
    obtain ⟨same, -, h⟩ := Exec.of_bind_eq_ok h
    cases same with
    | true =>
      cases h
      exact List.Perm.refl _
    | false =>
      obtain ⟨⟨out₁, freed₁, chain₁⟩, hrest, h⟩ := Exec.of_bind_eq_ok h
      cases h
      exact chainBlocks_behind x (removeBehind_blocks hrest)

theorem flatMap_set_perm {l : List (List (Entry κ))} (h : l[i]? = some chain) : ∃ rest,
    (l.flatMap chainBlocks).Perm (chainBlocks chain ++ rest) ∧
      ∀ chain', ((l.set i chain').flatMap chainBlocks).Perm (chainBlocks chain' ++ rest) := by
  obtain ⟨hi, hget⟩ := List.getElem?_eq_some_iff.mp h
  have hset : ∀ chain', ((l.set i chain').flatMap chainBlocks).Perm
      (chainBlocks chain' ++ ((l.take i).flatMap chainBlocks ++ (l.drop (i + 1)).flatMap chainBlocks)) := by
    intro chain'
    rw [List.set_eq_take_append_cons_drop, if_pos hi, List.flatMap_append, List.flatMap_cons]
    exact List.perm_append_comm_assoc _ _ _
  refine ⟨_, ?_, hset⟩
  have hself := hset chain
  rwa [← hget, List.set_getElem_self, hget] at hself

theorem slot_ok (h : map.slot i = .ok chain) : map.entries[i]? = some chain := by
  rw [OwnedMap.slot] at h
  cases hc : map.entries[i]? with
  | none =>
    rw [hc] at h
    cases h
  | some c =>
    rw [hc] at h
    cases h
    rfl

def OwnedMap.newBlocks (map : OwnedMap κ) : List Nat := if map.copies then [map.next + 1, map.next] else [map.next]

theorem newEntry_blocks (map : OwnedMap κ) (value : Nat) (k : κ) : (map.newEntry value k).blocks = map.newBlocks := by
  cases hc : map.copies <;> simp [Entry.blocks, OwnedMap.newEntry, OwnedMap.newBlocks, hc]

theorem range_newBlocks (map : OwnedMap κ) (made : Bool) :
    (List.range map.next ++ if made then map.newBlocks else []).Perm
      (List.range (map.next + if made then (if map.copies then 2 else 1) else 0)) := by
  cases made with
  | false => simp
  | true =>
    cases hc : map.copies with
    | false => simp [OwnedMap.newBlocks, hc, List.range_succ]
    | true =>
      rw [if_pos rfl, if_pos rfl, if_pos rfl, OwnedMap.newBlocks, if_pos hc, List.range_succ, List.range_succ,
        List.append_assoc]
      exact (List.Perm.swap _ _ _).append_left _

theorem OwnedMap.Owned.set (h : map.Owned) (hrun : map.set key value = .ok (out, map')) : map'.Owned := by
  rw [OwnedMap.set] at hrun
  obtain ⟨i, -, hrun⟩ := Exec.of_bind_eq_ok hrun
  obtain ⟨chain, hslot, hrun⟩ := Exec.of_bind_eq_ok hrun
  obtain ⟨⟨out₁, made, chain'⟩, hwalk, hrun⟩ := Exec.of_bind_eq_ok hrun
  cases hrun
  obtain ⟨rest, hbefore, hafter⟩ := flatMap_set_perm (slot_ok hslot)
  have hchain := (setWalk_blocks (newEntry_blocks map value) hwalk).append_right rest
  have hmoved : (chainBlocks chain ++ (if made then map.newBlocks else []) ++ rest).Perm
      (chainBlocks chain ++ rest ++ if made then map.newBlocks else []) := by
    rw [List.append_assoc, List.append_assoc]
    exact List.perm_append_comm.append_left _
  have hblocks : ((map.entries.set i chain').flatMap chainBlocks).Perm
      (map.blocks ++ if made then map.newBlocks else []) :=
    ((hafter chain').trans hchain).trans (hmoved.trans (hbefore.symm.append_right _))
  have hall := (hblocks.append_left map.freed).trans (List.append_assoc _ _ _ ▸ h.append_right _)
  exact hall.trans (range_newBlocks map made)

theorem remove_blocks (hrun : map.remove key = .ok (out, map')) :
    ∃ freed, map'.freed = map.freed ++ freed ∧ map.blocks.Perm (freed ++ map'.blocks) ∧ map'.next = map.next := by
  rw [OwnedMap.remove] at hrun
  obtain ⟨i, -, hrun⟩ := Exec.of_bind_eq_ok hrun
  obtain ⟨chain, hslot, hrun⟩ := Exec.of_bind_eq_ok hrun
  obtain ⟨⟨out₁, freed, chain'⟩, hwalk, hrun⟩ := Exec.of_bind_eq_ok hrun
  cases hrun
  obtain ⟨rest, hbefore, hafter⟩ := flatMap_set_perm (slot_ok hslot)
  refine ⟨freed, rfl, ?_, rfl⟩
  have hchain := (removeWalk_blocks hwalk).append_right rest
  rw [List.append_assoc] at hchain
  exact (hbefore.trans hchain).trans ((hafter chain').symm.append_left freed)

theorem OwnedMap.Owned.remove (h : map.Owned) (hrun : map.remove key = .ok (out, map')) : map'.Owned := by
  obtain ⟨freed, hfreed, hblocks, hnext⟩ := remove_blocks hrun
  rw [OwnedMap.Owned, hfreed, hnext, List.append_assoc]
  exact (hblocks.symm.append_left map.freed).trans h

theorem OwnedMap.Owned.nodup (h : map.Owned) : (map.freed ++ map.blocks).Nodup := h.nodup_iff.mpr List.nodup_range

end Blocks

/-! ## The table -/

section Table

variable {κ α : Type} [DecidableEq α] {f : HashFuncs κ} {denotes : κ → α → Prop} {store : α → κ} {hash : α → Nat}
  {key : κ} {a : α} {map map' : OwnedMap κ} {m : α → Option Nat} {t : List (List (α × Nat))} {out n : Nat}

theorem removeAfter_absent (hf : f.Lawful denotes store hash) (hk : denotes key a) {chain : List (α × Nat)}
    (habsent : chain.lookup a = none) : removeAfter f key (stored store chain) =
      if chain = [] then .error .overrun else .ok (0, stored store chain) := by
  induction chain with
  | nil => rfl
  | cons e chain ih =>
    rw [HashTable.lookup_cons_ite] at habsent
    have ha : a ≠ e.1 := by
      intro h
      simp [h] at habsent
    rw [if_neg ha] at habsent
    rw [stored_cons, removeAfter, hf.comp_eq e.1 hk, ih habsent, if_neg (List.cons_ne_nil e chain)]
    simp only [ha, decide_false]
    cases chain <;> rfl

theorem removeEntry_absent (hf : f.Lawful denotes store hash) (hk : denotes key a) {chain : List (α × Nat)}
    (habsent : chain.lookup a = none) : removeEntry f key (stored store chain) =
      if chain.length = 1 then .error .overrun else .ok (0, stored store chain) := by
  cases chain with
  | nil => rfl
  | cons e chain =>
    rw [HashTable.lookup_cons_ite] at habsent
    have ha : a ≠ e.1 := by
      intro h
      simp [h] at habsent
    rw [if_neg ha] at habsent
    rw [stored_cons, removeEntry, hf.comp_eq e.1 hk, removeAfter_absent hf hk habsent]
    simp only [ha, decide_false]
    cases chain <;> rfl

theorem erase_absent (ht : 0 < t.length) (habsent : HashTable.find hash t a = none) :
    HashTable.erase hash t a = t := by
  have hlt : hash a % t.length < t.length := Nat.mod_lt _ ht
  have hchain : HashTable.eraseChain a (HashTable.bucketOf hash t a) = HashTable.bucketOf hash t a := by
    rw [HashTable.eraseChain, List.eraseP_of_forall_not]
    intro e he hea
    rw [HashTable.find, List.lookup_eq_none_iff] at habsent
    have hne := habsent e he
    simp only [decide_eq_true_eq] at hea
    simp [hea] at hne
  rw [HashTable.erase, hchain, HashTable.bucketOf, List.getD_eq_getElem?_getD, List.getElem?_eq_getElem hlt,
    Option.getD_some, List.set_getElem_self]

theorem Hashmap.Represents.remove_any {map : Hashmap κ} (h : map.Represents f store hash t)
    (hf : f.Lawful denotes store hash) (hk : denotes key a)
    (hlonely : ¬ (HashTable.find hash t a = none ∧ (HashTable.bucketOf hash t a).length = 1)) :
    ∃ map', hashmapRemove map key = .ok ((HashTable.find hash t a).getD 0, map') ∧
      map'.Represents f store hash (HashTable.erase hash t a) := by
  cases hfind : HashTable.find hash t a with
  | some v => exact hfind ▸ h.remove hf hk (by rw [hfind]; rfl)
  | none =>
    have hlong : (HashTable.bucketOf hash t a).length ≠ 1 := fun hone => hlonely ⟨hfind, hone⟩
    have hslot : map.entries[hash a % t.length]? = some (stored store (HashTable.bucketOf hash t a)) := by
      have hslot := h.slot_bucketOf a
      rw [Hashmap.slot] at hslot
      cases hc : map.entries[hash a % t.length]? with
      | none =>
        rw [hc] at hslot
        cases hslot
      | some chain =>
        rw [hc] at hslot
        cases hslot
        rfl
    obtain ⟨hi, hget⟩ := List.getElem?_eq_some_iff.mp hslot
    have hentry : removeEntry map.funcs key (stored store (HashTable.bucketOf hash t a)) =
        .ok (0, stored store (HashTable.bucketOf hash t a)) := by
      rw [h.funcs, removeEntry_absent hf hk hfind, if_neg hlong]
    refine ⟨map, ?_, (erase_absent h.pos hfind).symm ▸ h⟩
    rw [hashmapRemove, h.bucket_eq hf hk, Exec.ok_bind, h.slot_bucketOf a, Exec.ok_bind, hentry, Exec.ok_bind]
    change Except.ok (0, (⟨map.funcs, map.size, map.entries.set _ _⟩ : Hashmap κ)) = _
    rw [← hget, List.set_getElem_self]
    rfl

theorem Hashmap.Represents.remove_lonely {map : Hashmap κ} (h : map.Represents f store hash t)
    (hf : f.Lawful denotes store hash) (hk : denotes key a) (habsent : HashTable.find hash t a = none)
    (hone : (HashTable.bucketOf hash t a).length = 1) : hashmapRemove map key = .error .overrun := by
  rw [hashmapRemove, h.bucket_eq hf hk, Exec.ok_bind, h.slot_bucketOf a, Exec.ok_bind, h.funcs,
    removeEntry_absent hf hk habsent, if_pos hone]
  rfl

structure Kept (f : HashFuncs κ) (store : α → κ) (hash : α → Nat) (map : OwnedMap κ) (m : α → Option Nat) : Prop where
  table : ∃ t, map.forget.Represents f store hash t ∧ HashTable.find hash t = m
  owned : map.Owned

theorem Kept.set {value : Nat} (h : Kept f store hash map m) (hf : f.Lawful denotes store hash) (hk : denotes key a)
    (hrun : map.set key value = .ok (out, map')) :
    Kept f store hash map' (Function.update m a (some value)) := by
  obtain ⟨t, ht, rfl⟩ := h.table
  obtain ⟨plain, hplain, hrepresents⟩ := ht.set hf hk value
  rw [hashmapSet_forget, hrun] at hplain
  cases hplain
  exact ⟨⟨_, hrepresents, HashTable.find_insert ht.pos a value⟩, h.owned.set hrun⟩

theorem Kept.remove (h : Kept f store hash map m) (hf : f.Lawful denotes store hash) (hk : denotes key a)
    (hrun : map.remove key = .ok (out, map')) :
    out = (m a).getD 0 ∧ Kept f store hash map' (Function.update m a none) := by
  obtain ⟨t, ht, rfl⟩ := h.table
  have hlonely : ¬ (HashTable.find hash t a = none ∧ (HashTable.bucketOf hash t a).length = 1) := by
    intro ⟨habsent, hone⟩
    have hplain := ht.remove_lonely hf hk habsent hone
    rw [hashmapRemove_forget, hrun] at hplain
    cases hplain
  obtain ⟨plain, hplain, hrepresents⟩ := ht.remove_any hf hk hlonely
  rw [hashmapRemove_forget, hrun] at hplain
  cases hplain
  exact ⟨rfl, ⟨_, hrepresents, HashTable.find_erase ht.wellPlaced ht.pos a⟩, h.owned.remove hrun⟩

theorem Reaches.kept {start : OwnedMap κ} (h : Reaches start denotes map m) (hf : f.Lawful denotes store hash)
    (hstart : Kept f store hash start fun _ => none) : Kept f store hash map m := by
  induction h with
  | start => exact hstart
  | set hmap hk hrun ih => exact ih.set hf hk hrun
  | remove hmap hk hrun ih => exact (ih.remove hf hk hrun).2

theorem lonely_iff (ht : map.forget.Represents f store hash t) (hf : f.Lawful denotes store hash) (hk : denotes key a) :
    map.Lonely key ↔ (HashTable.bucketOf hash t a).length = 1 := by
  have hslot := ht.slot_bucketOf a
  rw [slot_forget] at hslot
  have hbucket := ht.bucket_eq hf hk
  cases hchain : map.slot (hash a % t.length) with
  | error e =>
    rw [hchain] at hslot
    cases hslot
  | ok chain =>
    rw [hchain, Except.map, Except.ok.injEq] at hslot
    have hlen := congrArg List.length hslot
    rw [List.length_map, stored, List.length_map] at hlen
    rw [← hlen]
    constructor
    · rintro ⟨i, x, hi, hx⟩
      rw [hbucket, Except.ok.injEq] at hi
      rw [← hi, hchain, Except.ok.injEq] at hx
      rw [hx]
      rfl
    · intro hone
      obtain ⟨x, rfl⟩ := List.length_eq_one_iff.mp hone
      exact ⟨_, x, hbucket, hchain⟩

theorem Kept.removes_iff (h : Kept f store hash map m) (hf : f.Lawful denotes store hash) (hk : denotes key a) :
    RemovesProperly map denotes m key a ↔ ¬ (m a = none ∧ map.Lonely key) := by
  obtain ⟨t, ht, rfl⟩ := h.table
  rw [lonely_iff ht hf hk]
  constructor
  · intro ⟨map', _, hrun, _⟩ ⟨habsent, hone⟩
    have hplain := ht.remove_lonely hf hk habsent hone
    rw [hashmapRemove_forget, hrun] at hplain
    cases hplain
  · intro hlonely
    obtain ⟨plain, hplain, hrepresents⟩ := ht.remove_any hf hk hlonely
    rw [hashmapRemove_forget] at hplain
    cases hrun : map.remove key with
    | error e =>
      rw [hrun] at hplain
      cases hplain
    | ok r =>
      obtain ⟨out, map'⟩ := r
      rw [hrun] at hplain
      change Except.ok (out, map'.forget) = _ at hplain
      rw [Except.ok.injEq, Prod.mk.injEq] at hplain
      obtain ⟨hout, hforget⟩ := hplain
      obtain ⟨freed, hfreed, hblocks, -⟩ := remove_blocks hrun
      have hholds := hrepresents.holds hf
      rw [HashTable.find_erase ht.wellPlaced ht.pos a, ← hforget] at hholds
      exact ⟨map', freed, hout ▸ hrun, hholds, hfreed, hblocks, (h.owned.remove hrun).nodup⟩

/-! ## Sizes that wrap around -/

theorem Reaches.slots {start : OwnedMap κ} (h : Reaches start denotes map m) :
    map.size = start.size ∧ map.entries.length = start.entries.length := by
  induction h with
  | start => exact ⟨rfl, rfl⟩
  | set hmap hk hrun ih =>
    rw [OwnedMap.set] at hrun
    obtain ⟨i, -, hrun⟩ := Exec.of_bind_eq_ok hrun
    obtain ⟨chain, -, hrun⟩ := Exec.of_bind_eq_ok hrun
    obtain ⟨r, -, hrun⟩ := Exec.of_bind_eq_ok hrun
    cases hrun
    exact ⟨ih.1, List.length_set.trans ih.2⟩
  | remove hmap hk hrun ih =>
    rw [OwnedMap.remove] at hrun
    obtain ⟨i, -, hrun⟩ := Exec.of_bind_eq_ok hrun
    obtain ⟨chain, -, hrun⟩ := Exec.of_bind_eq_ok hrun
    obtain ⟨r, -, hrun⟩ := Exec.of_bind_eq_ok hrun
    cases hrun
    exact ⟨ih.1, List.length_set.trans ih.2⟩

omit [DecidableEq α] in
theorem of_mapM_ok {ε β γ : Type} {g : β → Except ε γ} {l : List β} {r : List γ} (h : l.mapM g = .ok r) :
    ∀ b ∈ l, ∃ c, g b = .ok c := by
  induction l generalizing r with
  | nil => simp
  | cons b l ih =>
    rw [List.mapM_cons] at h
    obtain ⟨c, hc, h⟩ := Exec.of_bind_eq_ok h
    obtain ⟨cs, hcs, -⟩ := Exec.of_bind_eq_ok h
    intro b' hb'
    cases List.mem_cons.mp hb' with
    | inl heq => exact ⟨c, heq ▸ hc⟩
    | inr hmem => exact ih hcs b' hmem

omit [DecidableEq α] in
theorem not_holds_of_short {plain : Hashmap κ} (hshort : plain.entries.length < plain.size) :
    ¬ plain.Holds denotes m := by
  intro h
  obtain ⟨_, _, _, _, _, _, _, hsize⟩ := h.listed
  rw [hashmapSize, Hashmap.walk] at hsize
  obtain ⟨counted, hwalk, -⟩ := Exec.of_bind_eq_ok hsize
  obtain ⟨chains, hslots, -⟩ := Exec.of_bind_eq_ok hwalk
  obtain ⟨chain, hchain⟩ := of_mapM_ok hslots plain.entries.length (List.mem_range.mpr hshort)
  rw [Hashmap.slot, List.getElem?_eq_none (Nat.le_refl _)] at hchain
  cases hchain

theorem removesProperly_iff_of_lawful (hf : f.Lawful denotes store hash) (copies : Bool) (hn : 1 ≤ n)
    (hlt : n < 2 ^ 31)
    (hmap : Reaches (⟨f, copies, n, List.replicate (slotsFor n) [], 0, []⟩ : OwnedMap κ) denotes map m)
    (hk : denotes key a) : RemovesProperly map denotes m key a ↔ n < 2 ^ 30 ∧ ¬ (m a = none ∧ map.Lonely key) := by
  by_cases hsize : n < 2 ^ 30
  · have hstart : Kept f store hash (⟨f, copies, n, List.replicate (slotsFor n) [], 0, []⟩ : OwnedMap κ)
        fun _ : α => none := by
      constructor
      · refine ⟨List.replicate n [], ?_, funext fun a => HashTable.find_empty n a⟩
        rw [OwnedMap.forget, slotsFor_of_lt hsize, List.map_replicate]
        exact Hashmap.represents_empty f store hash hn
      · simp [OwnedMap.Owned, OwnedMap.blocks, chainBlocks]
    rw [(hmap.kept hf hstart).removes_iff hf hk]
    exact ⟨fun h => ⟨hsize, h⟩, fun h => h.2⟩
  · constructor
    · intro ⟨map', _, hrun, hholds, _⟩
      obtain ⟨hsize', hslots⟩ := (Reaches.remove hmap hk hrun).slots
      have hshort := slotsFor_of_ge (Nat.le_of_not_lt hsize) hlt
      refine absurd hholds (not_holds_of_short ?_)
      change (map'.entries.map (List.map Entry.pair)).length < map'.size
      rw [List.length_map, hsize', hslots, List.length_replicate, hshort]
      change n - 2 ^ 30 < n
      omega
    · exact fun h => absurd h.1 hsize

end Table

end KernelTest.Libc
