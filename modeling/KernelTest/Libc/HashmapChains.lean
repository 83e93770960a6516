import KernelTest.Libc.Hashmap

/-!
# Removing from a hash map and counting along it

`hashmap_remove` unlinks an entry from its chain, and `hashmap_get_i` takes an index.
-/

namespace KernelTest.Libc

section Operations

variable {κ : Type}

/-- The loop of `hashmap_remove` behind an entry with another key: it starts with the next entry,
also when there is none. -/
def removeAfter (f : HashFuncs κ) (key : κ) :
    List (κ × Nat) → Except Fault (Nat × List (κ × Nat))
  | [] => .error .overrun
  | x :: next => do
    if ← f.hashComp x.1 key then
      pure (x.2, next)
    else if next.isEmpty then
      pure (0, [x])
    else
      let (out, next) ← removeAfter f key next
      pure (out, x :: next)

/-- The walk of `hashmap_remove` along a chain. -/
def removeEntry (f : HashFuncs κ) (key : κ) :
    List (κ × Nat) → Except Fault (Nat × List (κ × Nat))
  | [] => pure (0, [])
  | x :: next => do
    if ← f.hashComp x.1 key then
      pure (x.2, next)
    else
      let (out, next) ← removeAfter f key next
      pure (out, x :: next)

/-- `hashmap_remove`. -/
def hashmapRemove (map : Hashmap κ) (key : κ) : Except Fault (Nat × Hashmap κ) := do
  let i ← map.bucket key
  let x ← map.slot i
  let (out, x) ← removeEntry map.funcs key x
  pure (out, { map with entries := map.entries.set i x })

/-- `hashmap_get_i`: the index names the bucket as well as the place in its chain. -/
def hashmapGetI (map : Hashmap κ) (idx : Nat) : Except Fault Nat := do
  let x ← map.slot idx
  pure ((x[idx]?.map Prod.snd).getD 0)

end Operations

section Chains

variable {κ α : Type} [DecidableEq α] {f : HashFuncs κ} {denotes : κ → α → Prop} {store : α → κ}
  {hash : α → Nat}

theorem removeAfter_eq (hf : f.Lawful denotes store hash) {key : κ} {a : α} (hk : denotes key a)
    {chain : List (α × Nat)} (hmem : (chain.lookup a).isSome) :
    removeAfter f key (stored store chain) =
      .ok ((chain.lookup a).getD 0, stored store (HashTable.eraseChain a chain)) := by
  induction chain with
  | nil => simp at hmem
  | cons e chain ih =>
    rw [stored_cons, removeAfter, hf.comp_eq e.1 hk, HashTable.lookup_cons_ite,
      HashTable.eraseChain_cons]
    by_cases ha : a = e.1
    · simp only [ha, decide_true, if_true]
      rfl
    · rw [HashTable.lookup_cons_ite, if_neg ha] at hmem
      have hne : (stored store chain).isEmpty = false := by
        cases chain with
        | nil => simp at hmem
        | cons e' chain => rfl
      simp only [ha, Ne.symm ha, decide_false, if_false, hne, ih hmem]
      rfl

theorem removeEntry_eq (hf : f.Lawful denotes store hash) {key : κ} {a : α} (hk : denotes key a)
    {chain : List (α × Nat)} (hmem : (chain.lookup a).isSome) :
    removeEntry f key (stored store chain) =
      .ok ((chain.lookup a).getD 0, stored store (HashTable.eraseChain a chain)) := by
  cases chain with
  | nil => simp at hmem
  | cons e chain =>
    rw [stored_cons, removeEntry, hf.comp_eq e.1 hk, HashTable.lookup_cons_ite,
      HashTable.eraseChain_cons]
    by_cases ha : a = e.1
    · simp only [ha, decide_true, if_true]
      rfl
    · rw [HashTable.lookup_cons_ite, if_neg ha] at hmem
      simp only [ha, Ne.symm ha, decide_false, if_false, removeAfter_eq hf hk hmem]
      rfl

namespace Hashmap.Represents

variable {map : Hashmap κ} {t : List (List (α × Nat))}

theorem remove (h : map.Represents f store hash t) (hf : f.Lawful denotes store hash) {key : κ}
    {a : α} (hk : denotes key a) (hmem : (HashTable.find hash t a).isSome) :
    ∃ map', hashmapRemove map key = .ok ((HashTable.find hash t a).getD 0, map') ∧
      map'.Represents f store hash (HashTable.erase hash t a) := by
  constructor
  constructor
  · rw [hashmapRemove, h.bucket_eq hf hk]
    change (map.slot _ >>= _) = _
    rw [h.slot_bucketOf a]
    change (removeEntry map.funcs key _ >>= _) = _
    rw [h.funcs, removeEntry_eq hf hk hmem]
    rfl
  · constructor
    · rfl
    · rw [HashTable.length_erase]
      exact h.size
    · rw [HashTable.length_erase]
      exact h.pos
    · rw [HashTable.erase, List.map_set, ← h.entries]
    · exact h.wellPlaced.erase a

omit [DecidableEq α] in
theorem getI_zero (h : map.Represents f store hash t) {chain : List (α × Nat)} (ht : t = [chain]) :
    hashmapGetI map 0 = .ok ((chain.head?.map Prod.snd).getD 0) := by
  have hslot : map.slot 0 = .ok (stored store chain) := h.slot_eq (by rw [ht]; rfl)
  rw [hashmapGetI, hslot]
  cases chain <;> rfl

omit [DecidableEq α] in
theorem getI_overrun (h : map.Represents f store hash t) {chain : List (α × Nat)} (ht : t = [chain])
    {i : Nat} (hi : 0 < i) : hashmapGetI map i = .error .overrun := by
  have hslot : map.slot i = .error .overrun := by
    rw [Hashmap.slot, h.entries, ht, List.getElem?_eq_none (by simp; omega)]
  rw [hashmapGetI, hslot]
  rfl

end Hashmap.Represents

end Chains

end KernelTest.Libc
