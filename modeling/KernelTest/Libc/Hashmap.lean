import Mathlib.Data.List.Forall2
import KernelTest.Framework.Bytes
import KernelTest.Framework.HashTable
import KernelTest.Libc.Strings

/-!
# Hash maps

The chained hash map of the C library. `entries` are the bucket slots the map has memory for: the
constructors ask for `sizeof(hashmap_entry_t *) * size` bytes, a product of 32-bit numbers.
-/

namespace KernelTest.Libc

/-- The three functions a `hashmap_t` applies to its keys. -/
structure HashFuncs (κ : Type) where
  hashFunc : κ → Except Fault UInt32
  hashComp : κ → κ → Except Fault Bool
  hashKeyDup : κ → Except Fault κ

/-- A `char` as an `int`, as a 32-bit number. -/
def charToInt (c : UInt8) : UInt32 := if c < 128 then c.toUInt32 else c.toUInt32 + 0xFFFFFF00

/-- One round of the hash: `c + (hash << 6) + (hash << 16) - hash`. -/
def sdbm (hash : UInt32) (c : UInt8) : UInt32 :=
  charToInt c + (hash <<< 6) + (hash <<< 16) - hash

/-- The loop of `hashmap_string_hash`, from the value `hash` on. -/
def stringHashLoop (hash : UInt32) : Block → Except Fault UInt32
  | [] => .error .overrun
  | c :: key => if c = 0 then .ok hash else stringHashLoop (sdbm hash c) key

/-- `hashmap_string_hash`. -/
def hashmapStringHash (key : Block) : Except Fault UInt32 := stringHashLoop 0 key

/-- `hashmap_string_comp`. -/
def hashmapStringComp (a b : Block) : Except Fault Bool := do
  let d ← strcmp a b
  pure (d = 0)

/-- `strdup`. -/
def strdup (junk : Nat → UInt8) (s : Block) : Except Fault Block := do
  let l ← strlen s
  memcpy (malloc junk (l + 1)) 0 s (l + 1)

/-- The functions of the maps that `hashmap_create` makes. -/
def stringFuncs (junk : Nat → UInt8) : HashFuncs Block where
  hashFunc := hashmapStringHash
  hashComp := hashmapStringComp
  hashKeyDup := strdup junk

/-- The functions of the maps that `hashmap_create_int` makes. -/
def intFuncs : HashFuncs UInt32 where
  hashFunc key := .ok key
  hashComp a b := .ok (decide (a = b))
  hashKeyDup key := .ok key

/-- A `hashmap_t`: `size` is the field, `entries` the slots its memory has room for, each with its
chain of keys and values. A value is a pointer, `0` the null one. -/
structure Hashmap (κ : Type) where
  funcs : HashFuncs κ
  size : Nat
  entries : List (List (κ × Nat))

/-- The slots in the `sizeof(hashmap_entry_t *) * size` bytes that are asked for. -/
def slotsFor (size : Nat) : Nat := u32 (4 * size) / 4

/-- `hashmap_create`. -/
def hashmapCreate (junk : Nat → UInt8) (size : Nat) : Hashmap Block :=
  ⟨stringFuncs junk, size, List.replicate (slotsFor size) []⟩

/-- `hashmap_create_int`. -/
def hashmapCreateInt (size : Nat) : Hashmap UInt32 :=
  ⟨intFuncs, size, List.replicate (slotsFor size) []⟩

section Operations

variable {κ : Type}

/-- `map->entries[i]`. -/
def Hashmap.slot (map : Hashmap κ) (i : Nat) : Except Fault (List (κ × Nat)) :=
  match map.entries[i]? with
  | none => .error .overrun
  | some chain => .ok chain

def Hashmap.bucket (map : Hashmap κ) (key : κ) : Except Fault Nat := do
  let hash ← map.funcs.hashFunc key
  pure (hash.toNat % map.size)

/-- The walk of `hashmap_set` along a chain: what it returns, and the chain afterwards. -/
def setEntry (f : HashFuncs κ) (key : κ) (value : Nat) :
    List (κ × Nat) → Except Fault (Nat × List (κ × Nat))
  | [] => do
    let k ← f.hashKeyDup key
    pure (0, [(k, value)])
  | x :: next => do
    if ← f.hashComp x.1 key then
      pure (x.2, (x.1, value) :: next)
    else
      let (out, next) ← setEntry f key value next
      pure (out, x :: next)

/-- `hashmap_set`. -/
def hashmapSet (map : Hashmap κ) (key : κ) (value : Nat) : Except Fault (Nat × Hashmap κ) := do
  let i ← map.bucket key
  let x ← map.slot i
  let (out, x) ← setEntry map.funcs key value x
  pure (out, { map with entries := map.entries.set i x })

/-- The walk of `hashmap_get` and of `hashmap_has`: the first entry with the key. -/
def findEntry (f : HashFuncs κ) (key : κ) : List (κ × Nat) → Except Fault (Option Nat)
  | [] => pure none
  | x :: next => do
    if ← f.hashComp x.1 key then pure (some x.2) else findEntry f key next

/-- `hashmap_get`. -/
def hashmapGet (map : Hashmap κ) (key : κ) : Except Fault Nat := do
  let i ← map.bucket key
  let x ← map.slot i
  let value ← findEntry map.funcs key x
  pure (value.getD 0)

/-- `hashmap_has`. -/
def hashmapHas (map : Hashmap κ) (key : κ) : Except Fault Bool := do
  let i ← map.bucket key
  let x ← map.slot i
  let value ← findEntry map.funcs key x
  pure value.isSome

/-- `for(i = 0; i < map->size; ++i)`, the chains one after the other. -/
def Hashmap.walk {β : Type} (map : Hashmap κ) (visit : List (κ × Nat) → List β) :
    Except Fault (List β) := do
  let chains ← (List.range map.size).mapM map.slot
  pure (chains.flatMap visit)

/-- `hashmap_keys`, as the list's members. -/
def hashmapKeys (map : Hashmap κ) : Except Fault (List κ) := map.walk (List.map Prod.fst)

/-- `hashmap_values`, as the list's members. -/
def hashmapValues (map : Hashmap κ) : Except Fault (List Nat) := map.walk (List.map Prod.snd)

/-- `hashmap_size`. -/
def hashmapSize (map : Hashmap κ) : Except Fault Nat := do
  let counted ← map.walk (List.map fun _ => ())
  pure counted.length

/-- A sequence of `hashmap_set` calls: what they return, and the map afterwards. -/
def setAll : Hashmap κ → List (κ × Nat) → Except Fault (List Nat × Hashmap κ)
  | map, [] => .ok ([], map)
  | map, (key, value) :: sets => do
    let (out, map) ← hashmapSet map key value
    let (outs, map) ← setAll map sets
    pure (out :: outs, map)

end Operations

theorem mapM_ok {ε α β : Type} {f : α → Except ε β} {g : α → β} {l : List α}
    (h : ∀ a ∈ l, f a = .ok (g a)) : l.mapM f = .ok (l.map g) := by
  induction l with
  | nil => rfl
  | cons a l ih =>
    rw [List.mapM_cons, h a (by simp), ih fun b hb => h b (by simp [hb])]
    rfl

section Refinement

variable {κ α : Type} [DecidableEq α]

/-- The finite map from keys to values after the sets, in order. -/
def mapOf (m : α → Option Nat) (sets : List (α × Nat)) : α → Option Nat :=
  sets.foldl (fun m e => Function.update m e.1 (some e.2)) m

/-- The value each of the sets replaces, or `0`. -/
def previousValues (m : α → Option Nat) : List (α × Nat) → List Nat
  | [] => []
  | e :: sets => (m e.1).getD 0 :: previousValues (Function.update m e.1 (some e.2)) sets

/-- What can be read from the hash map is the finite map `m`; `denotes` says which key a `void *`
key stands for. -/
structure Hashmap.Holds (map : Hashmap κ) (denotes : κ → α → Prop) (m : α → Option Nat) :
    Prop where
  get : ∀ key a, denotes key a → hashmapGet map key = .ok ((m a).getD 0)
  has : ∀ key a, denotes key a → hashmapHas map key = .ok (m a).isSome
  listed : ∃ (keys : List κ) (present : List α),
    present.Nodup ∧ (∀ a, a ∈ present ↔ (m a).isSome) ∧
    hashmapKeys map = .ok keys ∧ List.Forall₂ denotes keys present ∧
    hashmapValues map = .ok (present.map fun a => (m a).getD 0) ∧
    hashmapSize map = .ok present.length

/-- Every sequence of `hashmap_set` calls acts on the hash map as on a finite map that starts
empty. -/
def Hashmap.RefinesMap (map : Hashmap κ) (denotes : κ → α → Prop) : Prop :=
  ∀ sets : List (κ × α × Nat), (∀ e ∈ sets, denotes e.1 e.2.1) →
    ∃ map', setAll map (sets.map fun e => (e.1, e.2.2)) =
        .ok (previousValues (fun _ => none) (sets.map Prod.snd), map') ∧
      map'.Holds denotes (mapOf (fun _ => none) (sets.map Prod.snd))

/-- What the functions of a map do with the keys `a`: `store a` is the key the map keeps. -/
structure HashFuncs.Lawful (f : HashFuncs κ) (denotes : κ → α → Prop) (store : α → κ)
    (hash : α → Nat) : Prop where
  denotes_store : ∀ a, denotes (store a) a
  hash_eq : ∀ {key a}, denotes key a → ∃ h, f.hashFunc key = .ok h ∧ h.toNat = hash a
  comp_eq : ∀ {key a} b, denotes key a → f.hashComp (store b) key = .ok (decide (a = b))
  dup_eq : ∀ {key a}, denotes key a → f.hashKeyDup key = .ok (store a)

variable {f : HashFuncs κ} {denotes : κ → α → Prop} {store : α → κ} {hash : α → Nat}

def stored (store : α → κ) (chain : List (α × Nat)) : List (κ × Nat) :=
  chain.map fun e => (store e.1, e.2)

omit [DecidableEq α] in
@[simp] theorem stored_cons (e : α × Nat) (chain : List (α × Nat)) :
    stored store (e :: chain) = (store e.1, e.2) :: stored store chain := rfl

theorem setEntry_eq (hf : f.Lawful denotes store hash) {key : κ} {a : α} (hk : denotes key a)
    (value : Nat) (chain : List (α × Nat)) :
    setEntry f key value (stored store chain) =
      .ok ((chain.lookup a).getD 0, stored store (HashTable.setChain a value chain)) := by
  induction chain with
  | nil =>
    change (f.hashKeyDup key >>= fun k => pure (0, [(k, value)])) = _
    rw [hf.dup_eq hk]
    rfl
  | cons e chain ih =>
    rw [stored_cons, setEntry, hf.comp_eq e.1 hk, HashTable.lookup_cons_ite, HashTable.setChain]
    by_cases ha : a = e.1
    · simp only [ha, decide_true, if_true]
      rfl
    · simp only [ha, Ne.symm ha, decide_false, if_false, ih]
      rfl

theorem findEntry_eq (hf : f.Lawful denotes store hash) {key : κ} {a : α} (hk : denotes key a)
    (chain : List (α × Nat)) : findEntry f key (stored store chain) = .ok (chain.lookup a) := by
  induction chain with
  | nil => rfl
  | cons e chain ih =>
    rw [stored_cons, findEntry, hf.comp_eq e.1 hk, HashTable.lookup_cons_ite]
    by_cases ha : a = e.1
    · simp only [ha, decide_true, if_true]
      rfl
    · simp only [ha, decide_false, if_false]
      exact ih

/-- The map has a slot for each of its buckets, and its chains are those of the table `t`. -/
structure Hashmap.Represents (map : Hashmap κ) (f : HashFuncs κ) (store : α → κ) (hash : α → Nat)
    (t : List (List (α × Nat))) : Prop where
  funcs : map.funcs = f
  size : map.size = t.length
  pos : 0 < t.length
  entries : map.entries = t.map (stored store)
  wellPlaced : HashTable.WellPlaced hash t

namespace Hashmap.Represents

variable {map : Hashmap κ} {t : List (List (α × Nat))}

omit [DecidableEq α] in
theorem slot_eq (h : map.Represents f store hash t) {i : Nat} {chain : List (α × Nat)}
    (hi : t[i]? = some chain) : map.slot i = .ok (stored store chain) := by
  rw [Hashmap.slot, h.entries, List.getElem?_map, hi]
  rfl

omit [DecidableEq α] in
theorem slot_bucketOf (h : map.Represents f store hash t) (a : α) :
    map.slot (hash a % t.length) = .ok (stored store (HashTable.bucketOf hash t a)) := by
  have hlt : hash a % t.length < t.length := Nat.mod_lt _ h.pos
  apply h.slot_eq
  rw [HashTable.bucketOf, List.getD_eq_getElem?_getD, List.getElem?_eq_getElem hlt,
    Option.getD_some]

theorem bucket_eq (h : map.Represents f store hash t) (hf : f.Lawful denotes store hash)
    {key : κ} {a : α} (hk : denotes key a) : map.bucket key = .ok (hash a % t.length) := by
  obtain ⟨n, hn, hash_n⟩ := hf.hash_eq hk
  rw [Hashmap.bucket, h.funcs, hn, h.size, ← hash_n]
  rfl

theorem set (h : map.Represents f store hash t) (hf : f.Lawful denotes store hash) {key : κ}
    {a : α} (hk : denotes key a) (value : Nat) :
    ∃ map', hashmapSet map key value = .ok ((HashTable.find hash t a).getD 0, map') ∧
      map'.Represents f store hash (HashTable.insert hash t a value) := by
  constructor
  constructor
  · rw [hashmapSet, h.bucket_eq hf hk]
    change (map.slot _ >>= _) = _
    rw [h.slot_bucketOf a]
    change (setEntry map.funcs key value _ >>= _) = _
    rw [h.funcs, setEntry_eq hf hk]
    rfl
  · constructor
    · rfl
    · rw [HashTable.length_insert]
      exact h.size
    · rw [HashTable.length_insert]
      exact h.pos
    · rw [HashTable.insert, List.map_set, ← h.entries]
    · exact h.wellPlaced.insert a value

theorem get (h : map.Represents f store hash t) (hf : f.Lawful denotes store hash) {key : κ}
    {a : α} (hk : denotes key a) :
    hashmapGet map key = .ok ((HashTable.find hash t a).getD 0) := by
  rw [hashmapGet, h.bucket_eq hf hk]
  change (map.slot _ >>= _) = _
  rw [h.slot_bucketOf a]
  change (findEntry map.funcs key _ >>= _) = _
  rw [h.funcs, findEntry_eq hf hk]
  rfl

theorem has (h : map.Represents f store hash t) (hf : f.Lawful denotes store hash) {key : κ}
    {a : α} (hk : denotes key a) :
    hashmapHas map key = .ok (HashTable.find hash t a).isSome := by
  rw [hashmapHas, h.bucket_eq hf hk]
  change (map.slot _ >>= _) = _
  rw [h.slot_bucketOf a]
  change (findEntry map.funcs key _ >>= _) = _
  rw [h.funcs, findEntry_eq hf hk]
  rfl

omit [DecidableEq α] in
theorem walk_eq {β : Type} (h : map.Represents f store hash t)
    (visit : κ × Nat → β) :
    map.walk (List.map visit) = .ok (t.flatten.map fun e => visit (store e.1, e.2)) := by
  have hslots : (List.range map.size).mapM map.slot = .ok (t.map (stored store)) := by
    have hg : ∀ i ∈ List.range map.size, map.slot i = .ok (stored store (t.getD i [])) := by
      intro i hi
      rw [List.mem_range, h.size] at hi
      apply h.slot_eq
      rw [List.getD_eq_getElem?_getD, List.getElem?_eq_getElem hi, Option.getD_some]
    rw [mapM_ok hg, h.size]
    congr 1
    apply List.ext_getElem
    · simp
    · intro i hi hi'
      rw [List.length_map] at hi'
      simp [List.getD_eq_getElem?_getD, List.getElem?_eq_getElem hi']
  rw [Hashmap.walk, hslots]
  change Except.ok ((t.map (stored store)).flatMap (List.map visit)) = _
  rw [List.flatMap_map, List.map_flatten, ← List.flatMap_def]
  congr 2
  funext chain
  rw [stored, List.map_map]
  rfl

theorem holds (h : map.Represents f store hash t) (hf : f.Lawful denotes store hash) :
    map.Holds denotes (HashTable.find hash t) := by
  have hfind : ∀ e ∈ t.flatten, HashTable.find hash t e.1 = some e.2 :=
    fun e he => h.wellPlaced.find_eq h.pos he
  constructor
  · intro key a hk
    exact h.get hf hk
  · intro key a hk
    exact h.has hf hk
  · refine ⟨t.flatten.map fun e => store e.1, t.flatten.map Prod.fst,
      h.wellPlaced.nodup_keys, ?_, ?_, ?_, ?_, ?_⟩
    · intro a
      constructor
      · intro ha
        obtain ⟨e, he, rfl⟩ := List.mem_map.1 ha
        rw [hfind e he]
        rfl
      · intro ha
        obtain ⟨v, hv⟩ := Option.isSome_iff_exists.1 ha
        exact List.mem_map.2 ⟨(a, v), (h.wellPlaced.mem_flatten h.pos a v).2 hv, rfl⟩
    · exact h.walk_eq Prod.fst
    · rw [List.forall₂_map_left_iff, List.forall₂_map_right_iff, List.forall₂_same]
      intro e _
      exact hf.denotes_store e.1
    · rw [hashmapValues, h.walk_eq Prod.snd, List.map_map]
      congr 1
      apply List.map_congr_left
      intro e he
      rw [Function.comp_apply, hfind e he, Option.getD_some]
    · rw [hashmapSize, h.walk_eq fun _ => ()]
      change Except.ok (List.map (fun _ => ()) t.flatten).length = _
      rw [List.length_map, List.length_map]

theorem setAll (h : map.Represents f store hash t) (hf : f.Lawful denotes store hash)
    (sets : List (κ × α × Nat)) (hsets : ∀ e ∈ sets, denotes e.1 e.2.1) :
    ∃ map' t', Libc.setAll map (sets.map fun e => (e.1, e.2.2)) =
        .ok (previousValues (HashTable.find hash t) (sets.map Prod.snd), map') ∧
      map'.Represents f store hash t' ∧
      HashTable.find hash t' = mapOf (HashTable.find hash t) (sets.map Prod.snd) := by
  induction sets generalizing map t with
  | nil => exact ⟨map, t, rfl, h, rfl⟩
  | cons e sets ih =>
    obtain ⟨map₁, hset, h₁⟩ := h.set hf (hsets e (by simp)) e.2.2
    obtain ⟨map₂, t₂, hrun, h₂, hfind⟩ := ih h₁ fun e' he' => hsets e' (by simp [he'])
    rw [HashTable.find_insert h.pos] at hrun hfind
    refine ⟨map₂, t₂, ?_, h₂, hfind⟩
    rw [List.map_cons, Libc.setAll, hset]
    change (Libc.setAll map₁ _ >>= _) = _
    rw [hrun]
    rfl

end Hashmap.Represents

omit [DecidableEq α] in
theorem Hashmap.represents_empty (f : HashFuncs κ) (store : α → κ) (hash : α → Nat) {n : Nat}
    (hn : 0 < n) :
    (Hashmap.mk f n (List.replicate n [])).Represents f store hash (List.replicate n []) := by
  constructor
  · rfl
  · rw [List.length_replicate]
  · rwa [List.length_replicate]
  · rw [List.map_replicate]
    rfl
  · exact HashTable.wellPlaced_empty n

theorem Hashmap.refinesMap_of_lawful (hf : f.Lawful denotes store hash) {n : Nat} (hn : 0 < n)
    {map : Hashmap κ} (hmap : map = ⟨f, n, List.replicate n []⟩) : map.RefinesMap denotes := by
  have h : map.Represents f store hash (List.replicate n []) := by
    rw [hmap]
    exact Hashmap.represents_empty f store hash hn
  have hempty : HashTable.find hash (List.replicate n []) = fun _ : α => (none : Option Nat) := by
    funext a
    exact HashTable.find_empty n a
  intro sets hsets
  obtain ⟨map', t', hrun, h', hfind⟩ := h.setAll hf sets hsets
  rw [hempty] at hrun hfind
  exact ⟨map', hrun, hfind ▸ h'.holds hf⟩

end Refinement

abbrev CText : Type := {s : List UInt8 // 0 ∉ s}

theorem nul_notMem_a : (0 : UInt8) ∉ [97] := by decide

theorem nul_notMem_b : (0 : UInt8) ∉ [98] := by decide

theorem nul_notMem_c : (0 : UInt8) ∉ [99] := by decide

/-- A `char *` key stands for the string it points to. -/
def DenotesText (key : Block) (a : CText) : Prop := CString key a.1

theorem stringHashLoop_eq {key : Block} {s : List UInt8} (h : CString key s) (hash : UInt32) :
    stringHashLoop hash key = .ok (s.foldl sdbm hash) := by
  obtain ⟨hs, r, rfl⟩ := h
  induction s generalizing hash with
  | nil => rfl
  | cons c s ih =>
    have hc : c ≠ 0 := fun he => hs (by simp [he])
    have htail : 0 ∉ s := fun h => hs (by simp [h])
    rw [List.cons_append, stringHashLoop, if_neg hc, List.foldl_cons]
    exact ih (sdbm hash c) htail

theorem hashmapStringComp_eq {a b : Block} {s t : List UInt8} (ha : CString a s)
    (hb : CString b t) : hashmapStringComp a b = .ok (decide (s = t)) := by
  obtain ⟨d, hd, hiff⟩ := strcmp_eq_zero ha hb
  rw [hashmapStringComp, hd]
  change Except.ok (decide (d = 0)) = _
  rw [decide_eq_decide.2 hiff]

theorem strdup_eq (junk : Nat → UInt8) {key : Block} {s : List UInt8} (h : CString key s) :
    strdup junk key = .ok (s ++ [0]) := by
  have hlen : (malloc junk (s.length + 1)).length = s.length + 1 := by simp [malloc]
  have hkey : s.length + 1 ≤ key.length := by
    obtain ⟨_, r, rfl⟩ := h
    simp
  rw [strdup, strlen_eq h]
  change memcpy (malloc junk (s.length + 1)) 0 key (s.length + 1) = _
  rw [memcpy, if_pos ⟨by omega, hkey⟩, h.take, List.take_zero, List.nil_append, Nat.zero_add,
    List.drop_eq_nil_of_le hlen.le, List.append_nil]

theorem stringFuncs_lawful (junk : Nat → UInt8) :
    (stringFuncs junk).Lawful DenotesText (fun a => a.1 ++ [0])
      fun a => (a.1.foldl sdbm 0).toNat := by
  constructor
  · intro a
    exact cString_terminated a.2
  · intro key a hk
    exact ⟨_, stringHashLoop_eq hk 0, rfl⟩
  · intro key a b hk
    apply (hashmapStringComp_eq (cString_terminated b.2) hk).trans
    rw [decide_eq_decide.2 (Subtype.ext_iff.symm.trans eq_comm)]
  · intro key a hk
    exact strdup_eq junk hk

theorem intFuncs_lawful : intFuncs.Lawful Eq (fun a => a) UInt32.toNat := by
  constructor
  · intro a
    rfl
  · intro key a hk
    exact ⟨key, rfl, by rw [hk]⟩
  · intro key a b hk
    rw [intFuncs, hk, decide_eq_decide.2 eq_comm]
  · intro key a hk
    rw [hk]
    rfl

theorem slotsFor_of_lt {n : Nat} (h : n < 2 ^ 30) : slotsFor n = n := by
  rw [slotsFor, u32_of_lt (by omega)]
  omega

theorem represents_create {α : Type} (junk : Nat → UInt8) (store : α → Block) (hash : α → Nat) {n : Nat} (hn : 0 < n)
    (hlt : n < 2 ^ 30) :
    (hashmapCreate junk n).Represents (stringFuncs junk) store hash (List.replicate n []) := by
  rw [hashmapCreate, slotsFor_of_lt hlt]
  exact Hashmap.represents_empty _ _ _ hn

theorem slotsFor_of_ge {n : Nat} (h : 2 ^ 30 ≤ n) (hn : n < 2 ^ 31) :
    slotsFor n = n - 2 ^ 30 := by
  rw [slotsFor, u32]
  omega

theorem hashmapSet_overrun {n : Nat} (h : 2 ^ 30 ≤ n) (hn : n < 2 ^ 31) :
    hashmapSet (hashmapCreateInt n) (UInt32.ofNat (slotsFor n)) 1 = .error .overrun := by
  have hslots := slotsFor_of_ge h hn
  have hkey : (UInt32.ofNat (slotsFor n)).toNat % n = slotsFor n := by
    have hlt : slotsFor n < UInt32.size := by
      rw [hslots, UInt32.size]
      omega
    rw [UInt32.toNat_ofNat_of_lt' hlt, Nat.mod_eq_of_lt (by omega)]
  have hbucket : (hashmapCreateInt n).bucket (UInt32.ofNat (slotsFor n)) = .ok (slotsFor n) :=
    congrArg Except.ok hkey
  have hslot : (hashmapCreateInt n).slot (slotsFor n) = .error .overrun := by
    rw [Hashmap.slot, hashmapCreateInt, List.getElem?_replicate, if_neg (Nat.lt_irrefl _)]
  rw [hashmapSet, hbucket]
  change ((hashmapCreateInt n).slot (slotsFor n) >>= _) = _
  rw [hslot]
  rfl

/-- The maps of both kinds are finite maps exactly when the size in bytes of their bucket array,
`4 * n`, does not wrap. -/
theorem hashmap_refinesMap_iff {n : Nat} (h : 1 ≤ n) (hn : n < 2 ^ 31) :
    ((∀ junk, (hashmapCreate junk n).RefinesMap DenotesText) ∧
        (hashmapCreateInt n).RefinesMap (fun key a : UInt32 => key = a)) ↔
      n < 2 ^ 30 := by
  constructor
  · intro hmaps
    by_contra hge
    have hset := hashmapSet_overrun (Nat.le_of_not_lt hge) hn
    let key := UInt32.ofNat (slotsFor n)
    obtain ⟨map', hrun, _⟩ := hmaps.2 [(key, key, 1)] (by simp)
    change (hashmapSet (hashmapCreateInt n) key 1 >>= _) = _ at hrun
    rw [hset] at hrun
    cases hrun
  · intro hlt
    constructor
    · intro junk
      apply Hashmap.refinesMap_of_lawful (stringFuncs_lawful junk) h
      rw [hashmapCreate, slotsFor_of_lt hlt]
    · apply Hashmap.refinesMap_of_lawful intFuncs_lawful h
      rw [hashmapCreateInt, slotsFor_of_lt hlt]

theorem hashmap_refinesMap_iff_one :
    (∀ junk, (hashmapCreate junk 1).RefinesMap DenotesText) ∧
      (hashmapCreateInt 1).RefinesMap (fun key a : UInt32 => key = a) :=
  (hashmap_refinesMap_iff (by decide) (by decide)).2 (by decide)

/-- A map of `2^30` buckets gets no memory for them, and its first `hashmap_set` leaves it. -/
theorem hashmapCreateInt_overrun :
    ¬ (hashmapCreateInt (2 ^ 30)).RefinesMap (fun key a : UInt32 => key = a) := by
  intro h
  obtain ⟨map', hrun, _⟩ := h [(0, 0, 1)] (by simp)
  have hset := hashmapSet_overrun (n := 2 ^ 30) (by decide) (by decide)
  change (hashmapSet (hashmapCreateInt (2 ^ 30)) 0 1 >>= _) = _ at hrun
  rw [slotsFor_of_ge (by decide) (by decide)] at hset
  rw [show (0 : UInt32) = UInt32.ofNat (2 ^ 30 - 2 ^ 30) from rfl, hset] at hrun
  cases hrun

end KernelTest.Libc
