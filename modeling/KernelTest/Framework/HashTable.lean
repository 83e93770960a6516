import Mathlib.Data.List.Nodup

/-!
# Hash tables with chained buckets

A table is the list of its buckets, a bucket the chain of its entries. A key is kept in the bucket
its hash names, so the table is the finite map that looks a key up in that one chain.
-/

namespace KernelTest.HashTable

variable {α ν : Type} [DecidableEq α]

/-- A chain after the value of `a` is set: in place, or at the end when `a` is not in it. -/
def setChain (a : α) (v : ν) : List (α × ν) → List (α × ν)
  | [] => [(a, v)]
  | e :: chain => if e.1 = a then (e.1, v) :: chain else e :: setChain a v chain

theorem lookup_cons_ite (e : α × ν) (chain : List (α × ν)) (b : α) :
    (e :: chain).lookup b = if b = e.1 then some e.2 else chain.lookup b := by
  cases e with
  | mk a v =>
    by_cases h : b = a
    · simp [h]
    · have hbeq : (b == a) = false := by simpa using h
      simp [List.lookup_cons, h, hbeq]

theorem lookup_setChain (a : α) (v : ν) (chain : List (α × ν)) (b : α) :
    (setChain a v chain).lookup b = if b = a then some v else chain.lookup b := by
  induction chain with
  | nil => simp [setChain, lookup_cons_ite]
  | cons e chain ih =>
    by_cases he : e.1 = a
    · rw [setChain, if_pos he, lookup_cons_ite, lookup_cons_ite, he]
      by_cases h : b = a <;> simp [h]
    · rw [setChain, if_neg he, lookup_cons_ite, lookup_cons_ite, ih]
      by_cases h : b = a
      · simp [h, Ne.symm he]
      · simp [h]

theorem keys_setChain (a : α) (v : ν) (chain : List (α × ν)) :
    (setChain a v chain).map Prod.fst =
      if a ∈ chain.map Prod.fst then chain.map Prod.fst else chain.map Prod.fst ++ [a] := by
  induction chain with
  | nil => simp [setChain]
  | cons e chain ih =>
    by_cases he : e.1 = a
    · simp [setChain, he]
    · rw [setChain, if_neg he, List.map_cons, ih]
      by_cases ha : a ∈ chain.map Prod.fst
      · simp only [List.map_cons, List.mem_cons, ha, or_true, if_true]
      · simp only [List.map_cons, List.mem_cons, ha, Ne.symm he, or_self, if_false,
          List.cons_append]

theorem nodup_setChain {a : α} {v : ν} {chain : List (α × ν)}
    (h : (chain.map Prod.fst).Nodup) : ((setChain a v chain).map Prod.fst).Nodup := by
  rw [keys_setChain]
  split
  · exact h
  · next ha => exact List.nodup_append.2 ⟨h, List.nodup_singleton a, by
      intro b hb c hc hbc
      rw [List.mem_singleton] at hc
      exact ha (hc ▸ hbc ▸ hb)⟩

theorem mem_iff_lookup {chain : List (α × ν)}
    (h : (chain.map Prod.fst).Nodup) (a : α) (v : ν) :
    (a, v) ∈ chain ↔ chain.lookup a = some v := by
  induction chain with
  | nil => simp
  | cons e chain ih =>
    rw [List.map_cons, List.nodup_cons] at h
    rw [List.mem_cons, lookup_cons_ite]
    by_cases hab : a = e.1
    · have hnot : (e.1, v) ∉ chain := fun hm => h.1 (List.mem_map.2 ⟨(e.1, v), hm, rfl⟩)
      simp [hnot, hab, Prod.ext_iff, eq_comm]
    · simp [hab, ih h.2, Prod.ext_iff]

theorem setChain_of_not_mem {a : α} {v : ν} {chain : List (α × ν)} (h : a ∉ chain.map Prod.fst) :
    setChain a v chain = chain ++ [(a, v)] := by
  induction chain with
  | nil => rfl
  | cons e chain ih =>
    rw [List.map_cons, List.mem_cons, not_or] at h
    rw [setChain, if_neg (Ne.symm h.1), ih h.2, List.cons_append]

variable (hash : α → Nat)

def bucketOf (t : List (List (α × ν))) (a : α) : List (α × ν) :=
  t.getD (hash a % t.length) []

def find (t : List (List (α × ν))) (a : α) : Option ν := (bucketOf hash t a).lookup a

def insert (t : List (List (α × ν))) (a : α) (v : ν) : List (List (α × ν)) :=
  t.set (hash a % t.length) (setChain a v (bucketOf hash t a))

structure WellPlaced (t : List (List (α × ν))) : Prop where
  placed : ∀ i chain, t[i]? = some chain → ∀ e ∈ chain, hash e.1 % t.length = i
  nodup : ∀ chain ∈ t, (chain.map Prod.fst).Nodup

variable {hash}

omit [DecidableEq α] in
theorem wellPlaced_empty (n : Nat) :
    WellPlaced hash (List.replicate n ([] : List (α × ν))) := by
  constructor
  · intro i chain h e he
    rw [List.eq_of_mem_replicate (List.mem_of_getElem? h)] at he
    simp at he
  · intro chain h
    simp [List.eq_of_mem_replicate h]

variable {t : List (List (α × ν))}

theorem find_empty (n : Nat) (a : α) :
    find hash (List.replicate n ([] : List (α × ν))) a = none := by
  rw [find, bucketOf, List.getD_eq_getElem?_getD, List.getElem?_replicate]
  split <;> rfl

theorem length_insert (a : α) (v : ν) : (insert hash t a v).length = t.length :=
  List.length_set

theorem insert_singleton (chain : List (α × ν)) (a : α) (v : ν) :
    insert hash [chain] a v = [setChain a v chain] := by
  have hbucket : hash a % [chain].length = 0 := Nat.mod_one _
  rw [insert, bucketOf, hbucket]
  rfl

theorem bucketOf_insert (ht : 0 < t.length) (a b : α) (v : ν) :
    bucketOf hash (insert hash t a v) b =
      if hash b % t.length = hash a % t.length then setChain a v (bucketOf hash t a)
      else bucketOf hash t b := by
  have hlt : hash a % t.length < t.length := Nat.mod_lt _ ht
  rw [bucketOf, length_insert, insert, List.getD_eq_getElem?_getD, List.getElem?_set]
  split
  · next h =>
    rw [if_pos h.symm, Option.getD_some]
  · next h => rw [if_neg (Ne.symm h), bucketOf, List.getD_eq_getElem?_getD]

theorem find_insert (ht : 0 < t.length) (a : α) (v : ν) :
    find hash (insert hash t a v) = Function.update (find hash t) a (some v) := by
  funext b
  rw [find, bucketOf_insert ht, Function.update_apply]
  split
  · next h =>
    rw [lookup_setChain]
    split
    · rfl
    · rw [find, bucketOf, bucketOf, h]
  · next h =>
    rw [if_neg (fun hab => h (by rw [hab])), find]

omit [DecidableEq α] in
theorem WellPlaced.nodup_bucketOf (h : WellPlaced hash t) (a : α) :
    ((bucketOf hash t a).map Prod.fst).Nodup := by
  rw [bucketOf, List.getD_eq_getElem?_getD]
  cases hc : t[hash a % t.length]? with
  | none => simp
  | some chain => exact h.nodup chain (List.mem_of_getElem? hc)

omit [DecidableEq α] in
theorem WellPlaced.placed_bucketOf (h : WellPlaced hash t) (a : α) {e : α × ν}
    (he : e ∈ bucketOf hash t a) : hash e.1 % t.length = hash a % t.length := by
  rw [bucketOf, List.getD_eq_getElem?_getD] at he
  cases hc : t[hash a % t.length]? with
  | none => simp [hc] at he
  | some chain => exact h.placed _ chain hc e (by simpa [hc] using he)

omit [DecidableEq α] in
theorem WellPlaced.setBucket (h : WellPlaced hash t) {k : Nat} {chain : List (α × ν)}
    (hplaced : ∀ e ∈ chain, hash e.1 % t.length = k) (hnodup : (chain.map Prod.fst).Nodup) :
    WellPlaced hash (t.set k chain) := by
  constructor
  · intro i chain' hi e he
    rw [List.length_set]
    rw [List.getElem?_set] at hi
    split at hi
    · next hik =>
      split at hi
      · cases hi
        rw [← hik]
        exact hplaced e he
      · cases hi
    · exact h.placed i chain' hi e he
  · intro chain' hc
    cases List.mem_or_eq_of_mem_set hc with
    | inl hold => exact h.nodup chain' hold
    | inr hnew => exact hnew ▸ hnodup

theorem WellPlaced.insert (h : WellPlaced hash t) (a : α) (v : ν) :
    WellPlaced hash (insert hash t a v) := by
  refine h.setBucket (fun e he => ?_) (nodup_setChain (h.nodup_bucketOf a))
  have hk : e.1 ∈ (setChain a v (bucketOf hash t a)).map Prod.fst := List.mem_map_of_mem he
  rw [keys_setChain] at hk
  have hmem : e.1 ∈ (bucketOf hash t a).map Prod.fst ∨ e.1 = a := by
    split at hk
    · exact Or.inl hk
    · simpa using hk
  cases hmem with
  | inl hold =>
    obtain ⟨e', he', heq⟩ := List.mem_map.1 hold
    rw [← heq, h.placed_bucketOf a he']
  | inr hnew => rw [hnew]

omit [DecidableEq α] in
theorem WellPlaced.nodup_keys (h : WellPlaced hash t) : (t.flatten.map Prod.fst).Nodup := by
  rw [List.map_flatten, List.nodup_flatten]
  constructor
  · intro keys hk
    obtain ⟨chain, hc, rfl⟩ := List.mem_map.1 hk
    exact h.nodup chain hc
  · rw [List.pairwise_map, List.pairwise_iff_getElem]
    intro i j hi hj hij a hai haj
    obtain ⟨e, he, rfl⟩ := List.mem_map.1 hai
    obtain ⟨e', he', heq⟩ := List.mem_map.1 haj
    have hpi := h.placed i _ (List.getElem?_eq_getElem hi) e he
    have hpj := h.placed j _ (List.getElem?_eq_getElem hj) e' he'
    rw [heq] at hpj
    omega

theorem WellPlaced.mem_flatten (h : WellPlaced hash t) (ht : 0 < t.length) (a : α) (v : ν) :
    (a, v) ∈ t.flatten ↔ find hash t a = some v := by
  rw [find, ← mem_iff_lookup (h.nodup_bucketOf a), List.mem_flatten]
  have hlt : hash a % t.length < t.length := Nat.mod_lt _ ht
  have hbucket : t[hash a % t.length]? = some (bucketOf hash t a) := by
    rw [bucketOf, List.getD_eq_getElem?_getD, List.getElem?_eq_getElem hlt]
    rfl
  constructor
  · rintro ⟨chain, hc, hm⟩
    obtain ⟨i, hi⟩ := List.mem_iff_getElem?.1 hc
    have hpi : hash a % t.length = i := h.placed i chain hi (a, v) hm
    rw [← hpi, hbucket] at hi
    cases hi
    exact hm
  · intro hm
    exact ⟨_, List.mem_of_getElem? hbucket, hm⟩

theorem WellPlaced.find_eq (h : WellPlaced hash t) (ht : 0 < t.length) {e : α × ν}
    (he : e ∈ t.flatten) : find hash t e.1 = some e.2 :=
  (h.mem_flatten ht e.1 e.2).1 he

def eraseChain (a : α) (chain : List (α × ν)) : List (α × ν) := chain.eraseP fun e => e.1 = a

theorem eraseChain_sublist (a : α) (chain : List (α × ν)) : (eraseChain a chain).Sublist chain :=
  List.eraseP_sublist

theorem eraseChain_cons (a : α) (e : α × ν) (chain : List (α × ν)) :
    eraseChain a (e :: chain) = if e.1 = a then chain else e :: eraseChain a chain := by
  by_cases h : e.1 = a
  · simp [eraseChain, h]
  · simp [eraseChain, h]

theorem nodup_eraseChain {a : α} {chain : List (α × ν)} (h : (chain.map Prod.fst).Nodup) :
    ((eraseChain a chain).map Prod.fst).Nodup :=
  ((eraseChain_sublist a chain).map Prod.fst).nodup h

theorem lookup_eraseChain {a : α} {chain : List (α × ν)} (h : (chain.map Prod.fst).Nodup) (b : α) :
    (eraseChain a chain).lookup b = if b = a then none else chain.lookup b := by
  induction chain with
  | nil => simp [eraseChain]
  | cons e chain ih =>
    rw [List.map_cons, List.nodup_cons] at h
    rw [eraseChain_cons, lookup_cons_ite]
    by_cases he : e.1 = a
    · rw [if_pos he]
      by_cases hb : b = a
      · have hgone : chain.lookup b = none := by
          rw [List.lookup_eq_none_iff]
          intro p hp
          have hne : p.1 ≠ e.1 := fun heq => h.1 (heq ▸ List.mem_map_of_mem hp)
          simpa [hb, ← he] using hne.symm
        rw [if_pos hb, hgone]
      · rw [if_neg hb, if_neg (fun hbe => hb (hbe.trans he))]
    · rw [if_neg he, lookup_cons_ite, ih h.2]
      by_cases hbe : b = e.1
      · rw [if_pos hbe, if_pos hbe, if_neg (fun hba => he (hbe ▸ hba))]
      · rw [if_neg hbe, if_neg hbe]

variable (hash)

def erase (t : List (List (α × ν))) (a : α) : List (List (α × ν)) :=
  t.set (hash a % t.length) (eraseChain a (bucketOf hash t a))

variable {hash}

theorem length_erase (a : α) : (erase hash t a).length = t.length := List.length_set

theorem bucketOf_erase (ht : 0 < t.length) (a b : α) :
    bucketOf hash (erase hash t a) b =
      if hash b % t.length = hash a % t.length then eraseChain a (bucketOf hash t a)
      else bucketOf hash t b := by
  have hlt : hash a % t.length < t.length := Nat.mod_lt _ ht
  rw [bucketOf, length_erase, erase, List.getD_eq_getElem?_getD, List.getElem?_set]
  split
  · next h =>
    rw [if_pos h.symm, Option.getD_some]
  · next h => rw [if_neg (Ne.symm h), bucketOf, List.getD_eq_getElem?_getD]

theorem find_erase (h : WellPlaced hash t) (ht : 0 < t.length) (a : α) :
    find hash (erase hash t a) = Function.update (find hash t) a none := by
  funext b
  rw [find, bucketOf_erase ht, Function.update_apply]
  split
  · next hb =>
    rw [lookup_eraseChain (h.nodup_bucketOf a)]
    split
    · rfl
    · rw [find, bucketOf, bucketOf, hb]
  · next hb => rw [if_neg (fun hab => hb (by rw [hab])), find]

theorem WellPlaced.erase (h : WellPlaced hash t) (a : α) : WellPlaced hash (erase hash t a) :=
  h.setBucket (fun _ he => h.placed_bucketOf a ((eraseChain_sublist a _).subset he))
    (nodup_eraseChain (h.nodup_bucketOf a))

end KernelTest.HashTable
