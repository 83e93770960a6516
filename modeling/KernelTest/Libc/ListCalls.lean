import KernelTest.Libc.ListStore
import Mathlib.Data.List.InsertIdx
import Mathlib.Logic.Relation

/-!
# Sequences of list operations

Every operation of `list.cpp` that changes lists, and what it does to the sequences of nodes: all
lists stay well formed, in any sequence of calls.
-/

namespace KernelTest.Libc

variable {ν κ α : Type} [DecidableEq ν] [DecidableEq κ]

/-- The node that is `k` steps behind `p`. -/
def nodeAfter (m : ListMem ν κ α) : Nat → Option ν → Option ν
  | _, none => none
  | 0, some n => some n
  | k + 1, some n => nodeAfter m k (m.links n).next

/-- The loop of `list_remove`, which follows `next` without a test. -/
def walk (m : ListMem ν κ α) : Nat → Option ν → Except ListFault (Option ν)
  | 0, p => .ok p
  | _ + 1, none => .error .nullPointer
  | k + 1, some n => walk m k (m.links n).next

/-- `list_remove(list, index)`. -/
def listRemove (m : ListMem ν κ α) (l : κ) (index : Nat) : Except ListFault (ListMem ν κ α) :=
  if m.length l < index then
    .ok m
  else do
    match ← walk m index (m.head l) with
    | none => .error .nullPointer
    | some n => listDelete m l n

/-- `list_get(list, index)`, for an index that is not negative. -/
def listGet (m : ListMem ν κ α) (l : κ) (index : Nat) : Option ν := nodeAfter m index (m.head l)

/-- The loop of `list_clear`. -/
def clearLoop (l : κ) : Nat → ListMem ν κ α → Except ListFault (ListMem ν κ α)
  | 0, _ => .error .endless
  | k + 1, m =>
    match listGet m l 0 with
    | none => .ok m
    | some _ => listRemove m l 0 >>= clearLoop l k

/-- `list_clear(list)`. -/
def listClear (m : ListMem ν κ α) (l : κ) : Except ListFault (ListMem ν κ α) :=
  clearLoop l (m.length l + 1) m

namespace Lists

variable {m : ListMem ν κ α} {L : κ → Option (List ν)} {l : κ} {xs : List ν} {n : ν}

omit [DecidableEq ν] [DecidableEq κ] in
private theorem walk_eq {p : Option ν} {index : Nat} (h : Links.Seg m.links p xs none)
    (hindex : index < xs.length) : walk m index xs.head? = .ok (some xs[index]) := by
  induction xs generalizing p index with
  | nil => cases hindex
  | cons x xs ih =>
    rw [Links.seg_cons] at h
    cases index with
    | zero => rfl
    | succ index =>
      have hnext : (m.links x).next = xs.head? := by simpa using h.2.1
      rw [List.head?_cons, walk, hnext, ih h.2.2 (by simpa using hindex)]
      rfl

theorem remove {index : Nat} (h : Lists m L) (hl : L l = some xs) (hindex : index < xs.length) :
    ∃ m', listRemove m l index = .ok m' ∧
      Lists m' (Function.update L l (some (xs.eraseIdx index))) ∧ m'.value = m.value := by
  have hlist := h l xs hl
  have hlength : ¬ m.length l < index := by
    rw [hlist.length]
    omega
  obtain ⟨m', hrun, hlists, hvalue⟩ := h.delete hl (List.getElem_mem hindex)
  rw [hlist.nodup.erase_getElem] at hlists
  refine ⟨m', ?_, hlists, hvalue⟩
  rw [listRemove, if_neg hlength, hlist.head, walk_eq hlist.linked hindex]
  exact hrun

omit [DecidableEq ν] [DecidableEq κ] in
private theorem walk_length {p : Option ν} (h : Links.Seg m.links p xs none) :
    walk m xs.length xs.head? = .ok none := by
  induction xs generalizing p with
  | nil => rfl
  | cons x xs ih =>
    rw [Links.seg_cons] at h
    have hnext : (m.links x).next = xs.head? := by simpa using h.2.1
    rw [List.head?_cons, List.length_cons, walk, hnext]
    exact ih h.2.2

theorem remove_length (h : Lists m L) (hl : L l = some xs) :
    listRemove m l xs.length = .error .nullPointer := by
  have hlist := h l xs hl
  rw [listRemove, if_neg (by rw [hlist.length]; exact Nat.lt_irrefl _), hlist.head, walk_length hlist.linked]
  rfl

private theorem clearLoop_nil {k : Nat} (h : IsList m l []) : clearLoop l (k + 1) m = .ok m := by
  have hhead : m.head l = none := h.head
  rw [clearLoop, listGet, hhead]
  rfl

theorem clear (h : Lists m L) (hl : L l = some xs) :
    ∃ m', listClear m l = .ok m' ∧ Lists m' (Function.update L l (some [])) ∧
      m'.value = m.value := by
  rw [listClear, (h l xs hl).length]
  induction xs generalizing m L with
  | nil =>
    refine ⟨m, clearLoop_nil (h l [] hl), ?_, rfl⟩
    rwa [← hl, Function.update_eq_self]
  | cons x xs ih =>
    have hhead : m.head l = some x := (h l _ hl).head
    obtain ⟨m₁, hrun, hlists, hvalue⟩ := h.remove hl (Nat.zero_lt_succ xs.length)
    obtain ⟨m', hrest, hlists', hvalue'⟩ := ih hlists (by simp)
    rw [Function.update_idem] at hlists'
    refine ⟨m', ?_, hlists', hvalue'.trans hvalue⟩
    rw [List.length_cons, clearLoop, listGet, hhead]
    show listRemove m l 0 >>= clearLoop l (xs.length + 1) = _
    rw [hrun]
    exact hrest

end Lists

/-- A call of one of the list functions, with the node that `list_insert` and its variants get from
`malloc`. -/
inductive ListCall (ν κ α : Type)
  | append (l : κ) (n : ν)
  | insert (l : κ) (n : ν) (v : α)
  | appendAfter (l : κ) (before : Option ν) (n : ν)
  | insertAfter (l : κ) (before : Option ν) (n : ν) (v : α)
  | appendBefore (l : κ) (after : Option ν) (n : ν)
  | insertBefore (l : κ) (after : Option ν) (n : ν) (v : α)
  | delete (l : κ) (n : ν)
  | pop (l : κ)
  | dequeue (l : κ)
  | remove (l : κ) (index : Nat)
  | merge (target source : κ)
  | clear (l : κ)

namespace ListCall

/-- The functions of `list.cpp`, with the node that they return. -/
def run (m : ListMem ν κ α) : ListCall ν κ α → Except ListFault (ListMem ν κ α × Option ν)
  | append l n => (listAppend m l n).map (·, none)
  | insert l n v => (listInsert m l n v).map (·, some n)
  | appendAfter l before n => (listAppendAfter m l before n).map (·, none)
  | insertAfter l before n v => (listInsertAfter m l before n v).map (·, some n)
  | appendBefore l after n => (listAppendBefore m l after n).map (·, none)
  | insertBefore l after n v => (listInsertBefore m l after n v).map (·, some n)
  | delete l n => (listDelete m l n).map (·, none)
  | pop l => listPop m l
  | dequeue l => listDequeue m l
  | remove l index => (listRemove m l index).map (·, none)
  | merge target source => (listMerge m target source).map (·, none)
  | clear l => (listClear m l).map (·, none)

def list : ListCall ν κ α → κ
  | append l _ | insert l _ _ | appendAfter l _ _ | insertAfter l _ _ _ => l
  | appendBefore l _ _ | insertBefore l _ _ _ | delete l _ | pop l | dequeue l => l
  | remove l _ | merge l _ | clear l => l

/-- Behind which place of `xs` a node goes that is inserted after `before`. -/
def indexAfter (xs : List ν) : Option ν → Nat
  | none => 0
  | some b => xs.idxOf b + 1

/-- At which place of `xs` a node goes that is inserted before `after`. -/
def indexBefore (xs : List ν) : Option ν → Nat
  | none => xs.length
  | some a => xs.idxOf a

/-- What a call does to the nodes of its list; `ys` are those of the source of a merge. -/
def nodes (xs ys : List ν) : ListCall ν κ α → List ν
  | append _ n | insert _ n _ => xs ++ [n]
  | appendAfter _ before n | insertAfter _ before n _ => xs.insertIdx (indexAfter xs before) n
  | appendBefore _ after n | insertBefore _ after n _ => xs.insertIdx (indexBefore xs after) n
  | delete _ n => xs.erase n
  | pop _ => xs.dropLast
  | dequeue _ => xs.tail
  | remove _ index => xs.eraseIdx index
  | merge _ _ => xs ++ ys
  | clear _ => []

def returned (xs : List ν) : ListCall ν κ α → Option ν
  | insert _ n _ | insertAfter _ _ n _ | insertBefore _ _ n _ => some n
  | pop _ => xs.getLast?
  | dequeue _ => xs.head?
  | _ => none

/-- What a call does to the lists `L`: a merge consumes its source. -/
def apply (L : κ → Option (List ν)) (call : ListCall ν κ α) : κ → Option (List ν) :=
  let xs := (L call.list).getD []
  match call with
  | merge target source =>
    Function.update (Function.update L source none) target
      (some (nodes xs ((L source).getD []) call))
  | _ => Function.update L call.list (some (nodes xs [] call))

/-- What a call does to the values of the nodes. -/
def values (value : ν → α) : ListCall ν κ α → ν → α
  | insert _ n v | insertAfter _ _ n v | insertBefore _ _ n v => Function.update value n v
  | _ => value

/-- `n` has null links and no owner. -/
def Fresh (m : ListMem ν κ α) (n : ν) : Prop := m.links n = ⟨none, none⟩ ∧ m.owner n = none

/-- `n` is memory that no list uses. -/
def Unused (L : κ → Option (List ν)) (n : ν) : Prop := ∀ l xs, L l = some xs → n ∉ xs

/-- Inserted nodes are fresh, or unused memory; what they are inserted at is null or in the list, and
so is what is deleted; indices are in range, and a list is not merged with itself. -/
def Allowed (m : ListMem ν κ α) (L : κ → Option (List ν)) (call : ListCall ν κ α) : Prop :=
  ∃ xs, L call.list = some xs ∧
    match call with
    | append _ n => Fresh m n
    | insert _ n _ => Unused L n
    | appendAfter _ p n | appendBefore _ p n => Fresh m n ∧ ∀ b, p = some b → b ∈ xs
    | insertAfter _ p n _ | insertBefore _ p n _ => Unused L n ∧ ∀ b, p = some b → b ∈ xs
    | delete _ n => n ∈ xs
    | remove _ index => index < xs.length
    | merge target source => target ≠ source ∧ ∃ ys, L source = some ys
    | _ => True

/-- One allowed call; the lists change as `apply` says. -/
def Step (s s' : ListMem ν κ α × (κ → Option (List ν))) : Prop :=
  ∃ (call : ListCall ν κ α) (r : Option ν), Allowed s.1 s.2 call ∧ call.run s.1 = .ok (s'.1, r) ∧
    s'.2 = call.apply s.2

variable {m : ListMem ν κ α} {L : κ → Option (List ν)} {l : κ} {xs ys : List ν} {n : ν}

omit [DecidableEq ν] [DecidableEq κ] in
private theorem Fresh.unused (hn : Fresh m n) (h : Lists m L) : Unused L n := by
  intro l xs hl hmem
  have howner := (h l xs hl).owned n hmem
  rw [hn.2] at howner
  cases howner

omit [DecidableEq ν] in
private theorem insertIdx_append (xs ys : List ν) (n : ν) :
    (xs ++ ys).insertIdx xs.length n = xs ++ n :: ys := by
  induction xs with
  | nil => rfl
  | cons x xs ih =>
    rw [List.cons_append, List.length_cons, List.insertIdx_succ_cons, ih]
    rfl

private theorem idxOf_append {front back : List ν} {b : ν} (hb : b ∉ front) :
    (front ++ b :: back).idxOf b = front.length := by
  rw [List.idxOf_append_of_notMem hb, List.idxOf_cons_self, Nat.add_zero]

private theorem exists_split_after {before : Option ν} (hbefore : ∀ b, before = some b → b ∈ xs) :
    ∃ front back, xs = front ++ back ∧ before = front.getLast? ∧
      ∀ n, xs.insertIdx (indexAfter xs before) n = front ++ n :: back := by
  cases before with
  | none => exact ⟨[], xs, rfl, rfl, fun n => rfl⟩
  | some b =>
    obtain ⟨front, back, rfl, hb⟩ := List.eq_append_cons_of_mem (hbefore b rfl)
    refine ⟨front ++ [b], back, by simp, by simp, fun n => ?_⟩
    have hindex : indexAfter (front ++ b :: back) (some b) = (front ++ [b]).length := by
      rw [indexAfter, idxOf_append hb]
      simp
    rw [hindex, List.append_cons front b back, insertIdx_append]

private theorem exists_split_before {after : Option ν} (hafter : ∀ a, after = some a → a ∈ xs) :
    ∃ front back, xs = front ++ back ∧ after = back.head? ∧
      ∀ n, xs.insertIdx (indexBefore xs after) n = front ++ n :: back := by
  cases after with
  | none => exact ⟨xs, [], by simp, rfl, fun n => List.insertIdx_length_self⟩
  | some a =>
    obtain ⟨front, back, rfl, ha⟩ := List.eq_append_cons_of_mem (hafter a rfl)
    refine ⟨front, a :: back, rfl, rfl, fun n => ?_⟩
    rw [indexBefore, idxOf_append ha, insertIdx_append]

/-- What an allowed call does: it succeeds, the lists change as `apply` says, and so do the values. -/
def Refines (m : ListMem ν κ α) (L : κ → Option (List ν)) (call : ListCall ν κ α) : Prop :=
  ∃ m', call.run m = .ok (m', call.returned ((L call.list).getD [])) ∧ Lists m' (call.apply L) ∧
    m'.value = call.values m.value

private theorem apply_eq {call : ListCall ν κ α} (hmerge : ∀ target source, call ≠ merge target source)
    (hl : L call.list = some xs) :
    call.apply L = Function.update L call.list (some (call.nodes xs [])) := by
  have hxs : (L call.list).getD [] = xs := by
    rw [hl]
    rfl
  rw [← hxs]
  cases call with
  | merge target source => exact absurd rfl (hmerge target source)
  | _ => rfl

omit [DecidableEq ν] [DecidableEq κ] in
private theorem map_ok {x : Except ListFault (ListMem ν κ α)} {m' : ListMem ν κ α} (r : Option ν)
    (hrun : x = .ok m') : x.map (·, r) = .ok (m', r) := by
  rw [hrun]
  rfl

private theorem refines_put {call : ListCall ν κ α} {m₁ : ListMem ν κ α} {zs : List ν}
    (h : Lists m₁ L) (hmerge : ∀ target source, call ≠ merge target source)
    (hl : L call.list = some xs) (hn : Unused L n) (hnodes : call.nodes xs [] = zs)
    (hvalues : call.values m.value = m₁.value)
    (hcall : ∃ m', call.run m = .ok (m', call.returned xs) ∧ IsList m' call.list zs ∧
      Relinked m₁ m' call.list n) : call.Refines m L := by
  obtain ⟨m', hrun, hlist, hframe⟩ := hcall
  rw [Refines, apply_eq hmerge hl, hl, hnodes]
  refine ⟨m', hrun, ?_, hframe.value.trans hvalues.symm⟩
  exact h.of_relinked hlist hframe fun l' ys _ hl' => hn l' ys hl'

theorem Refines.append (h : Lists m L) (hl : L l = some xs) (hn : Fresh m n) :
    (append l n : ListCall ν κ α).Refines m L := by
  have hunused := hn.unused h
  obtain ⟨m', hrun, hlist, hframe⟩ := (h l xs hl).append (hunused l xs hl)
  exact refines_put h nofun hl hunused rfl rfl ⟨m', map_ok none hrun, hlist, hframe⟩

theorem Refines.insert (h : Lists m L) (hl : L l = some xs) (hn : Unused L n) (v : α) :
    (insert l n v).Refines m L := by
  obtain ⟨m', hrun, hlist, hframe⟩ := (h l xs hl).insert (hn l xs hl) v
  have h₁ := h.initNode hn v
  exact refines_put h₁ nofun hl hn rfl rfl ⟨m', map_ok (some n) hrun, hlist, hframe⟩

theorem Refines.appendAfter {before : Option ν} (h : Lists m L) (hl : L l = some xs)
    (hn : Fresh m n) (hbefore : ∀ b, before = some b → b ∈ xs) :
    (appendAfter l before n : ListCall ν κ α).Refines m L := by
  have hunused := hn.unused h
  obtain ⟨front, back, rfl, hlast, hindex⟩ := exists_split_after hbefore
  obtain ⟨m', hrun, hlist, hframe⟩ := (h l _ hl).appendAfter (hunused l _ hl) (by rw [hn.1])
    (.inl hlast)
  exact refines_put h nofun hl hunused (hindex n) rfl ⟨m', map_ok none hrun, hlist, hframe⟩

theorem Refines.insertAfter {before : Option ν} (h : Lists m L) (hl : L l = some xs)
    (hn : Unused L n) (hbefore : ∀ b, before = some b → b ∈ xs) (v : α) :
    (insertAfter l before n v).Refines m L := by
  obtain ⟨front, back, rfl, hlast, hindex⟩ := exists_split_after hbefore
  obtain ⟨m', hrun, hlist, hframe⟩ := (h l _ hl).insertAfter (hn l _ hl) (.inl hlast) v
  have h₁ := h.initNode hn v
  exact refines_put h₁ nofun hl hn (hindex n) rfl ⟨m', map_ok (some n) hrun, hlist, hframe⟩

theorem Refines.appendBefore {after : Option ν} (h : Lists m L) (hl : L l = some xs)
    (hn : Fresh m n) (hafter : ∀ a, after = some a → a ∈ xs) :
    (appendBefore l after n : ListCall ν κ α).Refines m L := by
  have hunused := hn.unused h
  obtain ⟨front, back, rfl, hfirst, hindex⟩ := exists_split_before hafter
  obtain ⟨m', hrun, hlist, hframe⟩ := (h l _ hl).appendBefore (hunused l _ hl) hn.1 (.inl hfirst)
  exact refines_put h nofun hl hunused (hindex n) rfl ⟨m', map_ok none hrun, hlist, hframe⟩

theorem Refines.insertBefore {after : Option ν} (h : Lists m L) (hl : L l = some xs)
    (hn : Unused L n) (hafter : ∀ a, after = some a → a ∈ xs) (v : α) :
    (insertBefore l after n v).Refines m L := by
  obtain ⟨front, back, rfl, hfirst, hindex⟩ := exists_split_before hafter
  obtain ⟨m', hrun, hlist, hframe⟩ := (h l _ hl).insertBefore (hn l _ hl) (.inl hfirst) v
  have h₁ := h.initNode hn v
  exact refines_put h₁ nofun hl hn (hindex n) rfl ⟨m', map_ok (some n) hrun, hlist, hframe⟩

private theorem refines_take {call : ListCall ν κ α}
    (hmerge : ∀ target source, call ≠ merge target source) (hl : L call.list = some xs)
    (hvalues : call.values m.value = m.value)
    (hcall : ∃ m', call.run m = .ok (m', call.returned xs) ∧
      Lists m' (Function.update L call.list (some (call.nodes xs []))) ∧ m'.value = m.value) :
    call.Refines m L := by
  obtain ⟨m', hrun, hlists, hvalue⟩ := hcall
  rw [Refines, apply_eq hmerge hl, hl]
  exact ⟨m', hrun, hlists, hvalue.trans hvalues.symm⟩

theorem Refines.delete (h : Lists m L) (hl : L l = some xs) (hn : n ∈ xs) :
    (delete l n : ListCall ν κ α).Refines m L := by
  obtain ⟨m', hrun, hlists, hvalue⟩ := h.delete hl hn
  exact refines_take nofun hl rfl ⟨m', map_ok none hrun, hlists, hvalue⟩

theorem Refines.pop (h : Lists m L) (hl : L l = some xs) : (pop l : ListCall ν κ α).Refines m L := by
  apply refines_take nofun hl rfl
  rcases List.eq_nil_or_concat' xs with rfl | ⟨ys, n, rfl⟩
  · refine ⟨m, (h l [] hl).pop_nil, ?_, rfl⟩
    have hsame := Function.update_eq_self l L
    rw [hl] at hsame
    exact hsame.symm ▸ h
  · have htail : m.tail l = some n := by simpa using (h l _ hl).tail
    have hlast : n ∉ ys :=
      fun hmem => (List.nodup_append.1 (h l _ hl).nodup).2.2 n hmem n (by simp) rfl
    obtain ⟨m', hrun, hlists, hvalue⟩ := h.delete hl (by simp : n ∈ ys ++ [n])
    rw [List.erase_append_right _ hlast, List.erase_cons_head, List.append_nil] at hlists
    have hnodes : (pop l : ListCall ν κ α).nodes (ys ++ [n]) [] = ys := List.dropLast_concat
    have hreturned : (pop l : ListCall ν κ α).returned (ys ++ [n]) = some n := List.getLast?_concat
    rw [hnodes, hreturned]
    exact ⟨m', listPop_of_delete htail hrun, hlists, hvalue⟩

theorem Refines.dequeue (h : Lists m L) (hl : L l = some xs) :
    (dequeue l : ListCall ν κ α).Refines m L := by
  apply refines_take nofun hl rfl
  cases xs with
  | nil =>
    refine ⟨m, (h l [] hl).dequeue_nil, ?_, rfl⟩
    have hsame := Function.update_eq_self l L
    rw [hl] at hsame
    exact hsame.symm ▸ h
  | cons n ys =>
    have hhead : m.head l = some n := (h l _ hl).head
    obtain ⟨m', hrun, hlists, hvalue⟩ := h.delete hl (by simp : n ∈ n :: ys)
    rw [List.erase_cons_head] at hlists
    exact ⟨m', listDequeue_of_delete hhead hrun, hlists, hvalue⟩

theorem Refines.remove {index : Nat} (h : Lists m L) (hl : L l = some xs)
    (hindex : index < xs.length) : (remove l index : ListCall ν κ α).Refines m L := by
  obtain ⟨m', hrun, hlists, hvalue⟩ := h.remove hl hindex
  exact refines_take nofun hl rfl ⟨m', map_ok none hrun, hlists, hvalue⟩

theorem Refines.clear (h : Lists m L) (hl : L l = some xs) :
    (clear l : ListCall ν κ α).Refines m L := by
  obtain ⟨m', hrun, hlists, hvalue⟩ := h.clear hl
  exact refines_take nofun hl rfl ⟨m', map_ok none hrun, hlists, hvalue⟩

theorem Refines.merge {l' : κ} (h : Lists m L) (hl : L l = some xs) (hl' : L l' = some ys)
    (hne : l ≠ l') : (merge l l' : ListCall ν κ α).Refines m L := by
  obtain ⟨m', hrun, hlists, hvalue⟩ := h.merge hl hl' hne
  refine ⟨m', map_ok none hrun, ?_, hvalue⟩
  simpa only [ListCall.apply, nodes, list, hl, hl', Option.getD_some] using hlists

theorem refines {call : ListCall ν κ α} (h : Lists m L) (hcall : Allowed m L call) :
    call.Refines m L := by
  obtain ⟨xs, hl, hcall⟩ := hcall
  cases call with
  | append l n => exact .append h hl hcall
  | insert l n v => exact .insert h hl hcall v
  | appendAfter l before n => exact .appendAfter h hl hcall.1 hcall.2
  | insertAfter l before n v => exact .insertAfter h hl hcall.1 hcall.2 v
  | appendBefore l after n => exact .appendBefore h hl hcall.1 hcall.2
  | insertBefore l after n v => exact .insertBefore h hl hcall.1 hcall.2 v
  | delete l n => exact .delete h hl hcall
  | pop l => exact .pop h hl
  | dequeue l => exact .dequeue h hl
  | remove l index => exact .remove h hl hcall
  | merge target source =>
    obtain ⟨hne, ys, hl'⟩ := hcall
    exact .merge h hl hl' hne
  | clear l => exact .clear h hl

/-- In every run of allowed calls all lists are well formed, and the next call acts on the sequences
of their nodes as `apply` says. -/
theorem refines_of_run {m₀ : ListMem ν κ α} {L₀ : κ → Option (List ν)} (h₀ : Lists m₀ L₀)
    (hrun : Relation.ReflTransGen Step (m₀, L₀) (m, L)) :
    Lists m L ∧ ∀ call, Allowed m L call → call.Refines m L := by
  suffices h : Lists m L from ⟨h, fun call hcall => refines h hcall⟩
  generalize hs : (m, L) = s at hrun
  induction hrun generalizing m L with
  | refl =>
    cases hs
    exact h₀
  | @tail s₁ s₂ _ hstep ih =>
    obtain ⟨call, r, hcall, hcallRun, happly⟩ := hstep
    obtain ⟨m', hrun', hlists, _⟩ := refines (ih rfl) hcall
    rw [hrun'] at hcallRun
    cases hs
    cases hcallRun
    rw [← happly] at hlists
    exact hlists

/-- A node that is appended to an empty list. -/
theorem refines_of_run_append : ∃ (m : ListMem Nat Nat Nat) (L : Nat → Option (List Nat)),
    L 0 = some [5] ∧ Lists m L ∧
      (pop 0 : ListCall Nat Nat Nat).Refines m L := by
  let m₀ : ListMem Nat Nat Nat :=
    ⟨fun _ => ⟨none, none⟩, fun _ => 0, fun _ => none, fun _ => none, fun _ => none, fun _ => 0⟩
  let L₀ : Nat → Option (List Nat) := fun l => if l = 0 then some [] else none
  have h₀ : Lists m₀ L₀ := by
    intro l xs hl
    obtain rfl : xs = [] := by
      by_cases hzero : l = 0
      · simpa [L₀, hzero] using hl.symm
      · simp [L₀, hzero] at hl
    exact ⟨rfl, rfl, rfl, trivial, List.nodup_nil, fun _ hn => absurd hn List.not_mem_nil⟩
  have hallowed : Allowed m₀ L₀ (append 0 5) := ⟨[], rfl, rfl, rfl⟩
  obtain ⟨m', hrun, _⟩ := refines h₀ hallowed
  have hstep : Step (m₀, L₀) (m', (append 0 5 : ListCall Nat Nat Nat).apply L₀) :=
    ⟨append 0 5, _, hallowed, hrun, rfl⟩
  obtain ⟨hlists, hcalls⟩ := refines_of_run h₀ (.single hstep)
  exact ⟨m', _, rfl, hlists, hcalls (pop 0) ⟨[5], rfl, trivial⟩⟩

end ListCall

end KernelTest.Libc
