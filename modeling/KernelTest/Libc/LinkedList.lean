import KernelTest.Framework.DoublyLinked
import Mathlib.Data.List.Nodup
import Mathlib.Logic.Function.Basic

/-!
# Linked lists

`list_t` and the functions on it. A node sits in at most one list, its `owner`; nodes are either
allocated by `list_insert` or embedded in another object.
-/

namespace KernelTest.Libc

inductive ListFault
  /-- A field is accessed through a null pointer. -/
  | nullPointer
  /-- `ASSERT` failed. -/
  | assertion
  /-- A walk along the list does not end. -/
  | endless
  deriving DecidableEq, Repr

/-- All `node_t` (`ν`) and `list_t` (`κ`) objects; a node's value has type `α`. -/
structure ListMem (ν κ α : Type) where
  links : ν → Links ν
  value : ν → α
  owner : ν → Option κ
  head : κ → Option ν
  tail : κ → Option ν
  length : κ → Nat

variable {ν κ α : Type} [DecidableEq ν] [DecidableEq κ]

namespace ListMem

/-- `node->next = p`. -/
@[simp] def setNext (m : ListMem ν κ α) (n : ν) (p : Option ν) : ListMem ν κ α :=
  { m with links := Function.update m.links n { m.links n with next := p } }

/-- `node->prev = p`. -/
@[simp] def setPrev (m : ListMem ν κ α) (n : ν) (p : Option ν) : ListMem ν κ α :=
  { m with links := Function.update m.links n { m.links n with prev := p } }

/-- `node->owner = l`. -/
@[simp] def setOwner (m : ListMem ν κ α) (n : ν) (l : Option κ) : ListMem ν κ α :=
  { m with owner := Function.update m.owner n l }

/-- `list->head = p`. -/
@[simp] def setHead (m : ListMem ν κ α) (l : κ) (p : Option ν) : ListMem ν κ α :=
  { m with head := Function.update m.head l p }

/-- `list->tail = p`. -/
@[simp] def setTail (m : ListMem ν κ α) (l : κ) (p : Option ν) : ListMem ν κ α :=
  { m with tail := Function.update m.tail l p }

/-- `list->length = k`. -/
@[simp] def setLength (m : ListMem ν κ α) (l : κ) (k : Nat) : ListMem ν κ α :=
  { m with length := Function.update m.length l k }

/-- Store the value and clear the links of a node, as the allocating functions do. -/
@[simp] def initNode (m : ListMem ν κ α) (n : ν) (v : α) : ListMem ν κ α :=
  { m with
    links := Function.update m.links n ⟨none, none⟩
    value := Function.update m.value n v
    owner := Function.update m.owner n none }

end ListMem

/-- `list_create()`, where `l` is the memory it got from `malloc`. -/
def listCreate (m : ListMem ν κ α) (l : κ) : ListMem ν κ α :=
  ((m.setHead l none).setTail l none).setLength l 0

/-- `list_append(list, node)`. -/
def listAppend (m : ListMem ν κ α) (l : κ) (n : ν) : Except ListFault (ListMem ν κ α) :=
  let m := (m.setNext n none).setOwner n (some l)
  if m.length l = 0 then
    let m := ((m.setHead l (some n)).setTail l (some n)).setPrev n none
    .ok ((m.setNext n none).setLength l (m.length l + 1))
  else
    match m.tail l with
    | none => .error .nullPointer
    | some t =>
      let m := ((m.setNext t (some n)).setPrev n (some t)).setTail l (some n)
      .ok (m.setLength l (m.length l + 1))

/-- `list_insert(list, item)`, where `n` is the node it got from `malloc`. -/
def listInsert (m : ListMem ν κ α) (l : κ) (n : ν) (v : α) : Except ListFault (ListMem ν κ α) :=
  listAppend (m.initNode n v) l n

/-- `list_append_after(list, before, node)`. -/
def listAppendAfter (m : ListMem ν κ α) (l : κ) (before : Option ν) (n : ν) :
    Except ListFault (ListMem ν κ α) :=
  let m := m.setOwner n (some l)
  if m.length l = 0 then
    listAppend m l n
  else
    match before with
    | none =>
      match m.head l with
      | none => .error .nullPointer
      | some k =>
        let m := ((m.setNext n (some k)).setPrev n none).setPrev k (some n)
        .ok ((m.setHead l (some n)).setLength l (m.length l + 1))
    | some b =>
      if some b = m.tail l then
        let m := ((m.setTail l (some n)).setPrev n (some b)).setNext b (some n)
        .ok (m.setLength l (m.length l + 1))
      else
        match (m.links b).next with
        | none => .error .nullPointer
        | some c =>
          let m := (m.setPrev c (some n)).setNext n (some c)
          let m := (m.setPrev n (some b)).setNext b (some n)
          .ok (m.setLength l (m.length l + 1))

/-- `list_insert_after(list, before, item)`, where `n` is the node it got from `malloc`. -/
def listInsertAfter (m : ListMem ν κ α) (l : κ) (before : Option ν) (n : ν) (v : α) :
    Except ListFault (ListMem ν κ α) :=
  listAppendAfter (m.initNode n v) l before n

/-- `list_append_before(list, after, node)`. -/
def listAppendBefore (m : ListMem ν κ α) (l : κ) (after : Option ν) (n : ν) :
    Except ListFault (ListMem ν κ α) :=
  if (m.links n).next.isSome ∨ (m.links n).prev.isSome then
    .error .assertion
  else
    let m := m.setOwner n (some l)
    if m.length l = 0 then
      listAppend m l n
    else
      match after with
      | none =>
        match m.tail l with
        | none => .error .nullPointer
        | some t =>
          let m := ((m.setNext n none).setPrev n (some t)).setNext t (some n)
          .ok ((m.setTail l (some n)).setLength l (m.length l + 1))
      | some a =>
        if some a = m.head l then
          let m := ((m.setHead l (some n)).setNext n (some a)).setPrev a (some n)
          .ok (m.setLength l (m.length l + 1))
        else
          match (m.links a).prev with
          | none => .error .nullPointer
          | some p =>
            let m := (m.setNext p (some n)).setPrev n (some p)
            let m := (m.setNext n (some a)).setPrev a (some n)
            .ok (m.setLength l (m.length l + 1))

/-- `list_insert_before(list, after, item)`, where `n` is the node it got from `malloc`. -/
def listInsertBefore (m : ListMem ν κ α) (l : κ) (after : Option ν) (n : ν) (v : α) :
    Except ListFault (ListMem ν κ α) :=
  listAppendBefore (m.initNode n v) l after n

namespace ListMem

/-- `if(node == list->head) list->head = node->next;` -/
def dropHead (m : ListMem ν κ α) (l : κ) (n : ν) : ListMem ν κ α :=
  if some n = m.head l then m.setHead l (m.links n).next else m

/-- `if(node == list->tail) list->tail = node->prev;` -/
def dropTail (m : ListMem ν κ α) (l : κ) (n : ν) : ListMem ν κ α :=
  if some n = m.tail l then m.setTail l (m.links n).prev else m

/-- `if(node->prev) node->prev->next = node->next;` -/
def bridgeNext (m : ListMem ν κ α) (n : ν) : ListMem ν κ α :=
  match (m.links n).prev with
  | none => m
  | some p => m.setNext p (m.links n).next

/-- `if(node->next) node->next->prev = node->prev;` -/
def bridgePrev (m : ListMem ν κ α) (n : ν) : ListMem ν κ α :=
  match (m.links n).next with
  | none => m
  | some q => m.setPrev q (m.links n).prev

end ListMem

/-- `list_delete(list, node)`. -/
def listDelete (m : ListMem ν κ α) (l : κ) (n : ν) : Except ListFault (ListMem ν κ α) :=
  if m.owner n = some l then
    let m := (((m.dropHead l n).dropTail l n).bridgeNext n).bridgePrev n
    let m := ((m.setPrev n none).setNext n none).setOwner n none
    .ok (m.setLength l (m.length l - 1))
  else
    .error .assertion

/-- `list_pop(list)`: the last node, taken out of the list. -/
def listPop (m : ListMem ν κ α) (l : κ) : Except ListFault (ListMem ν κ α × Option ν) :=
  match m.tail l with
  | none => .ok (m, none)
  | some n => (listDelete m l n).map fun m' => (m', some n)

/-- `list_dequeue(list)`: the first node, taken out of the list. -/
def listDequeue (m : ListMem ν κ α) (l : κ) : Except ListFault (ListMem ν κ α × Option ν) :=
  match m.head l with
  | none => .ok (m, none)
  | some n => (listDelete m l n).map fun m' => (m', some n)

/-- The nodes that a walk along the `next` pointers visits in at most `k` steps. -/
def nodesFrom (m : ListMem ν κ α) : Nat → Option ν → Except ListFault (List ν)
  | _, none => .ok []
  | 0, some _ => .error .endless
  | k + 1, some n => (nodesFrom m k (m.links n).next).map (n :: ·)

/-- The nodes that `foreach(i, list)` visits. -/
def foreach (m : ListMem ν κ α) (l : κ) : Except ListFault (List ν) :=
  nodesFrom m (m.length l) (m.head l)

/-- `list_find(list, value)`. -/
def listFind [DecidableEq α] (m : ListMem ν κ α) (l : κ) (v : α) :
    Except ListFault (Option ν) :=
  (foreach m l).map fun ns => ns.find? fun n => m.value n = v

/-- `list_merge(target, source)`. -/
def listMerge (m : ListMem ν κ α) (target source : κ) : Except ListFault (ListMem ν κ α) := do
  let ns ← foreach m source
  let m := ns.foldl (fun m n => m.setOwner n (some target)) m
  let m := match m.head source with
    | some n => m.setPrev n (m.tail target)
    | none => m
  let m := match m.tail target with
    | some n => m.setNext n (m.head source)
    | none => m.setHead target (m.head source)
  let m := match m.tail source with
    | some n => m.setTail target (some n)
    | none => m
  return m.setLength target (m.length target + m.length source)

/-- `l` is a well-formed list of the nodes `xs`: `head`, `tail`, `prev`, `next`, `owner` and
`length` agree. -/
structure IsList (m : ListMem ν κ α) (l : κ) (xs : List ν) : Prop where
  head : m.head l = xs.head?
  tail : m.tail l = xs.getLast?
  length : m.length l = xs.length
  linked : Links.Seg m.links none xs none
  nodup : xs.Nodup
  owned : ∀ n ∈ xs, m.owner n = some l

structure Relinked (m m' : ListMem ν κ α) (l : κ) (n : ν) : Prop where
  links : ∀ k, k ≠ n → m.owner k ≠ some l → m'.links k = m.links k
  owner : ∀ k, k ≠ n → m'.owner k = m.owner k
  value : m'.value = m.value
  lists : ∀ l', l' ≠ l →
    m'.head l' = m.head l' ∧ m'.tail l' = m.tail l' ∧ m'.length l' = m.length l'

omit [DecidableEq ν] [DecidableEq κ] in
theorem IsList.congr {m m' : ListMem ν κ α} {l : κ} {xs : List ν} (h : IsList m l xs)
    (hlist : m'.head l = m.head l ∧ m'.tail l = m.tail l ∧ m'.length l = m.length l)
    (hnodes : ∀ n ∈ xs, m'.links n = m.links n ∧ m'.owner n = m.owner n) : IsList m' l xs :=
  { head := hlist.1.trans h.head
    tail := hlist.2.1.trans h.tail
    length := hlist.2.2.trans h.length
    linked := (Links.seg_congr fun n hn => (hnodes n hn).1).2 h.linked
    nodup := h.nodup
    owned := fun n hn => (hnodes n hn).2.trans (h.owned n hn) }

omit [DecidableEq ν] [DecidableEq κ] in
theorem IsList.relinked {m m' : ListMem ν κ α} {l l' : κ} {n : ν} {ys : List ν}
    (h : IsList m l' ys) (hm : Relinked m m' l n) (hl : l' ≠ l) (hn : n ∉ ys) :
    IsList m' l' ys := by
  apply h.congr (hm.lists l' hl)
  intro k hk
  have hne : k ≠ n := ne_of_mem_of_not_mem hk hn
  refine ⟨hm.links k hne ?_, hm.owner k hne⟩
  intro ho
  rw [h.owned k hk] at ho
  exact hl (Option.some.inj ho)

omit [DecidableEq ν] in
theorem isList_create (m : ListMem ν κ α) (l : κ) : IsList (listCreate m l) l [] :=
  { head := by simp [listCreate]
    tail := by simp [listCreate]
    length := by simp [listCreate]
    linked := Links.seg_nil
    nodup := List.nodup_nil
    owned := fun _ hn => absurd hn List.not_mem_nil }

omit [DecidableEq ν] [DecidableEq κ] in
private theorem nodesFrom_eq {m : ListMem ν κ α} {p : Option ν} {xs : List ν}
    (h : Links.Seg m.links p xs none) : nodesFrom m xs.length xs.head? = .ok xs := by
  induction xs generalizing p with
  | nil => rfl
  | cons n xs ih =>
    rw [Links.seg_cons] at h
    have hnext : (m.links n).next = xs.head? := by simpa using h.2.1
    rw [List.length_cons, List.head?_cons, nodesFrom, hnext, ih h.2.2]
    rfl

omit [DecidableEq ν] [DecidableEq κ] in
theorem IsList.foreach_eq {m : ListMem ν κ α} {l : κ} {xs : List ν} (h : IsList m l xs) :
    foreach m l = .ok xs := by
  rw [foreach, h.length, h.head]
  exact nodesFrom_eq h.linked

private theorem listAppend_nonempty {m : ListMem ν κ α} {l : κ} {t n : ν}
    (hlen : m.length l ≠ 0) (htail : m.tail l = some t) :
    listAppend m l n = .ok ((((((m.setNext n none).setOwner n (some l)).setNext t
      (some n)).setPrev n (some t)).setTail l (some n)).setLength l (m.length l + 1)) := by
  simp [listAppend, hlen, htail]

theorem IsList.append {m : ListMem ν κ α} {l : κ} {xs : List ν} {n : ν} (h : IsList m l xs)
    (hn : n ∉ xs) :
    ∃ m', listAppend m l n = .ok m' ∧ IsList m' l (xs ++ [n]) ∧ Relinked m m' l n := by
  rcases List.eq_nil_or_concat' xs with rfl | ⟨ys, t, rfl⟩
  · have hlen : m.length l = 0 := h.length
    refine ⟨_, if_pos hlen, ?_, ?_⟩
    · constructor <;> simp [hlen]
    · constructor <;> simp +contextual
  · have hlen : m.length l ≠ 0 := by
      rw [h.length]
      simp
    have htail : m.tail l = some t := by
      rw [h.tail]
      simp
    have htn : t ≠ n := fun he => hn (by simp [he])
    have hne : ∀ k ∈ ys ++ [t], k ≠ n := fun k hk => ne_of_mem_of_not_mem hk hn
    refine ⟨_, listAppend_nonempty hlen htail, ?_, ?_⟩
    · constructor
      · simpa using h.head
      · simp
      · simp [h.length]
      · rw [Links.seg_append]
        constructor
        · apply h.linked.relink h.nodup
          · intro k hk
            have hkn : k ≠ n := hne k (List.mem_of_mem_head? hk)
            rw [← h.linked.prev_head hk]
            by_cases hkt : k = t <;> simp [hkt, hkn, htn]
          · intro k hk _
            by_cases hkt : k = t <;> simp [hkt, htn, hne k hk]
          · intro k hk
            have hkt : t = k := by simpa using hk
            simp [← hkt, htn]
          · intro k hk hlk
            have hkt : k ≠ t := by
              intro he
              simp [he] at hlk
            simp [hkt, hne k hk]
        · simp [htn.symm]
      · rw [List.nodup_append]
        exact ⟨h.nodup, by simp, fun a ha b hb => List.mem_singleton.1 hb ▸ hne a ha⟩
      · intro k hk
        by_cases hkn : k = n
        · simp [hkn]
        · have hk' : k ∈ ys ++ [t] := by simpa [hkn] using hk
          simpa [hkn] using h.owned k hk'
    · constructor
      · intro k hkn ho
        have hkt : k ≠ t := by
          rintro rfl
          exact ho (h.owned k (by simp))
        simp [hkn, hkt]
      · intro k hkn
        simp [hkn]
      · rfl
      · intro l' hl
        simp [hl]

namespace ListMem

variable (m : ListMem ν κ α) (l : κ) (n : ν)

omit [DecidableEq κ] in
private theorem bridge_fields :
    ((m.bridgeNext n).bridgePrev n).head = m.head ∧ ((m.bridgeNext n).bridgePrev n).tail = m.tail ∧
      ((m.bridgeNext n).bridgePrev n).length = m.length ∧
      ((m.bridgeNext n).bridgePrev n).owner = m.owner ∧
      ((m.bridgeNext n).bridgePrev n).value = m.value := by
  unfold bridgePrev bridgeNext
  cases (m.links n).prev <;> simp only [] <;> split <;> simp

omit [DecidableEq κ] in
private theorem bridge_links (k : ν) :
    ((m.bridgeNext n).bridgePrev n).links k =
      ⟨if (m.links n).prev = some k then (m.links n).next else (m.links k).next,
        if (m.links n).next = some k then (m.links n).prev else (m.links k).prev⟩ := by
  have hnext : ((m.bridgeNext n).links n).next = (m.links n).next := by
    unfold bridgeNext
    split
    · rfl
    · next p _ =>
      by_cases hp : n = p
      · simp [hp]
      · simp [hp]
  have hprev : ((m.bridgeNext n).links n).prev = (m.links n).prev := by
    unfold bridgeNext
    split
    · rfl
    · next p _ =>
      by_cases hp : n = p
      · simp [hp]
      · simp [hp]
  have hstep : (m.bridgeNext n).links k =
      ⟨if (m.links n).prev = some k then (m.links n).next else (m.links k).next,
        (m.links k).prev⟩ := by
    unfold bridgeNext
    cases hp : (m.links n).prev with
    | none => simp
    | some p =>
      by_cases hkp : p = k
      · simp [hkp]
      · simp [hkp, Ne.symm hkp]
  unfold bridgePrev
  rw [hnext, hprev]
  cases hq : (m.links n).next with
  | none => simp [hstep, hq]
  | some q =>
    by_cases hkq : q = k
    · simp [hkq, hstep, hq]
    · simp [hkq, Ne.symm hkq, hstep, hq]

end ListMem

private theorem listDelete_fields {m : ListMem ν κ α} {l : κ} {n : ν} (h : m.owner n = some l) :
    ∃ m', listDelete m l n = .ok m' ∧
      m'.head = (if some n = m.head l then Function.update m.head l (m.links n).next
        else m.head) ∧
      m'.tail = (if some n = m.tail l then Function.update m.tail l (m.links n).prev
        else m.tail) ∧
      m'.length = Function.update m.length l (m.length l - 1) ∧
      m'.owner = Function.update m.owner n none ∧ m'.value = m.value ∧
      ∀ k, k ≠ n → m'.links k =
        ⟨if (m.links n).prev = some k then (m.links n).next else (m.links k).next,
          if (m.links n).next = some k then (m.links n).prev else (m.links k).prev⟩ := by
  refine ⟨_, if_pos h, ?_⟩
  have hdrop : ((m.dropHead l n).dropTail l n).links = m.links ∧
      ((m.dropHead l n).dropTail l n).head = (if some n = m.head l then
        Function.update m.head l (m.links n).next else m.head) ∧
      ((m.dropHead l n).dropTail l n).tail = (if some n = m.tail l then
        Function.update m.tail l (m.links n).prev else m.tail) ∧
      ((m.dropHead l n).dropTail l n).length = m.length ∧
      ((m.dropHead l n).dropTail l n).owner = m.owner ∧
      ((m.dropHead l n).dropTail l n).value = m.value := by
    unfold ListMem.dropTail ListMem.dropHead
    split_ifs <;> simp_all
  obtain ⟨hlinks, hhead, htail, hlength, howner, hvalue⟩ := hdrop
  obtain ⟨bhead, btail, blength, bowner, bvalue⟩ :=
    ((m.dropHead l n).dropTail l n).bridge_fields n
  refine ⟨bhead.trans hhead, btail.trans htail, ?_, ?_, bvalue.trans hvalue, ?_⟩
  · simp [blength, hlength]
  · simp [bowner, howner]
  · intro k hk
    have hbridge := ((m.dropHead l n).dropTail l n).bridge_links n k
    rw [hlinks] at hbridge
    simpa [hk] using hbridge

theorem IsList.delete {m : ListMem ν κ α} {l : κ} {xs ys : List ν} {n : ν}
    (h : IsList m l (xs ++ n :: ys)) :
    ∃ m', listDelete m l n = .ok m' ∧ IsList m' l (xs ++ ys) ∧ m'.owner n = none ∧
      Relinked m m' l n := by
  have howned : m.owner n = some l := h.owned n (by simp)
  obtain ⟨m', hrun, hhead, htail, hlength, howner, hvalue, hlinks⟩ := listDelete_fields howned
  have hseg := h.linked
  rw [Links.seg_append, Links.seg_cons] at hseg
  obtain ⟨hxs, hprev, hnext, hys⟩ := hseg
  have hnodup := h.nodup
  rw [List.nodup_middle, List.nodup_cons] at hnodup
  obtain ⟨hn, hnodup⟩ := hnodup
  have hne : ∀ k ∈ xs ++ ys, k ≠ n := fun k hk => ne_of_mem_of_not_mem hk hn
  have hdisj := List.nodup_append.1 hnodup
  have hprev' : (m.links n).prev = xs.getLast? := by simpa using hprev
  have hnext' : (m.links n).next = ys.head? := by simpa using hnext
  rw [hprev', hnext'] at hlinks
  rw [hnext'] at hhead
  rw [hprev'] at htail
  refine ⟨m', hrun, ?_, by simp [howner], ?_⟩
  · constructor
    · rw [hhead, h.head]
      cases xs with
      | nil => simp
      | cons x xs =>
        have hx : n ≠ x := (hne x (by simp)).symm
        simp [hx, h.head]
    · rw [htail, h.tail]
      rcases List.eq_nil_or_concat' ys with rfl | ⟨zs, z, rfl⟩
      · simp
      · have hz : n ≠ z := (hne z (by simp)).symm
        have hlast : (xs ++ n :: (zs ++ [z])).getLast? = some z := by
          rw [← List.cons_append, ← List.append_assoc, List.getLast?_concat]
        rw [hlast, if_neg (by simpa using hz), h.tail, hlast]
        simp
    · simp [hlength, h.length]
    · have hxy : ∀ k ∈ xs, ys.head? ≠ some k := fun k hk he =>
        hdisj.2.2 k hk k (List.mem_of_mem_head? he) rfl
      have hyx : ∀ k ∈ ys, xs.getLast? ≠ some k := fun k hk he =>
        hdisj.2.2 k (List.mem_of_getLast? he) k hk rfl
      have hlinkx : ∀ k ∈ xs, m'.links k =
          ⟨if xs.getLast? = some k then ys.head? else (m.links k).next, (m.links k).prev⟩ := by
        intro k hk
        rw [hlinks k (hne k (by simp [hk])), if_neg (hxy k hk)]
      have hlinky : ∀ k ∈ ys, m'.links k =
          ⟨(m.links k).next, if ys.head? = some k then xs.getLast? else (m.links k).prev⟩ := by
        intro k hk
        rw [hlinks k (hne k (by simp [hk])), if_neg (hyx k hk)]
      rw [Links.seg_append]
      constructor
      · apply hxs.relink hdisj.1
        · intro k hk
          rw [hlinkx k (List.mem_of_mem_head? hk)]
          exact hxs.prev_head hk
        · intro k hk _
          rw [hlinkx k hk]
        · intro k hk
          rw [hlinkx k (List.mem_of_getLast? hk)]
          simp [hk]
        · intro k hk hlk
          rw [hlinkx k hk, if_neg hlk]
      · apply hys.relink hdisj.2.1
        · intro k hk
          rw [hlinky k (List.mem_of_mem_head? hk)]
          simp [hk]
        · intro k hk hhk
          rw [hlinky k hk, if_neg hhk]
        · intro k hk
          rw [hlinky k (List.mem_of_getLast? hk)]
          exact hys.next_last hk
        · intro k hk _
          rw [hlinky k hk]
    · exact hnodup
    · intro k hk
      rw [howner, Function.update_of_ne (hne k hk)]
      exact h.owned k (by simp at hk ⊢; tauto)
  · constructor
    · intro k hk ho
      have hkx : xs.getLast? ≠ some k := by
        intro he
        exact ho (h.owned k (by simp [List.mem_of_getLast? he]))
      have hky : ys.head? ≠ some k := by
        intro he
        exact ho (h.owned k (by simp [List.mem_of_mem_head? he]))
      rw [hlinks k hk, if_neg hkx, if_neg hky]
    · intro k hk
      rw [howner, Function.update_of_ne hk]
    · exact hvalue
    · intro l' hl
      rw [hhead, htail, hlength]
      split_ifs <;> simp [hl]

theorem listPop_of_delete {m m' : ListMem ν κ α} {l : κ} {n : ν} (htail : m.tail l = some n)
    (hrun : listDelete m l n = .ok m') : listPop m l = .ok (m', some n) := by
  simp [listPop, htail, hrun, Except.map]

theorem listDequeue_of_delete {m m' : ListMem ν κ α} {l : κ} {n : ν} (hhead : m.head l = some n)
    (hrun : listDelete m l n = .ok m') : listDequeue m l = .ok (m', some n) := by
  simp [listDequeue, hhead, hrun, Except.map]

theorem IsList.pop {m : ListMem ν κ α} {l : κ} {xs : List ν} {n : ν} (h : IsList m l (xs ++ [n])) :
    ∃ m', listPop m l = .ok (m', some n) ∧ IsList m' l xs ∧ m'.owner n = none ∧
      Relinked m m' l n := by
  have htail : m.tail l = some n := by simpa using h.tail
  obtain ⟨m', hrun, hlist, howner, hframe⟩ := IsList.delete h
  rw [List.append_nil] at hlist
  exact ⟨m', listPop_of_delete htail hrun, hlist, howner, hframe⟩

theorem IsList.pop_nil {m : ListMem ν κ α} {l : κ} (h : IsList m l []) :
    listPop m l = .ok (m, none) := by
  have htail : m.tail l = none := h.tail
  rw [listPop, htail]

theorem IsList.dequeue {m : ListMem ν κ α} {l : κ} {xs : List ν} {n : ν}
    (h : IsList m l (n :: xs)) :
    ∃ m', listDequeue m l = .ok (m', some n) ∧ IsList m' l xs ∧ m'.owner n = none ∧
      Relinked m m' l n := by
  have hhead : m.head l = some n := h.head
  have hfront : IsList m l ([] ++ n :: xs) := h
  obtain ⟨m', hrun, hlist, howner, hframe⟩ := hfront.delete
  exact ⟨m', listDequeue_of_delete hhead hrun, hlist, howner, hframe⟩

theorem IsList.dequeue_nil {m : ListMem ν κ α} {l : κ} (h : IsList m l []) :
    listDequeue m l = .ok (m, none) := by
  have hhead : m.head l = none := h.head
  rw [listDequeue, hhead]

/-- The node `n` is linked into the list `l` between `xs` and `ys`, field by field. -/
private structure Inserted (m m' : ListMem ν κ α) (l : κ) (xs : List ν) (n : ν) (ys : List ν) :
    Prop where
  head : m'.head = Function.update m.head l (xs.head?.or (some n))
  tail : m'.tail = Function.update m.tail l (ys.getLast?.or (some n))
  length : m'.length = Function.update m.length l (m.length l + 1)
  owner : m'.owner = Function.update m.owner n (some l)
  value : m'.value = m.value
  node : m'.links n = ⟨ys.head?, xs.getLast?⟩
  links : ∀ k, k ≠ n → m'.links k =
    ⟨if xs.getLast? = some k then some n else (m.links k).next,
      if ys.head? = some k then some n else (m.links k).prev⟩

private theorem Inserted.isList {m m' : ListMem ν κ α} {l : κ} {xs ys : List ν} {n : ν}
    (hm : Inserted m m' l xs n ys) (h : IsList m l (xs ++ ys)) (hn : n ∉ xs ++ ys) :
    IsList m' l (xs ++ n :: ys) ∧ Relinked m m' l n := by
  obtain ⟨hhead, htail, hlength, howner, hvalue, hnode, hlinks⟩ := hm
  have hseg := h.linked
  rw [Links.seg_append] at hseg
  obtain ⟨hxs, hys⟩ := hseg
  have hdisj := List.nodup_append.1 h.nodup
  have hnot : ∀ k ∈ xs ++ ys, k ≠ n := fun k hk => ne_of_mem_of_not_mem hk hn
  have hxy : ∀ k ∈ xs, ys.head? ≠ some k := fun k hk he =>
    hdisj.2.2 k hk k (List.mem_of_mem_head? he) rfl
  have hyx : ∀ k ∈ ys, xs.getLast? ≠ some k := fun k hk he =>
    hdisj.2.2 k (List.mem_of_getLast? he) k hk rfl
  have hlinkx : ∀ k ∈ xs, m'.links k =
      ⟨if xs.getLast? = some k then some n else (m.links k).next, (m.links k).prev⟩ := by
    intro k hk
    rw [hlinks k (hnot k (by simp [hk])), if_neg (hxy k hk)]
  have hlinky : ∀ k ∈ ys, m'.links k =
      ⟨(m.links k).next, if ys.head? = some k then some n else (m.links k).prev⟩ := by
    intro k hk
    rw [hlinks k (hnot k (by simp [hk])), if_neg (hyx k hk)]
  constructor
  · constructor
    · rw [hhead]
      cases xs <;> simp
    · rw [htail, List.getLast?_append, List.getLast?_cons]
      cases hlast : ys.getLast? <;> simp
    · rw [hlength, Function.update_self, h.length]
      simp only [List.length_append, List.length_cons]
      omega
    · rw [Links.seg_append, Links.seg_cons, hnode]
      refine ⟨?_, by simp, by simp, ?_⟩
      · apply hxs.relink hdisj.1
        · intro k hk
          rw [hlinkx k (List.mem_of_mem_head? hk)]
          exact hxs.prev_head hk
        · intro k hk _
          rw [hlinkx k hk]
        · intro k hk
          rw [hlinkx k (List.mem_of_getLast? hk)]
          simp [hk]
        · intro k hk hlk
          rw [hlinkx k hk, if_neg hlk]
      · apply hys.relink hdisj.2.1
        · intro k hk
          rw [hlinky k (List.mem_of_mem_head? hk)]
          simp [hk]
        · intro k hk hhk
          rw [hlinky k hk, if_neg hhk]
        · intro k hk
          rw [hlinky k (List.mem_of_getLast? hk)]
          exact hys.next_last hk
        · intro k hk _
          rw [hlinky k hk]
    · rw [List.nodup_middle, List.nodup_cons]
      exact ⟨hn, h.nodup⟩
    · intro k hk
      rw [howner]
      by_cases hkn : k = n
      · simp [hkn]
      · rw [Function.update_of_ne hkn]
        apply h.owned
        simp only [List.mem_append, List.mem_cons, hkn, false_or] at hk
        exact List.mem_append.2 hk
  · constructor
    · intro k hk ho
      have hkx : xs.getLast? ≠ some k := fun he =>
        ho (h.owned k (List.mem_append_left _ (List.mem_of_getLast? he)))
      have hky : ys.head? ≠ some k := fun he =>
        ho (h.owned k (List.mem_append_right _ (List.mem_of_mem_head? he)))
      rw [hlinks k hk, if_neg hkx, if_neg hky]
    · intro k hk
      rw [howner, Function.update_of_ne hk]
    · exact hvalue
    · intro l' hl
      rw [hhead, htail, hlength]
      simp [hl]

private theorem listAppendAfter_fields {m : ListMem ν κ α} {l : κ} {xs ys : List ν} {n : ν}
    (h : IsList m l (xs ++ ys)) (hn : n ∉ xs ++ ys) (hnext : (m.links n).next = none)
    (hne : xs ++ ys ≠ []) :
    ∃ m', listAppendAfter m l xs.getLast? n = .ok m' ∧ Inserted m m' l xs n ys := by
  have hlen : m.length l ≠ 0 := by
    rw [h.length]
    simpa using hne
  rcases List.eq_nil_or_concat' xs with rfl | ⟨zs, b, rfl⟩
  · cases ys with
    | nil => exact absurd rfl hne
    | cons k ys =>
      have hhead : m.head l = some k := h.head
      have htail : m.tail l = (k :: ys).getLast? := h.tail
      have hkn : n ≠ k := fun he => hn (by simp [he])
      refine ⟨_, by simp [listAppendAfter, hlen, hhead]; rfl, ?_⟩
      refine ⟨by simp, ?_, by simp, by simp, by simp, by simp [hkn], ?_⟩
      · have hsome : (k :: ys).getLast?.or (some n) = m.tail l := by
          rw [htail, List.getLast?_cons]
          rfl
        rw [hsome]
        simp
      · intro j hj
        by_cases hjk : j = k
        · simp [hjk, hkn.symm]
        · simp [hjk, hj, Ne.symm hjk]
  · have hbn : n ≠ b := fun he => hn (by simp [he])
    have hlast : (zs ++ [b]).getLast? = some b := by simp
    have hhead : m.head l = (zs ++ [b]).head?.or (some n) := by
      rw [h.head]
      cases zs <;> simp
    have hseg := h.linked
    rw [Links.seg_append] at hseg
    have hbnext : (m.links b).next = ys.head? := by simpa using hseg.1.next_last hlast
    cases ys with
    | nil =>
      have htail : m.tail l = some b := by
        rw [h.tail]
        simp
      refine ⟨_, by simp [listAppendAfter, hlen, htail]; rfl, ?_⟩
      refine ⟨?_, by simp, by simp, by simp, by simp, by simp [hbn, hnext], ?_⟩
      · rw [← hhead]
        simp
      intro j hj
      by_cases hjb : j = b
      · simp [hjb, hbn.symm]
      · simp [hjb, hj, Ne.symm hjb]
    | cons c ys =>
      have hcn : n ≠ c := fun he => hn (by simp [he])
      have hapart : ∀ k ∈ c :: ys, b ≠ k := (List.nodup_append.1 h.nodup).2.2 b (by simp)
      have hbc : b ≠ c := hapart c (by simp)
      have hlast' : m.tail l = (c :: ys).getLast? := by
        rw [h.tail, List.getLast?_append]
        simp [List.getLast?_cons]
      have htail : some b ≠ m.tail l := by
        intro he
        rw [hlast'] at he
        exact hapart b (List.mem_of_getLast? he.symm) rfl
      refine ⟨_, by simp [listAppendAfter, hlen, htail, hbnext]; rfl, ?_⟩
      refine ⟨?_, ?_, by simp, by simp, by simp, by simp [hbn], ?_⟩
      · rw [← hhead]
        simp
      · have hsome : (c :: ys).getLast?.or (some n) = m.tail l := by
          rw [hlast', List.getLast?_cons]
          rfl
        rw [hsome]
        simp
      · intro j hj
        by_cases hjb : j = b
        · simp [hjb, hbn.symm, hbc, hbc.symm]
        · by_cases hjc : j = c
          · simp [hjc, hbc, hbc.symm, hcn.symm]
          · simp [hjb, hjc, hj, Ne.symm hjb, Ne.symm hjc]

private theorem listAppendBefore_fields {m : ListMem ν κ α} {l : κ} {xs ys : List ν} {n : ν}
    (h : IsList m l (xs ++ ys)) (hn : n ∉ xs ++ ys) (hlinks : m.links n = ⟨none, none⟩)
    (hne : xs ++ ys ≠ []) :
    ∃ m', listAppendBefore m l ys.head? n = .ok m' ∧ Inserted m m' l xs n ys := by
  have hlen : m.length l ≠ 0 := by
    rw [h.length]
    simpa using hne
  cases ys with
  | nil =>
    rcases List.eq_nil_or_concat' xs with rfl | ⟨zs, t, rfl⟩
    · exact absurd rfl hne
    · have htail : m.tail l = some t := by
        rw [h.tail]
        simp
      have htn : n ≠ t := fun he => hn (by simp [he])
      have hhead : m.head l = (zs ++ [t]).head?.or (some n) := by
        rw [h.head]
        cases zs <;> simp
      refine ⟨_, by simp [listAppendBefore, hlinks, hlen, htail]; rfl, ?_⟩
      refine ⟨?_, by simp, by simp, by simp, by simp, by simp [htn], ?_⟩
      · rw [← hhead]
        simp
      · intro j hj
        by_cases hjt : j = t
        · simp [hjt, htn.symm]
        · simp [hjt, hj, Ne.symm hjt]
  | cons a ys =>
    have han : n ≠ a := fun he => hn (by simp [he])
    have htail : m.tail l = (a :: ys).getLast?.or (some n) := by
      rw [h.tail, List.getLast?_append]
      simp [List.getLast?_cons]
    rcases List.eq_nil_or_concat' xs with rfl | ⟨zs, p, rfl⟩
    · have hhead : m.head l = some a := h.head
      refine ⟨_, by simp [listAppendBefore, hlinks, hlen, hhead]; rfl, ?_⟩
      refine ⟨by simp, ?_, by simp, by simp, by simp, by simp [han], ?_⟩
      · rw [← htail]
        simp
      · intro j hj
        by_cases hja : j = a
        · simp [hja, han.symm]
        · simp [hja, hj, Ne.symm hja]
    · have hpn : n ≠ p := fun he => hn (by simp [he])
      have hapart : ∀ k ∈ zs ++ [p], k ≠ a :=
        fun k hk => (List.nodup_append.1 h.nodup).2.2 k hk a (by simp)
      have hpa : p ≠ a := hapart p (by simp)
      have hhead : m.head l = (zs ++ [p]).head? := by
        rw [h.head]
        cases zs <;> simp
      have hfirst : some a ≠ m.head l := by
        intro he
        rw [hhead] at he
        exact hapart a (List.mem_of_mem_head? he.symm) rfl
      have hseg := h.linked
      rw [Links.seg_append] at hseg
      have haprev : (m.links a).prev = some p := by simpa using hseg.2.prev_head rfl
      refine ⟨_, by simp [listAppendBefore, hlinks, hlen, hfirst, haprev]; rfl, ?_⟩
      refine ⟨?_, ?_, by simp, by simp, by simp, by simp [han], ?_⟩
      · have hsome : (zs ++ [p]).head?.or (some n) = m.head l := by
          rw [hhead]
          cases zs <;> simp
        rw [hsome]
        simp
      · rw [← htail]
        simp
      · intro j hj
        by_cases hjp : j = p
        · simp [hjp, hpn.symm, hpa, hpa.symm]
        · by_cases hja : j = a
          · simp [hja, hpa, hpa.symm, han.symm]
          · simp [hjp, hja, hj, Ne.symm hjp, Ne.symm hja]

private theorem IsList.append_owned {m : ListMem ν κ α} {l : κ} {n : ν} (h : IsList m l []) :
    ∃ m', listAppend (m.setOwner n (some l)) l n = .ok m' ∧ IsList m' l [n] ∧ Relinked m m' l n := by
  have howned : IsList (m.setOwner n (some l)) l [] :=
    { h with owned := fun _ hk => absurd hk List.not_mem_nil }
  obtain ⟨m', hrun, hlist, hframe⟩ := howned.append List.not_mem_nil
  refine ⟨m', hrun, hlist, ?_⟩
  constructor
  · intro k hk ho
    exact hframe.links k hk (by simpa [hk] using ho)
  · intro k hk
    rw [hframe.owner k hk]
    simp [hk]
  · exact hframe.value
  · exact hframe.lists

omit [DecidableEq κ] in
theorem IsList.initNode {m : ListMem ν κ α} {l : κ} {xs : List ν} {n : ν}
    (h : IsList m l xs) (hn : n ∉ xs) (v : α) : IsList (m.initNode n v) l xs :=
  { h with
    linked := (Links.seg_congr fun k hk => by simp [ne_of_mem_of_not_mem hk hn]).2 h.linked
    owned := fun k hk => by simpa [ne_of_mem_of_not_mem hk hn] using h.owned k hk }

theorem IsList.insert {m : ListMem ν κ α} {l : κ} {xs : List ν} {n : ν} (h : IsList m l xs)
    (hn : n ∉ xs) (v : α) :
    ∃ m', listInsert m l n v = .ok m' ∧ IsList m' l (xs ++ [n]) ∧
      Relinked (m.initNode n v) m' l n :=
  (h.initNode hn v).append hn

theorem IsList.appendAfter {m : ListMem ν κ α} {l : κ} {xs ys : List ν} {n : ν}
    {before : Option ν} (h : IsList m l (xs ++ ys)) (hn : n ∉ xs ++ ys)
    (hnext : (m.links n).next = none) (hbefore : before = xs.getLast? ∨ xs ++ ys = []) :
    ∃ m', listAppendAfter m l before n = .ok m' ∧ IsList m' l (xs ++ n :: ys) ∧
      Relinked m m' l n := by
  by_cases hempty : xs ++ ys = []
  · obtain ⟨rfl, rfl⟩ := List.append_eq_nil_iff.1 hempty
    obtain ⟨m', hrun, hlist, hframe⟩ := IsList.append_owned h
    have hlen : m.length l = 0 := h.length
    exact ⟨m', (if_pos hlen).trans hrun, hlist, hframe⟩
  · obtain ⟨m', hrun, hinserted⟩ := listAppendAfter_fields h hn hnext hempty
    rw [hbefore.resolve_right hempty]
    exact ⟨m', hrun, hinserted.isList h hn⟩

theorem IsList.appendBefore {m : ListMem ν κ α} {l : κ} {xs ys : List ν} {n : ν}
    {after : Option ν} (h : IsList m l (xs ++ ys)) (hn : n ∉ xs ++ ys)
    (hlinks : m.links n = ⟨none, none⟩) (hafter : after = ys.head? ∨ xs ++ ys = []) :
    ∃ m', listAppendBefore m l after n = .ok m' ∧ IsList m' l (xs ++ n :: ys) ∧
      Relinked m m' l n := by
  by_cases hempty : xs ++ ys = []
  · obtain ⟨rfl, rfl⟩ := List.append_eq_nil_iff.1 hempty
    obtain ⟨m', hrun, hlist, hframe⟩ := IsList.append_owned h
    have hlen : m.length l = 0 := h.length
    have hassert : ¬ ((m.links n).next.isSome ∨ (m.links n).prev.isSome) := by simp [hlinks]
    exact ⟨m', (if_neg hassert).trans ((if_pos hlen).trans hrun), hlist, hframe⟩
  · obtain ⟨m', hrun, hinserted⟩ := listAppendBefore_fields h hn hlinks hempty
    rw [hafter.resolve_right hempty]
    exact ⟨m', hrun, hinserted.isList h hn⟩

theorem IsList.insertAfter {m : ListMem ν κ α} {l : κ} {xs ys : List ν} {n : ν}
    {before : Option ν} (h : IsList m l (xs ++ ys)) (hn : n ∉ xs ++ ys)
    (hbefore : before = xs.getLast? ∨ xs ++ ys = []) (v : α) :
    ∃ m', listInsertAfter m l before n v = .ok m' ∧ IsList m' l (xs ++ n :: ys) ∧
      Relinked (m.initNode n v) m' l n :=
  (h.initNode hn v).appendAfter hn (by simp) hbefore

theorem IsList.insertBefore {m : ListMem ν κ α} {l : κ} {xs ys : List ν} {n : ν}
    {after : Option ν} (h : IsList m l (xs ++ ys)) (hn : n ∉ xs ++ ys)
    (hafter : after = ys.head? ∨ xs ++ ys = []) (v : α) :
    ∃ m', listInsertBefore m l after n v = .ok m' ∧ IsList m' l (xs ++ n :: ys) ∧
      Relinked (m.initNode n v) m' l n :=
  (h.initNode hn v).appendBefore hn (by simp) hafter

omit [DecidableEq ν] [DecidableEq κ] in
theorem IsList.find [DecidableEq α] {m : ListMem ν κ α} {l : κ} {xs : List ν} (h : IsList m l xs)
    (v : α) : listFind m l v = .ok (xs.find? fun n => m.value n = v) := by
  rw [listFind, h.foreach_eq]
  rfl

omit [DecidableEq κ] in
private theorem foldl_setOwner (m : ListMem ν κ α) (l : κ) (ns : List ν) :
    ns.foldl (fun m n => m.setOwner n (some l)) m =
      { m with owner := fun k => if k ∈ ns then some l else m.owner k } := by
  induction ns generalizing m with
  | nil => rfl
  | cons n ns ih =>
    rw [List.foldl_cons, ih]
    congr 1
    funext k
    by_cases hk : k = n <;> by_cases hmem : k ∈ ns <;> simp [hk, hmem]

private theorem listMerge_fields {m : ListMem ν κ α} {l l' : κ} {xs ys : List ν}
    (h : IsList m l xs) (h' : IsList m l' ys) :
    ∃ m', listMerge m l l' = .ok m' ∧ m'.head = Function.update m.head l (xs ++ ys).head? ∧
      m'.tail = Function.update m.tail l (xs ++ ys).getLast? ∧
      m'.length = Function.update m.length l (xs.length + ys.length) ∧
      (∀ k, m'.owner k = if k ∈ ys then some l else m.owner k) ∧ m'.value = m.value ∧
      ∀ k, m'.links k =
        { next := if xs.getLast? = some k then ys.head? else (m.links k).next
          prev := if ys.head? = some k then xs.getLast? else (m.links k).prev } := by
  have hhead := h.head
  have htail := h.tail
  have hhead' := h'.head
  have htail' := h'.tail
  refine ⟨_, by rw [listMerge, h'.foreach_eq]; rfl, ?_⟩
  rw [foldl_setOwner]
  rcases List.eq_nil_or_concat' xs with rfl | ⟨xs, t, rfl⟩
  · rw [List.getLast?_nil] at htail
    cases ys with
    | nil =>
      rw [List.head?_nil] at hhead'
      simp only [hhead', htail, ListMem.setHead, ListMem.setLength]
      simp [htail', h.length, h'.length, htail]
    | cons y ys =>
      rw [List.getLast?_cons] at htail'
      rw [List.head?_cons] at hhead'
      simp only [hhead', htail, htail', ListMem.setHead, ListMem.setTail, ListMem.setPrev,
        ListMem.setLength, h.length, h'.length]
      refine ⟨rfl, by rw [List.nil_append, List.getLast?_cons], trivial, fun _ => trivial, trivial,
        fun k => ?_⟩
      by_cases hk : k = y
      · simp [hk]
      · simp [hk, Ne.symm hk]
  · rw [List.getLast?_concat] at htail
    cases ys with
    | nil =>
      rw [List.head?_nil] at hhead'
      rw [List.getLast?_nil] at htail'
      simp only [hhead', htail, htail', ListMem.setNext, ListMem.setLength, h.length, h'.length]
      refine ⟨by simpa using hhead, by simpa using htail, trivial, by simp, trivial, fun k => ?_⟩
      by_cases hk : k = t
      · simp [hk]
      · simp [hk, Ne.symm hk]
    | cons y ys =>
      rw [List.getLast?_cons] at htail'
      rw [List.head?_cons] at hhead'
      simp only [hhead', htail, htail', ListMem.setNext, ListMem.setTail, ListMem.setPrev,
        ListMem.setLength, h.length, h'.length]
      refine ⟨by simpa using hhead, by simp [List.getLast?_cons], trivial, fun _ => trivial, trivial,
        fun k => ?_⟩
      by_cases hkt : k = t
      · by_cases hky : t = y
        · simp [hkt, hky]
        · simp [hkt, hky, Ne.symm hky]
      · by_cases hky : k = y
        · rw [hky] at hkt
          simp [hky, hkt, Ne.symm hkt]
        · simp [hky, hkt, Ne.symm hky, Ne.symm hkt]

theorem IsList.merge {m : ListMem ν κ α} {l l' : κ} {xs ys : List ν} (h : IsList m l xs)
    (h' : IsList m l' ys) (hne : l ≠ l') :
    ∃ m', listMerge m l l' = .ok m' ∧ IsList m' l (xs ++ ys) ∧ m'.value = m.value ∧
      (∀ k, k ∉ xs → k ∉ ys → m'.links k = m.links k ∧ m'.owner k = m.owner k) ∧
      ∀ l'', l'' ≠ l →
        m'.head l'' = m.head l'' ∧ m'.tail l'' = m.tail l'' ∧ m'.length l'' = m.length l'' := by
  obtain ⟨m', hrun, hhead, htail, hlength, howner, hvalue, hlinks⟩ := listMerge_fields h h'
  have hdisj : ∀ k ∈ xs, k ∉ ys := by
    intro k hx hy
    have howned := (h.owned k hx).symm.trans (h'.owned k hy)
    exact hne (Option.some.inj howned)
  refine ⟨m', hrun, ?_, hvalue, ?_, ?_⟩
  · constructor
    · rw [hhead, Function.update_self]
    · rw [htail, Function.update_self]
    · rw [hlength, Function.update_self, List.length_append]
    · have hnotfirst : ∀ k ∈ xs, ys.head? ≠ some k :=
        fun k hk hfirst => hdisj k hk (List.mem_of_mem_head? hfirst)
      have hnotlast : ∀ k ∈ ys, xs.getLast? ≠ some k :=
        fun k hk hlast => hdisj k (List.mem_of_getLast? hlast) hk
      rw [Links.seg_append]
      constructor
      · apply h.linked.relink h.nodup
        · intro k hk
          rw [hlinks, if_neg (hnotfirst k (List.mem_of_mem_head? hk))]
          exact h.linked.prev_head hk
        · intro k hk _
          rw [hlinks, if_neg (hnotfirst k hk)]
        · intro k hk
          rw [hlinks, if_pos hk, Option.or_none]
        · intro k _ hlk
          rw [hlinks, if_neg hlk]
      · apply h'.linked.relink h'.nodup
        · intro k hk
          rw [hlinks, if_pos hk, Option.or_none]
        · intro k _ hk
          rw [hlinks, if_neg hk]
        · intro k hk
          rw [hlinks, if_neg (hnotlast k (List.mem_of_getLast? hk))]
          exact h'.linked.next_last hk
        · intro k hk _
          rw [hlinks, if_neg (hnotlast k hk)]
    · exact List.nodup_append.2
        ⟨h.nodup, h'.nodup, fun a ha b hb hab => hdisj a ha (hab ▸ hb)⟩
    · intro k hk
      rw [howner]
      split
      · rfl
      · rename_i hky
        exact h.owned k ((List.mem_append.1 hk).resolve_right hky)
  · intro k hkx hky
    constructor
    · have hlast : xs.getLast? ≠ some k := fun hk => hkx (List.mem_of_getLast? hk)
      have hfirst : ys.head? ≠ some k := fun hk => hky (List.mem_of_mem_head? hk)
      rw [hlinks, if_neg hlast, if_neg hfirst]
    · rw [howner, if_neg hky]
  · intro l'' hl
    rw [hhead, htail, hlength]
    simp [hl]

end KernelTest.Libc
