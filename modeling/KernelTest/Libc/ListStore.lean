import KernelTest.Libc.LinkedList

/-!
# Several lists in one memory

`Lists m L` says that the lists in `L`, and possibly others, are well formed and have the given
nodes. As a node has one owner, two of them have no node in common, and an operation on one list
leaves the others alone.
-/

namespace KernelTest.Libc

variable {ν κ α : Type} [DecidableEq ν] [DecidableEq κ]

/-- The lists `l` with `L l = some xs` are well formed and have the nodes `xs`. -/
def Lists (m : ListMem ν κ α) (L : κ → Option (List ν)) : Prop :=
  ∀ l xs, L l = some xs → IsList m l xs

namespace Lists

variable {m : ListMem ν κ α} {L : κ → Option (List ν)} {l l' : κ} {xs ys : List ν} {n : ν}

omit [DecidableEq ν] [DecidableEq κ] in
theorem eq_of_mem (h : Lists m L) (hl : L l = some xs) (hl' : L l' = some ys) (hn : n ∈ xs)
    (hn' : n ∈ ys) : l = l' := by
  have howner := (h l xs hl).owned n hn
  rw [(h l' ys hl').owned n hn'] at howner
  exact (Option.some.inj howner).symm

omit [DecidableEq ν] in
private theorem update {m' : ListMem ν κ α} {o : Option (List ν)}
    (hlist : ∀ xs, o = some xs → IsList m' l xs)
    (hothers : ∀ l' ys, l' ≠ l → L l' = some ys → IsList m' l' ys) :
    Lists m' (Function.update L l o) := by
  intro l' ys hl'
  by_cases hne : l' = l
  · subst hne
    rw [Function.update_self] at hl'
    exact hlist ys hl'
  · rw [Function.update_of_ne hne] at hl'
    exact hothers l' ys hne hl'

omit [DecidableEq ν] in
theorem create (h : Lists m L) : Lists (listCreate m l) (Function.update L l (some [])) := by
  apply update
  · intro xs hxs
    rw [← Option.some.inj hxs]
    exact isList_create m l
  · intro l' ys hne hl'
    exact (h l' ys hl').congr (by simp [listCreate, hne]) fun _ _ => ⟨rfl, rfl⟩

omit [DecidableEq ν] in
theorem of_relinked {m' : ListMem ν κ α} {zs : List ν} (h : Lists m L) (hlist : IsList m' l zs)
    (hframe : Relinked m m' l n) (hn : ∀ l' ys, l' ≠ l → L l' = some ys → n ∉ ys) :
    Lists m' (Function.update L l (some zs)) := by
  apply update
  · intro xs hxs
    rw [← Option.some.inj hxs]
    exact hlist
  · intro l' ys hne hl'
    exact (h l' ys hl').relinked hframe hne (hn l' ys hne hl')

omit [DecidableEq κ] in
theorem initNode (h : Lists m L) (hn : ∀ l ys, L l = some ys → n ∉ ys) (v : α) :
    Lists (m.initNode n v) L :=
  fun l ys hl => (h l ys hl).initNode (hn l ys hl) v

theorem insert (h : Lists m L) (hl : L l = some xs) (hn : ∀ l' ys, L l' = some ys → n ∉ ys)
    (v : α) :
    ∃ m', listInsert m l n v = .ok m' ∧ Lists m' (Function.update L l (some (xs ++ [n]))) ∧
      m'.value = Function.update m.value n v := by
  obtain ⟨m', hrun, hlist, hframe⟩ := (h l xs hl).insert (hn l xs hl) v
  exact ⟨m', hrun, (h.initNode hn v).of_relinked hlist hframe fun l' ys _ hl' => hn l' ys hl',
    hframe.value⟩

theorem delete (h : Lists m L) (hl : L l = some xs) (hn : n ∈ xs) :
    ∃ m', listDelete m l n = .ok m' ∧ Lists m' (Function.update L l (some (xs.erase n))) ∧
      m'.value = m.value := by
  obtain ⟨front, back, rfl⟩ := List.append_of_mem hn
  have hnodup := (h l _ hl).nodup
  have hfront : n ∉ front := by
    rw [List.nodup_middle, List.nodup_cons] at hnodup
    exact fun hmem => hnodup.1 (List.mem_append_left back hmem)
  obtain ⟨m', hrun, hlist, howner, hframe⟩ := (h l _ hl).delete
  refine ⟨m', hrun, ?_, hframe.value⟩
  rw [List.erase_append_right _ hfront, List.erase_cons_head]
  exact h.of_relinked hlist hframe fun l' ys hne hl' hmem => hne (h.eq_of_mem hl' hl hmem hn)

theorem merge (h : Lists m L) (hl : L l = some xs) (hl' : L l' = some ys) (hne : l ≠ l') :
    ∃ m', listMerge m l l' = .ok m' ∧
      Lists m' (Function.update (Function.update L l' none) l (some (xs ++ ys))) ∧
      m'.value = m.value := by
  obtain ⟨m', hrun, hlist, hvalue, hnodes, hlists⟩ := (h l xs hl).merge (h l' ys hl') hne
  refine ⟨m', hrun, update ?_ ?_, hvalue⟩
  · intro zs hzs
    rw [← Option.some.inj hzs]
    exact hlist
  · intro k zs hk hzs
    by_cases hkl' : k = l'
    · rw [hkl', Function.update_self] at hzs
      cases hzs
    · rw [Function.update_of_ne hkl'] at hzs
      apply (h k zs hzs).congr (hlists k hk)
      intro n hn
      exact hnodes n (fun hmem => hk (h.eq_of_mem hzs hl hn hmem))
        (fun hmem => hkl' (h.eq_of_mem hzs hl' hn hmem))

end Lists

end KernelTest.Libc
