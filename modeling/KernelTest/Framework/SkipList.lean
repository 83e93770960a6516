import Mathlib.Data.List.Basic
import Mathlib.Data.List.Nodup
import Mathlib.Data.List.Sublists
import Mathlib.Data.List.TakeWhile

/-!
# Chains of pointers and skip lists

A successor function on `Option α` is a chain of nodes behind a head, which is `none`. A skip list
is a family of chains, each a sublist of the one below, whose nodes are ordered by a key.
-/

namespace KernelTest

section Chain

variable {α : Type} {f g : Option α → Option α} {a : Option α} {v : α} {xs ys : List α}

/-- Following `f` from `a` visits `xs` and then ends. -/
def Chain (f : Option α → Option α) : Option α → List α → Prop
  | a, [] => f a = none
  | a, x :: xs => f a = some x ∧ Chain f (some x) xs

namespace Chain

@[simp] theorem nil_iff : Chain f a [] ↔ f a = none := Iff.rfl

@[simp] theorem cons_iff : Chain f a (v :: xs) ↔ f a = some v ∧ Chain f (some v) xs := Iff.rfl

theorem head (h : Chain f a xs) : f a = xs.head? := by
  cases xs with
  | nil => exact h
  | cons x xs => exact h.1

theorem congr {b : Option α} (h : Chain f a xs) (hb : g b = f a)
    (hg : ∀ x ∈ xs, g (some x) = f (some x)) : Chain g b xs := by
  induction xs generalizing a b with
  | nil => exact hb.trans h
  | cons x xs ih =>
    exact ⟨hb.trans h.1, ih h.2 (hg x (by simp)) fun y hy => hg y (by simp [hy])⟩

theorem unique (hx : Chain f a xs) (hy : Chain f a ys) : xs = ys := by
  induction xs generalizing a ys with
  | nil =>
    cases ys with
    | nil => rfl
    | cons y ys =>
      rw [nil_iff, hy.1] at hx
      cases hx
  | cons x xs ih =>
    cases ys with
    | nil =>
      rw [nil_iff, hx.1] at hy
      cases hy
    | cons y ys =>
      obtain rfl : x = y := Option.some.inj (hx.1.symm.trans hy.1)
      rw [ih hx.2 hy.2]

theorem ofRange {node : Nat → α} {i n : Nat} (hhead : f a = some (node i))
    (hnext : ∀ j, i ≤ j → j < i + n → f (some (node j)) = some (node (j + 1)))
    (hend : f (some (node (i + n))) = none) : Chain f a ((List.range' i (n + 1)).map node) := by
  induction n generalizing a i with
  | zero => exact ⟨hhead, hend⟩
  | succ n ih =>
    rw [List.range'_succ, List.map_cons]
    refine ⟨hhead, ih (hnext i (Nat.le_refl i) (by omega)) ?_ ?_⟩
    · exact fun j hlo hhi => hnext j (by omega) (by omega)
    · rwa [show i + 1 + n = i + (n + 1) by omega]

theorem getLast?_or_cons (x : α) (xs : List α) (a : Option α) :
    (x :: xs).getLast?.or a = xs.getLast?.or (some x) := by
  cases xs <;> simp [List.getLast?_cons]

theorem suffix (h : Chain f a (xs ++ ys)) : Chain f (xs.getLast?.or a) ys := by
  induction xs generalizing a with
  | nil => exact h
  | cons x xs ih =>
    rw [getLast?_or_cons]
    exact ih h.2

private theorem last_eq_some (x : α) (xs : List α) :
    ∃ y ∈ x :: xs, xs.getLast?.or (some x) = some y := by
  cases hlast : xs.getLast? with
  | none => exact ⟨x, by simp, by simp⟩
  | some y => exact ⟨y, List.mem_cons_of_mem x (List.mem_of_getLast? hlast), by simp⟩

private theorem insertFrom (h : Chain f a (xs ++ ys)) (hnodup : (xs ++ ys).Nodup)
    (ha : ∀ x ∈ xs ++ ys, a ≠ some x) (hav : a ≠ some v) (hv : v ∉ xs ++ ys)
    (hlast : g (xs.getLast?.or a) = some v) (hnew : g (some v) = f (xs.getLast?.or a))
    (hother : ∀ b, (b = a ∨ ∃ x ∈ xs ++ ys, b = some x) → b ≠ xs.getLast?.or a → b ≠ some v →
      g b = f b) : Chain g a (xs ++ v :: ys) := by
  induction xs generalizing a with
  | nil =>
    refine ⟨hlast, h.congr hnew fun y hy =>
      hother (some y) (Or.inr ⟨y, hy, rfl⟩) (Ne.symm (ha y hy)) ?_⟩
    rintro ⟨rfl⟩
    exact hv hy
  | cons x xs ih =>
    rw [getLast?_or_cons] at hlast hnew hother
    obtain ⟨y, hy, hlasty⟩ := last_eq_some x xs
    have hne : a ≠ xs.getLast?.or (some x) := by
      rw [hlasty]
      exact ha y (List.mem_append_left ys hy)
    rw [List.cons_append, List.nodup_cons] at hnodup
    refine ⟨(hother a (Or.inl rfl) hne hav).trans h.1,
      ih h.2 hnodup.2 ?_ ?_ ?_ hlast hnew fun b hb => hother b (Or.inr ?_)⟩
    · rintro z hz ⟨rfl⟩
      exact hnodup.1 hz
    · rintro ⟨rfl⟩
      exact hv (by simp)
    · exact fun hmem => hv (List.mem_cons_of_mem x hmem)
    · rcases hb with rfl | ⟨z, hz, rfl⟩
      · exact ⟨x, by simp, rfl⟩
      · exact ⟨z, List.mem_cons_of_mem x hz, rfl⟩

theorem insert (h : Chain f none (xs ++ ys)) (hnodup : (xs ++ ys).Nodup) (hv : v ∉ xs ++ ys)
    (hlast : g xs.getLast? = some v) (hnew : g (some v) = f xs.getLast?)
    (hother : ∀ b, (∀ x, b = some x → x ∈ xs ++ ys) → b ≠ xs.getLast? → b ≠ some v → g b = f b) :
    Chain g none (xs ++ v :: ys) := by
  refine insertFrom h hnodup (fun _ _ h => by cases h) (fun h => by cases h) hv (by simpa using hlast)
    (by simpa using hnew) fun b hb hlast' => hother b ?_ (by simpa using hlast')
  rcases hb with rfl | ⟨y, hy, rfl⟩
  · exact fun x hx => (by cases hx)
  · exact fun x hx => Option.some.inj hx ▸ hy

private theorem deleteFrom (h : Chain f a (xs ++ v :: ys)) (hnodup : (xs ++ v :: ys).Nodup)
    (ha : ∀ x ∈ xs ++ v :: ys, a ≠ some x) (hlast : g (xs.getLast?.or a) = f (some v))
    (hother : ∀ b, (b = a ∨ ∃ x ∈ xs ++ ys, b = some x) → b ≠ xs.getLast?.or a → b ≠ some v →
      g b = f b) : Chain g a (xs ++ ys) := by
  induction xs generalizing a with
  | nil =>
    rw [List.nil_append, List.nodup_cons] at hnodup
    refine h.2.congr hlast fun y hy =>
      hother (some y) (Or.inr ⟨y, hy, rfl⟩) (Ne.symm (ha y (by simp [hy]))) ?_
    rintro ⟨rfl⟩
    exact hnodup.1 hy
  | cons x xs ih =>
    rw [getLast?_or_cons] at hlast hother
    obtain ⟨y, hy, hlasty⟩ := last_eq_some x xs
    have hne : a ≠ xs.getLast?.or (some x) := by
      rw [hlasty]
      exact ha y (List.mem_append_left _ hy)
    have hav : a ≠ some v := ha v (by simp)
    rw [List.cons_append, List.nodup_cons] at hnodup
    refine ⟨(hother a (Or.inl rfl) hne hav).trans h.1,
      ih h.2 hnodup.2 ?_ hlast fun b hb => hother b (Or.inr ?_)⟩
    · rintro z hz ⟨rfl⟩
      exact hnodup.1 hz
    · rcases hb with rfl | ⟨z, hz, rfl⟩
      · exact ⟨x, by simp, rfl⟩
      · exact ⟨z, List.mem_cons_of_mem x hz, rfl⟩

theorem delete (h : Chain f none (xs ++ v :: ys)) (hnodup : (xs ++ v :: ys).Nodup)
    (hlast : g xs.getLast? = f (some v))
    (hother : ∀ b, (∀ x, b = some x → x ∈ xs ++ ys) → b ≠ xs.getLast? → b ≠ some v → g b = f b) :
    Chain g none (xs ++ ys) := by
  refine deleteFrom h hnodup (fun _ _ h => by cases h) (by simpa using hlast) fun b hb hlast' =>
    hother b ?_ (by simpa using hlast')
  rcases hb with rfl | ⟨y, hy, rfl⟩
  · exact fun x hx => (by cases hx)
  · exact fun x hx => Option.some.inj hx ▸ hy

end Chain

end Chain

section Ordered

variable {α : Type} (key : α → Nat) {s : Nat} {v : α} {xs ys : List α}

/-- The keys do not get smaller along the list. -/
def Ordered (xs : List α) : Prop := xs.Pairwise fun a b => key a ≤ key b

def below (s : Nat) (xs : List α) : List α := xs.filter fun a => key a < s

def above (s : Nat) (xs : List α) : List α := xs.filter fun a => s ≤ key a

def insertKey (v : α) (xs : List α) : List α := below key (key v) xs ++ v :: above key (key v) xs

variable {key}

@[simp] theorem mem_below {a : α} : a ∈ below key s xs ↔ a ∈ xs ∧ key a < s := by simp [below]

@[simp] theorem mem_above {a : α} : a ∈ above key s xs ↔ a ∈ xs ∧ s ≤ key a := by simp [above]

theorem below_append_above (h : Ordered key xs) : below key s xs ++ above key s xs = xs := by
  induction xs with
  | nil => rfl
  | cons x xs ih =>
    obtain ⟨hx, hxs⟩ := List.pairwise_cons.1 h
    by_cases hkey : key x < s
    · have hrest := ih hxs
      simpa [below, above, hkey, Nat.not_le.2 hkey] using hrest
    · have hnone : below key s (x :: xs) = [] := by
        rw [below, List.filter_eq_nil_iff]
        intro y hy
        rcases List.mem_cons.1 hy with rfl | hy
        · simpa using hkey
        · have := hx y hy
          simp
          omega
      have hall : above key s (x :: xs) = x :: xs := by
        rw [above, List.filter_eq_self]
        intro y hy
        rcases List.mem_cons.1 hy with rfl | hy
        · simpa using hkey
        · have := hx y hy
          simp
          omega
      rw [hnone, hall]
      rfl

theorem takeWhile_eq_below (h : Ordered key xs) :
    xs.takeWhile (fun a => key a < s) = below key s xs := by
  induction xs with
  | nil => rfl
  | cons x xs ih =>
    obtain ⟨hx, hxs⟩ := List.pairwise_cons.1 h
    by_cases hkey : key x < s
    · simpa [below, hkey] using ih hxs
    · have hnone : below key s xs = [] := by
        rw [below, List.filter_eq_nil_iff]
        intro y hy
        have := hx y hy
        simp
        omega
      rw [below] at hnone
      simp [below, hkey, hnone]

theorem insertKey_ordered (h : Ordered key xs) : Ordered key (insertKey key v xs) := by
  rw [Ordered, insertKey, List.pairwise_append, List.pairwise_cons]
  refine ⟨h.filter _, ⟨fun a ha => (mem_above.1 ha).2, h.filter _⟩, fun a ha b hb => ?_⟩
  have hakey := (mem_below.1 ha).2
  rcases List.mem_cons.1 hb with rfl | hb
  · omega
  · have := (mem_above.1 hb).2
    omega

theorem mem_insertKey {a : α} : a ∈ insertKey key v xs ↔ a = v ∨ a ∈ xs := by
  rw [insertKey, List.mem_append, List.mem_cons, mem_below, mem_above]
  constructor
  · rintro (⟨ha, _⟩ | rfl | ⟨ha, _⟩)
    · exact Or.inr ha
    · exact Or.inl rfl
    · exact Or.inr ha
  · rintro (rfl | ha)
    · exact Or.inr (Or.inl rfl)
    · rcases Nat.lt_or_ge (key a) (key v) with hlt | hge
      · exact Or.inl ⟨ha, hlt⟩
      · exact Or.inr (Or.inr ⟨ha, hge⟩)

theorem insertKey_nodup (h : xs.Nodup) (hv : v ∉ xs) : (insertKey key v xs).Nodup := by
  rw [insertKey, List.nodup_append, List.nodup_cons]
  refine ⟨h.filter _, ⟨fun hmem => hv (mem_above.1 hmem).1, h.filter _⟩, fun a ha b hb hab => ?_⟩
  subst hab
  obtain ⟨hmem, hkey⟩ := mem_below.1 ha
  rcases List.mem_cons.1 hb with rfl | hb
  · exact hv hmem
  · have := (mem_above.1 hb).2
    omega

theorem insertKey_sublist (h : List.Sublist ys xs) :
    List.Sublist (insertKey key v ys) (insertKey key v xs) :=
  (h.filter _).append ((h.filter _).cons_cons v)

theorem sublist_insertKey (h : Ordered key xs) : List.Sublist xs (insertKey key v xs) := by
  have hsplit := below_append_above (s := key v) h
  rw [insertKey]
  conv_lhs => rw [← hsplit]
  exact (List.Sublist.refl _).append (List.sublist_cons_self v _)

theorem search_step (hordered : Ordered key xs) (hsub : List.Sublist ys xs) :
    ∃ pre post, xs = pre ++ post ∧ pre.getLast? = (below key s ys).getLast? ∧
      (post.takeWhile fun a => key a < s).getLast?.or (below key s ys).getLast? =
        (below key s xs).getLast? := by
  cases hlast : (below key s ys).getLast? with
  | none => exact ⟨[], xs, rfl, rfl, by rw [takeWhile_eq_below hordered]; simp⟩
  | some a =>
    obtain ⟨hmem, hkey⟩ := mem_below.1 (List.mem_of_getLast? hlast)
    obtain ⟨pre, post, rfl⟩ := List.append_of_mem (hsub.subset hmem)
    obtain ⟨_, hpost, hle⟩ := List.pairwise_append.1 hordered
    have hpre : below key s pre = pre := by
      rw [below, List.filter_eq_self]
      intro b hb
      have := hle b hb a (by simp)
      simp
      omega
    have hsplit : below key s (pre ++ a :: post) = pre ++ a :: below key s post := by
      rw [below, List.filter_append]
      rw [below] at hpre
      rw [hpre]
      simp [below, hkey]
    refine ⟨pre ++ [a], post, by simp, by simp, ?_⟩
    rw [takeWhile_eq_below (List.pairwise_cons.1 hpost).2, hsplit]
    simp [List.getLast?_append, List.getLast?_cons]

theorem head_above_key (h : (above key s xs).head? = some v) :
    (above key (key v) xs).head? = some v := by
  obtain ⟨rest, hrest⟩ := List.head?_eq_some_iff.1 h
  have hkey : s ≤ key v := (mem_above.1 (hrest ▸ List.mem_cons_self)).2
  have hfilter : above key (key v) xs = above key (key v) (above key s xs) := by
    rw [above, above, above, List.filter_filter]
    refine List.filter_congr fun a _ => ?_
    simp
    omega
  rw [hfilter, hrest]
  simp [above]

theorem head_above_iff_find (h : Ordered key xs) (hv : v ∈ xs) :
    (above key (key v) xs).head? = some v ↔ xs.find? (fun a => decide (key a = key v)) = some v := by
  induction xs with
  | nil => cases hv
  | cons x xs ih =>
    obtain ⟨hx, hxs⟩ := List.pairwise_cons.1 h
    rcases Nat.lt_trichotomy (key x) (key v) with hlt | heq | hgt
    · have hmem : v ∈ xs := (List.mem_cons.1 hv).resolve_left fun he => by
        subst he
        exact Nat.lt_irrefl _ hlt
      rw [above, List.filter_cons_of_neg (by simpa using hlt),
        List.find?_cons_of_neg (by simpa using Nat.ne_of_lt hlt)]
      exact ih hxs hmem
    · rw [above, List.filter_cons_of_pos (by simpa using Nat.le_of_eq heq.symm), List.head?_cons,
        List.find?_cons_of_pos (by simpa using heq)]
    · rcases List.mem_cons.1 hv with rfl | hmem
      · exact absurd hgt (Nat.lt_irrefl _)
      · exact absurd hgt (Nat.not_lt.2 (hx v hmem))

theorem head_above_sublist (h : (above key s xs).head? = some v) (hnodup : xs.Nodup)
    (hsub : List.Sublist ys xs) (hv : v ∈ ys) : (above key s ys).head? = some v := by
  obtain ⟨rest, hrest⟩ := List.head?_eq_some_iff.1 h
  have hkey : s ≤ key v := (mem_above.1 (hrest ▸ List.mem_cons_self)).2
  have hsub' : List.Sublist (above key s ys) (v :: rest) := hrest ▸ hsub.filter _
  have hnodup' : (v :: rest).Nodup := hrest ▸ hnodup.filter _
  have hmem : v ∈ above key s ys := mem_above.2 ⟨hv, hkey⟩
  generalize above key s ys = zs at hsub' hmem
  cases hsub' with
  | cons _ hsub'' => exact absurd (hsub''.subset hmem) (List.nodup_cons.1 hnodup').1
  | cons_cons _ _ => rfl

theorem erase_split [DecidableEq α] (h : Ordered key xs) (hv : (above key (key v) xs).head? = some v) :
    ∃ rest, xs = below key (key v) xs ++ v :: rest ∧ xs.erase v = below key (key v) xs ++ rest := by
  obtain ⟨rest, hrest⟩ := List.head?_eq_some_iff.1 hv
  have hsplit := below_append_above (s := key v) h
  rw [hrest] at hsplit
  refine ⟨rest, hsplit.symm, ?_⟩
  have hnot : v ∉ below key (key v) xs := fun hmem => Nat.lt_irrefl _ (mem_below.1 hmem).2
  conv_lhs => rw [← hsplit]
  rw [List.erase_append_right _ hnot, List.erase_cons_head]

end Ordered

section Levels

variable {α : Type} [DecidableEq α]

/-- The lists of a skip list, from the one of all nodes up. -/
structure SkipLevels (key : α → Nat) (levels : Nat → List α) : Prop where
  nodup : (levels 0).Nodup
  ordered : Ordered key (levels 0)
  nested : ∀ i, List.Sublist (levels (i + 1)) (levels i)

namespace SkipLevels

variable {key : α → Nat} {levels : Nat → List α} {v : α}

omit [DecidableEq α] in
theorem sublist_of_le (h : SkipLevels key levels) {i j : Nat} (hij : i ≤ j) :
    List.Sublist (levels j) (levels i) := by
  induction j, hij using Nat.le_induction with
  | base => exact List.Sublist.refl _
  | succ j _ ih => exact (h.nested j).trans ih

omit [DecidableEq α] in
theorem sublist_zero (h : SkipLevels key levels) (i : Nat) :
    List.Sublist (levels i) (levels 0) := h.sublist_of_le (Nat.zero_le i)

omit [DecidableEq α] in
theorem ordered_at (h : SkipLevels key levels) (i : Nat) : Ordered key (levels i) :=
  h.ordered.sublist (h.sublist_zero i)

omit [DecidableEq α] in
theorem nodup_at (h : SkipLevels key levels) (i : Nat) : (levels i).Nodup :=
  h.nodup.sublist (h.sublist_zero i)

omit [DecidableEq α] in
theorem insert (h : SkipLevels key levels) (hv : v ∉ levels 0) (k : Nat) :
    SkipLevels key fun i => if i ≤ k then insertKey key v (levels i) else levels i := by
  refine ⟨?_, ?_, fun i => ?_⟩
  · simpa using insertKey_nodup h.nodup hv
  · simpa using insertKey_ordered h.ordered
  · by_cases hi : i + 1 ≤ k
    · rw [if_pos hi, if_pos (by omega)]
      exact insertKey_sublist (h.nested i)
    · rw [if_neg hi]
      split
      · exact (h.nested i).trans (sublist_insertKey (h.ordered_at i))
      · exact h.nested i

theorem erase (h : SkipLevels key levels) (v : α) :
    SkipLevels key fun i => (levels i).erase v :=
  ⟨h.nodup.erase v, h.ordered.sublist List.erase_sublist, fun i => (h.nested i).erase v⟩

end SkipLevels

end Levels

end KernelTest
