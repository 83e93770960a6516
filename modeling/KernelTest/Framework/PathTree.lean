import Mathlib.Logic.Basic

/-!
# Trees that are searched by name

Every node carries an entry, and the entries of its children have keys. A path is a list of keys; of
several children with one key the first is meant.
-/

namespace KernelTest

inductive Tree (β : Type) where
  | node (value : β) (children : List (Tree β))

namespace Tree

inductive All {β : Type} (P : β → Prop) : Tree β → Prop
  | node {v : β} {ts : List (Tree β)} (hv : P v) (hts : ∀ t ∈ ts, All P t) : All P (node v ts)

/-- The entry `v` is in the tree. -/
inductive Mem {β : Type} (v : β) : Tree β → Prop
  | here {ts : List (Tree β)} : Mem v (node v ts)
  | under {w : β} {ts : List (Tree β)} {t : Tree β} (ht : t ∈ ts) (h : Mem v t) : Mem v (node w ts)

variable {β κ ν : Type} {t : Tree β} {ts : List (Tree β)} {k l : κ} {p q : List κ}

def value : Tree β → β
  | node v _ => v

def children : Tree β → List (Tree β)
  | node _ ts => ts

@[simp] theorem value_node (v : β) (ts : List (Tree β)) : (node v ts).value = v := rfl

@[simp] theorem children_node (v : β) (ts : List (Tree β)) : (node v ts).children = ts := rfl

theorem All.value {P : β → Prop} (h : t.All P) : P t.value := by
  cases h
  assumption

theorem All.children {P : β → Prop} (h : t.All P) : ∀ u ∈ t.children, u.All P := by
  cases h
  assumption

theorem All.of_mem {P : β → Prop} {v : β} (h : t.All P) (hv : t.Mem v) : P v := by
  induction hv with
  | here => exact h.value
  | under ht _ ih => exact ih (h.children _ ht)

theorem all_of_mem {P : β → Prop} : ∀ {t : Tree β}, (∀ v, t.Mem v → P v) → t.All P
  | .node v _, h => .node (h v .here) fun _ ht => all_of_mem fun w hw => h w (.under ht hw)

theorem All.mono {P Q : β → Prop} (h : t.All P) (hPQ : ∀ v, P v → Q v) : t.All Q := by
  induction h with
  | node hv _ ih => exact .node (hPQ _ hv) ih

variable [DecidableEq κ] (key : β → κ) (fresh : κ → β) (f : β → β) (observe : β → Option ν)

/-- The first child with the key `k`. -/
def child (k : κ) (ts : List (Tree β)) : Option (Tree β) := ts.find? fun t => key t.value = k

def at? : List κ → Tree β → Option (Tree β)
  | [], t => some t
  | k :: p, t => (child key k t.children).bind (at? p)

/-- Apply `g` to the first child with the key `k`, or to a new one behind the others. -/
def updateChild (k : κ) (g : Tree β → Tree β) : List (Tree β) → List (Tree β)
  | [] => [g (node (fresh k) [])]
  | t :: ts => if key t.value = k then g t :: ts else t :: updateChild k g ts

/-- Change the entry at the end of a path, making the nodes on the way that are missing. -/
def update : List κ → Tree β → Tree β
  | [], t => node (f t.value) t.children
  | k :: p, t => node t.value (updateChild key fresh k (update p) t.children)

def look (p : List κ) (t : Tree β) : Option ν := (at? key p t).bind fun t => observe t.value

variable {key fresh f observe}

@[simp] theorem look_nil : look key observe [] t = observe t.value := rfl

theorem child_updateChild {g : Tree β → Tree β} (hfresh : key (fresh k) = k)
    (hg : ∀ t, key (g t).value = key t.value) :
    child key l (updateChild key fresh k g ts) =
      if l = k then some (g ((child key k ts).getD (node (fresh k) []))) else child key l ts := by
  induction ts with
  | nil =>
    by_cases hlk : l = k
    · simp [child, updateChild, hg, hfresh, hlk]
    · simp [child, updateChild, hg, hfresh, hlk, Ne.symm hlk]
  | cons t ts ih =>
    rw [updateChild]
    by_cases ht : key t.value = k
    · by_cases hlk : l = k
      · simp [child, ht, hg, hlk]
      · simp [child, ht, hg, hlk, Ne.symm hlk]
    · rw [if_neg ht]
      by_cases hlk : l = k
      · subst hlk
        simpa [child, ht] using ih
      · by_cases htl : key t.value = l
        · simp [child, htl, hlk]
        · simpa [child, htl, hlk] using ih

theorem key_update (hf : ∀ v, key (f v) = key v) (p : List κ) (t : Tree β) :
    key (update key fresh f p t).value = key t.value := by
  cases p with
  | nil => exact hf t.value
  | cons k p => rfl

theorem look_update (hfresh : ∀ k ∈ p, key (fresh k) = k) (hf : ∀ v, key (f v) = key v)
    (hblank : ∀ k, observe (fresh k) = none) {w : Option ν} (hw : ∀ v, observe (f v) = w) :
    look key observe q (update key fresh f p t) =
      if q = p then w else look key observe q t := by
  induction p generalizing q t with
  | nil =>
    cases q with
    | nil => simp [look, at?, update, hw]
    | cons l q => simp [look, at?, update]
  | cons k p ih =>
    cases q with
    | nil => simp [look, at?, update]
    | cons l q =>
      have hchild : child key l (updateChild key fresh k (update key fresh f p) t.children) = _ :=
        child_updateChild (hfresh k (by simp)) fun t => key_update hf p t
      simp only [look, at?, update, children_node, hchild]
      by_cases hlk : l = k
      · subst hlk
        have hq := ih (q := q) (t := (child key l t.children).getD (node (fresh l) []))
          fun k hk => hfresh k (by simp [hk])
        simp only [look] at hq
        simp only [if_true, Option.bind_some, hq, List.cons.injEq, true_and]
        split
        · rfl
        · cases hc : child key l t.children with
          | none =>
            cases q with
            | nil => simp [at?, hblank]
            | cons m q => simp [at?, child]
          | some c => simp
      · simp [hlk]

/-- The walk along a path that notes the last entry seen and what is left of the path behind it. -/
def deepest (key : β → κ) (observe : β → Option ν) :
    List κ → Tree β → ν × List κ → ν × List κ
  | [], _, found => found
  | k :: p, t, found =>
    match child key k t.children with
    | none => found
    | some c =>
      deepest key observe p c (match observe c.value with
        | some v => (v, p)
        | none => found)

end Tree

section LongestPrefix

variable {κ ν : Type} {g : List κ → Option ν} {k : κ} {p q r : List κ} {v : ν}

/-- The longest prefix of a path at which `g` has a value: the value, and the rest of the path. -/
def longestPrefix (g : List κ → Option ν) : List κ → Option (ν × List κ)
  | [] => (g []).map fun v => (v, [])
  | k :: p => (longestPrefix (fun q => g (k :: q)) p).or ((g []).map fun v => (v, k :: p))

theorem longestPrefix_eq_none : longestPrefix g p = none ↔ ∀ q, q <+: p → g q = none := by
  induction p generalizing g with
  | nil => simp [longestPrefix]
  | cons k p ih =>
    rw [longestPrefix, Option.or_eq_none_iff, ih, Option.map_eq_none_iff]
    constructor
    · rintro ⟨hdeep, hroot⟩ q hq
      cases q with
      | nil => exact hroot
      | cons l q =>
        obtain ⟨rfl, htail⟩ := List.cons_prefix_cons.1 hq
        exact hdeep q htail
    · intro h
      exact ⟨fun q hq => h (k :: q) (List.cons_prefix_cons.2 ⟨rfl, hq⟩), h [] List.nil_prefix⟩

theorem longestPrefix_eq_some (h : longestPrefix g p = some (v, r)) :
    ∃ q, q ++ r = p ∧ g q = some v ∧ ∀ q', q' <+: p → q.length < q'.length → g q' = none := by
  induction p generalizing g with
  | nil =>
    obtain ⟨w, hw, he⟩ := Option.map_eq_some_iff.1 h
    obtain ⟨rfl, rfl⟩ := Prod.mk.inj he
    refine ⟨[], rfl, hw, fun q' hq' hlong => ?_⟩
    rw [List.prefix_nil.1 hq'] at hlong
    exact absurd hlong (by simp)
  | cons k p ih =>
    rw [longestPrefix, Option.or_eq_some_iff] at h
    rcases h with h | ⟨hnone, h⟩
    · obtain ⟨q, hqr, hq, hlonger⟩ := ih h
      refine ⟨k :: q, by simp [hqr], hq, fun q' hq' hlong => ?_⟩
      cases q' with
      | nil => simp at hlong
      | cons l q' =>
        obtain ⟨rfl, htail⟩ := List.cons_prefix_cons.1 hq'
        exact hlonger q' htail (by simpa using hlong)
    · obtain ⟨w, hw, he⟩ := Option.map_eq_some_iff.1 h
      obtain ⟨rfl, rfl⟩ := Prod.mk.inj he
      refine ⟨[], rfl, hw, fun q' hq' hlong => ?_⟩
      cases q' with
      | nil => simp at hlong
      | cons l q' =>
        obtain ⟨rfl, htail⟩ := List.cons_prefix_cons.1 hq'
        exact longestPrefix_eq_none.1 hnone q' htail

end LongestPrefix

namespace Tree

variable {β κ ν : Type} [DecidableEq κ] {key : β → κ} {observe : β → Option ν}

theorem deepest_suffix {p q : List κ} {t : Tree β} {found : ν × List κ} (hp : p <:+ q)
    (hfound : found.2 <:+ q) : (deepest key observe p t found).2 <:+ q := by
  induction p generalizing t found with
  | nil => exact hfound
  | cons k p ih =>
    have htail : p <:+ q := (List.suffix_cons k p).trans hp
    rw [deepest]
    split
    · exact hfound
    · apply ih htail
      split
      · exact htail
      · exact hfound

theorem deepest_eq (p : List κ) (t : Tree β) (found : ν × List κ) :
    deepest key observe p t (((observe t.value).map fun v => (v, p)).getD found) =
      (longestPrefix (fun q => look key observe q t) p).getD found := by
  induction p generalizing t found with
  | nil => rfl
  | cons k p ih =>
    rw [deepest, longestPrefix]
    cases hc : child key k t.children with
    | none =>
      have hnone : longestPrefix (fun q => look key observe (k :: q) t) p = none := by
        simp [longestPrefix_eq_none, look, at?, hc]
      rw [hnone]
      rfl
    | some c =>
      have hbelow : (fun q => look key observe (k :: q) t) = fun q => look key observe q c := by
        funext q
        simp [look, at?, hc]
      have hc' := ih c (((observe t.value).map fun v => (v, k :: p)).getD found)
      rw [hbelow, Option.getD_or, look_nil, ← hc']
      cases hw : observe c.value <;> simp [hw]

end Tree

section Names

variable {κ : Type} [DecidableEq κ]

/-- A name is put behind the others where it is new. -/
def addName (names : List κ) : Option κ → List κ
  | none => names
  | some k => if k ∈ names then names else names ++ [k]

/-- The name that comes behind `d` on the path `p`. -/
def nextOn : List κ → List κ → Option κ
  | [], p => p.head?
  | k :: d, l :: p => if k = l then nextOn d p else none
  | _ :: _, [] => none

theorem addName_nodup {names : List κ} (h : names.Nodup) (c : Option κ) : (addName names c).Nodup := by
  cases c with
  | none => exact h
  | some k =>
    rw [addName]
    split
    · exact h
    · next hnew =>
      rw [List.nodup_append]
      refine ⟨h, List.pairwise_singleton _ _, ?_⟩
      intro a ha b hb heq
      rw [List.mem_singleton.mp hb] at heq
      exact hnew (heq ▸ ha)

theorem foldl_addName_nodup {α : Type} (next : α → Option κ) (l : List α) {names : List κ}
    (h : names.Nodup) : (l.foldl (fun names a => addName names (next a)) names).Nodup := by
  induction l generalizing names with
  | nil => exact h
  | cons a l ih => exact ih (addName_nodup h (next a))

namespace Tree

variable {β : Type} {key : β → κ} {fresh : κ → β} {f : β → β} {t : Tree β} {ts : List (Tree β)}
  {k : κ} {p d : List κ}

/-- The keys of the children of the node at the end of a path. -/
def names (key : β → κ) (d : List κ) (t : Tree β) : List κ :=
  ((at? key d t).map fun t => t.children.map fun u => key u.value).getD []

theorem keys_updateChild {g : Tree β → Tree β} (hfresh : key (fresh k) = k)
    (hg : ∀ t, key (g t).value = key t.value) :
    (updateChild key fresh k g ts).map (fun u => key u.value) =
      addName (ts.map fun u => key u.value) (some k) := by
  induction ts with
  | nil => simp [updateChild, addName, hg, hfresh]
  | cons t ts ih =>
    rw [updateChild]
    by_cases ht : key t.value = k
    · simp [ht, hg, addName]
    · rw [if_neg ht, List.map_cons, ih, addName, addName]
      simp only [List.map_cons, List.mem_cons, Ne.symm ht, false_or]
      split
      · rfl
      · rfl

theorem names_update (hfresh : ∀ k ∈ p, key (fresh k) = k) (hf : ∀ v, key (f v) = key v) :
    names key d (update key fresh f p t) = addName (names key d t) (nextOn d p) := by
  induction d generalizing p t with
  | nil =>
    cases p with
    | nil => rfl
    | cons k p => exact keys_updateChild (hfresh k List.mem_cons_self) fun t => key_update hf p t
  | cons l d ih =>
    cases p with
    | nil => rfl
    | cons k p =>
      have hchild : child key l (updateChild key fresh k (update key fresh f p) t.children) = _ :=
        child_updateChild (hfresh k List.mem_cons_self) fun t => key_update hf p t
      rw [names, update, at?, children_node, hchild, nextOn]
      by_cases hlk : l = k
      · subst hlk
        have hbelow := ih (p := p) (t := (child key l t.children).getD (node (fresh l) []))
          fun k hk => hfresh k (List.mem_cons_of_mem _ hk)
        rw [names] at hbelow
        rw [if_pos rfl, if_pos rfl, Option.bind_some, hbelow, names, names, at?]
        cases hc : child key l t.children with
        | none =>
          cases d with
          | nil => rfl
          | cons m d => rfl
        | some c => rfl
      · rw [if_neg hlk, if_neg hlk]
        rfl

end Tree

end Names

end KernelTest
