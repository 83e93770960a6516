import KernelTest.Libc.Trees

/-!
# Sequences of calls on a tree

What each call does to a tree that is in order, and that all trees are in order that the calls lead to, unless a
branch is broken off, which leaves it in the count, or the root is removed with `tree_node_remove`.
-/

namespace KernelTest.Libc.Trees.Tree

open ParentTree

variable {s s' : Tree} {r a c e p t : Nat} {l cs : List Nat} {V : Nat → Option (List Nat)} {k : Nat}
  {node node' : Nat → Node} {call : TreeCall}

/-! ## Shapes -/

section Shapes

variable {value out list : Nat}

theorem Shape.root (h : (node r).parent = none) (hcs : V (node r).children = some []) : Shape node r [r] V := by
  refine ⟨.root h, fun a ha => ?_, fun a ha b hb _ => ?_⟩
  · rw [List.mem_singleton.mp ha]
    refine ⟨[], hcs, List.nodup_nil, fun c => iff_of_false List.not_mem_nil fun ⟨hc, hparent⟩ => ?_⟩
    rw [List.mem_singleton.mp hc, parentOf, h] at hparent
    cases hparent
  · rw [List.mem_singleton.mp ha, List.mem_singleton.mp hb]

theorem parentOf_update_of_ne (n : Node) (hc : c ≠ out) : parentOf (Function.update node out n) c = parentOf node c :=
  congrArg Node.parent (Function.update_of_ne hc _ _)

theorem parentOf_update_self (n : Node) : parentOf (Function.update node out n) out = n.parent :=
  congrArg Node.parent (Function.update_self ..)

theorem child_iff (hout : out ∉ l) (c : Nat) :
    (c ∈ l ++ [out] ∧ parentOf (Function.update node out ⟨value, list, some p⟩) c = some a) ↔
      (c ∈ l ∧ parentOf node c = some a) ∨ c = out ∧ a = p := by
  by_cases hc : c = out
  · rw [hc, parentOf_update_self, Option.some.injEq]
    simp [hout, eq_comm]
  · rw [parentOf_update_of_ne _ hc]
    simp [hc]

theorem Shape.child (h : Shape node r l V) (hp : p ∈ l) (hcs : V (node p).children = some cs) (hout : out ∉ l)
    (hlist : ∀ a ∈ l, (node a).children ≠ list) :
    Shape (Function.update node out ⟨value, list, some p⟩) r (l ++ [out])
      (Function.update (Function.update V list (some [])) (node p).children (some (cs ++ [out]))) := by
  have hne : ∀ a ∈ l, a ≠ out := fun a ha => ne_of_mem_of_not_mem ha hout
  have hold : ∀ a ∈ l, Function.update node out ⟨value, list, some p⟩ a = node a :=
    fun a ha => Function.update_of_ne (hne a ha) _ _
  refine ⟨.child (h.grown.congr fun a ha => parentOf_update_of_ne _ (hne a ha)) hout (parentOf_update_self _) hp, ?_, ?_⟩
  · intro a ha
    cases List.mem_append.mp ha with
    | inl ha =>
      obtain ⟨ds, hds, hnodup, hmem⟩ := h.children a ha
      rw [hold a ha]
      by_cases hap : a = p
      · rw [hap] at hds hmem ⊢
        rw [hcs, Option.some.injEq] at hds
        have hnotin : out ∉ cs := fun hin => hout ((hmem out).mp (hds ▸ hin)).1
        refine ⟨cs ++ [out], Function.update_self .., ?_, fun c => ?_⟩
        · exact List.nodup_append.mpr ⟨hds ▸ hnodup, List.nodup_singleton out,
            fun x hx y hy hxy => hnotin (List.mem_singleton.mp hy ▸ hxy ▸ hx)⟩
        · rw [child_iff hout, List.mem_append, hds, hmem, List.mem_singleton]
          simp
      · have hother : (node a).children ≠ (node p).children := fun heq => hap (h.apart a ha p hp heq)
        refine ⟨ds, ?_, hnodup, fun c => ?_⟩
        · rw [Function.update_of_ne hother, Function.update_of_ne (hlist a ha), hds]
        · rw [child_iff hout, hmem]
          simp [hap]
    | inr ha =>
      rw [List.mem_singleton.mp ha, Function.update_self]
      refine ⟨[], ?_, List.nodup_nil, fun c => ?_⟩
      · rw [Function.update_of_ne (hlist p hp).symm, Function.update_self]
      · rw [child_iff hout]
        refine iff_of_false List.not_mem_nil fun hc => ?_
        cases hc with
        | inl hold => exact hout (h.grown.parent_mem hold.1 hold.2)
        | inr hnew => exact hout (hnew.2 ▸ hp)
  · intro a ha b hb heq
    cases List.mem_append.mp ha with
    | inl ha =>
      cases List.mem_append.mp hb with
      | inl hb => exact h.apart a ha b hb (by rwa [hold a ha, hold b hb] at heq)
      | inr hb =>
        rw [hold a ha, List.mem_singleton.mp hb, Function.update_self] at heq
        exact absurd heq (hlist a ha)
    | inr ha =>
      cases List.mem_append.mp hb with
      | inl hb =>
        rw [hold b hb, List.mem_singleton.mp ha, Function.update_self] at heq
        exact absurd heq.symm (hlist b hb)
      | inr hb => rw [List.mem_singleton.mp ha, List.mem_singleton.mp hb]

theorem Shape.erased (h : Shape node r l V) (hp : parentOf node e = some p) (hpl : p ∈ l)
    (hcs : V (node p).children = some cs) (ha : a ∈ l) : ∃ ds,
    Function.update V (node p).children (some (cs.erase e)) (node a).children = some ds ∧ ds.Nodup ∧
      ∀ c, c ∈ ds ↔ (c ∈ l ∧ c ≠ e) ∧ parentOf node c = some a := by
  obtain ⟨ds, hds, hnodup, hmem⟩ := h.children a ha
  by_cases hap : a = p
  · rw [hap] at hds hmem ⊢
    rw [hcs, Option.some.injEq] at hds
    rw [← hds] at hnodup hmem
    refine ⟨cs.erase e, Function.update_self .., hnodup.erase e, fun c => ?_⟩
    rw [hnodup.mem_erase_iff, hmem]
    constructor
    · exact fun ⟨hne, hc, hparent⟩ => ⟨⟨hc, hne⟩, hparent⟩
    · exact fun ⟨⟨hc, hne⟩, hparent⟩ => ⟨hne, hc, hparent⟩
  · have hother : (node a).children ≠ (node p).children := fun heq => hap (h.apart a ha p hpl heq)
    refine ⟨ds, by rw [Function.update_of_ne hother, hds], hnodup, fun c => ?_⟩
    rw [hmem]
    constructor
    · intro ⟨hc, hparent⟩
      refine ⟨⟨hc, ?_⟩, hparent⟩
      rintro rfl
      rw [hp, Option.some.injEq] at hparent
      exact hap hparent.symm
    · exact fun ⟨⟨hc, _⟩, hparent⟩ => ⟨hc, hparent⟩

theorem Shape.cut (h : Shape node r l V) (he : e ≠ r) (hp : parentOf node e = some p) (hpl : p ∈ l)
    (hcs : V (node p).children = some cs) :
    Shape node r (ParentTree.cut (parentOf node) l e) (Function.update V (node p).children (some (cs.erase e))) := by
  have hsub : ∀ c ∈ ParentTree.cut (parentOf node) l e, c ∈ l := fun c hc => (mem_cut.mp hc).1
  refine ⟨h.grown.cut he, fun a ha => ?_, fun a ha b hb => h.apart a (hsub a ha) b (hsub b hb)⟩
  obtain ⟨ds, hds, hnodup, hmem⟩ := h.erased hp hpl hcs (hsub a ha)
  refine ⟨ds, hds, hnodup, fun c => ?_⟩
  rw [hmem, mem_cut]
  constructor
  · intro ⟨⟨hc, hne⟩, hparent⟩
    refine ⟨⟨hc, fun hb => ?_⟩, hparent⟩
    -- a node of the branch that is not its top has its parent in the branch
    cases below_iff.mp hb with
    | inl heq => exact hne heq
    | inr hup =>
      obtain ⟨q, hq, hbq⟩ := hup
      rw [hparent, Option.some.injEq] at hq
      exact (mem_cut.mp ha).2 (hq ▸ hbq)
  · intro ⟨⟨hc, hb⟩, hparent⟩
    exact ⟨⟨hc, fun heq => hb (heq ▸ Below.refl)⟩, hparent⟩

theorem Shape.handOver {ds : List Nat} (h : Shape node r l V) (he : e ∈ l) (her : e ≠ r)
    (hp : parentOf node e = some p) (hcs : V (node p).children = some cs) (htl : t ∈ l) (hte : t ≠ e)
    (ht : ∀ l, Grown (parentOf node) r l → e ∈ l → t ∈ l)
    (hchildren : ∀ a ∈ l, (node' a).children = (node a).children)
    (hparent : ∀ c ∈ l, parentOf node' c = if parentOf node c = some e then some t else parentOf node c)
    (hds : V (node e).children = some ds) {ts : List Nat}
    (hts : Function.update V (node p).children (some (cs.erase e)) (node t).children = some ts) :
    Shape node' r (l.erase e) (Function.update
      (Function.update (Function.update V (node p).children (some (cs.erase e))) (node e).children none)
      (node t).children (some (ts ++ ds))) := by
  have hpl : p ∈ l := h.grown.parent_mem he hp
  have hmem_erase : ∀ {c}, c ∈ l.erase e ↔ c ∈ l ∧ c ≠ e := by
    intro c
    rw [h.grown.nodup.mem_erase_iff, and_comm]
  obtain ⟨ds', hds', hdsnodup, hdsmem⟩ := h.children e he
  rw [hds, Option.some.injEq] at hds'
  rw [← hds'] at hdsnodup hdsmem
  have hself : parentOf node e ≠ some e := fun hself => h.grown.not_below_parent he hself Below.refl
  refine ⟨h.grown.handOver her hte ht fun c hc _ => hparent c hc, fun a ha => ?_, fun a ha b hb heq => ?_⟩
  · obtain ⟨hal, hae⟩ := hmem_erase.mp ha
    rw [hchildren a hal]
    obtain ⟨us, hus, husnodup, husmem⟩ := h.erased hp hpl hcs hal
    by_cases hat : a = t
    · rw [hat] at hus husmem ⊢
      rw [hts, Option.some.injEq] at hus
      rw [← hus] at husnodup husmem
      refine ⟨ts ++ ds, Function.update_self .., ?_, fun c => ?_⟩
      · refine List.nodup_append.mpr ⟨husnodup, hdsnodup, fun x hx y hy hxy => ?_⟩
        have hsame := ((husmem x).mp hx).2.symm.trans (hxy ▸ ((hdsmem y).mp hy).2)
        exact hte (Option.some.inj hsame)
      · rw [List.mem_append, husmem, hdsmem, hmem_erase]
        constructor
        · intro hc
          cases hc with
          | inl hc =>
            have hne : ¬ parentOf node c = some e := fun heq => hte (Option.some.inj (hc.2.symm.trans heq))
            exact ⟨hc.1, by rw [hparent c hc.1.1, if_neg hne, hc.2]⟩
          | inr hc =>
            have hce : c ≠ e := by
              rintro rfl
              exact hself hc.2
            exact ⟨⟨hc.1, hce⟩, by rw [hparent c hc.1, if_pos hc.2]⟩
        · intro ⟨hc, hct⟩
          rw [hparent c hc.1] at hct
          by_cases hce : parentOf node c = some e
          · exact .inr ⟨hc.1, hce⟩
          · exact .inl ⟨hc, by rwa [if_neg hce] at hct⟩
    · have hother : (node a).children ≠ (node t).children := fun heq => hat (h.apart a hal t htl heq)
      have hnot : (node a).children ≠ (node e).children := fun heq => hae (h.apart a hal e he heq)
      refine ⟨us, by rw [Function.update_of_ne hother, Function.update_of_ne hnot, hus], husnodup, fun c => ?_⟩
      rw [husmem, hmem_erase]
      refine and_congr_right fun hc => ?_
      rw [hparent c hc.1]
      by_cases hce : parentOf node c = some e
      · rw [if_pos hce, hce, Option.some.injEq, Option.some.injEq]
        exact iff_of_false (Ne.symm hae) (Ne.symm hat)
      · rw [if_neg hce]
  · obtain ⟨hal, -⟩ := hmem_erase.mp ha
    obtain ⟨hbl, -⟩ := hmem_erase.mp hb
    rw [hchildren a hal, hchildren b hbl] at heq
    exact h.apart a hal b hbl heq

end Shapes

/-! ## Calls -/

def Keeps (s : Tree) (call : TreeCall) : Prop :=
  ∃ s', s.run call = .ok s' ∧ Exact s s' call ∧ ∃ r l V, Holds s' r l V

theorem Keeps.works (h : s.Keeps call) : s.Works call := by
  obtain ⟨s', hrun, hexact, r, l, V, hholds⟩ := h
  exact ⟨s', hrun, hexact, hholds.consistent⟩

theorem not_inTree (h : s.root = none) : ¬ s.InTree c := by
  rintro ⟨r, hr, -⟩
  rw [h] at hr
  cases hr

theorem Holds.keeps_same (h : Holds s r l V) (hrun : s.run call = .ok s) (hremoves : ∀ c, ¬ s.Removes call c)
    (hfrees : ∀ c, ¬ s.Frees call c) (hadds : ∀ c, ¬ Adds call c) (hadopts : ∀ p c, ¬ s.Adopts call p c) :
    s.Keeps call := by
  refine ⟨s, hrun, ⟨fun c => ?_, fun p c hp => ?_, fun c => ?_⟩, r, l, V, h⟩
  · simp [hremoves, hadds]
  · simp [hremoves, hadopts, hp]
  · simp [hfrees, hadds]

section SetRoot

variable {value root list : Nat}

theorem parentOf_setRoot : parentOf (s.treeSetRoot value root list).node root = none := by
  simp [treeSetRoot, treeNodeCreate, parentOf]

theorem holds_setRoot (s : Tree) (value root list : Nat) :
    Holds (s.treeSetRoot value root list) root [root] (Function.update (fun _ => none) list (some [])) := by
  have hvalued : Valued s.mem (fun _ => False) (fun _ => none : Nat → Option (List Nat)) :=
    ⟨fun _ => none, nofun, nofun, fun _ => rfl⟩
  refine ⟨.root parentOf_setRoot ?_, hvalued.create.mono fun _ hn => hn.elim, rfl, rfl, fun a ha => ?_⟩
  · simp [treeSetRoot, treeNodeCreate]
  · rw [List.mem_singleton.mp ha]
    simp [treeSetRoot, treeNodeCreate, malloc]

theorem keeps_setRoot (h : s.root = none) : s.Keeps (.setRoot value root list) := by
  have hholds := holds_setRoot s value root list
  refine ⟨_, rfl, ⟨fun c => ?_, fun p c hp => ?_, fun c => ?_⟩, _, _, _, hholds⟩
  · rw [hholds.inTree_iff]
    simp [not_inTree h, Adds]
  · rw [hholds.isChild_iff (hholds.inTree_iff.mp hp)]
    refine iff_of_false (fun ⟨hc, hcp⟩ => ?_) (by simp [not_inTree h, Adopts])
    rw [List.mem_singleton.mp hc, parentOf_setRoot] at hcp
    cases hcp
  · by_cases hc : c = root
    · simp [treeSetRoot, treeNodeCreate, malloc, Adds, hc]
    · simp [treeSetRoot, treeNodeCreate, malloc, Adds, hc, Frees, Removes]

end SetRoot

def inserted (s : Tree) (p value out list entry : Nat) (mem : ListMem Nat Nat Nat) : Tree where
  mem := mem
  node := Function.update s.node out ⟨value, list, some p⟩
  root := s.root
  nodes := s.nodes + 1
  allocated o := s.allocated o || decide (o = .node out ∨ o = .list list ∨ o = .entry entry)

section Insert

variable {value out list entry : Nat}

theorem Holds.treeNodeInsertChild (h : Holds s r l V) (value : Nat) (hp : p ∈ l) (hcs : V (s.node p).children = some cs)
    (hout : out ∉ l) (hlist : ∀ a ∈ l, (s.node a).children ≠ list) (hentry : s.allocated (.entry entry) = false) :
    ∃ m, s.treeNodeInsertChild p value out list entry = .ok (s.inserted p value out list entry m) ∧
      Valued m (fun n => s.allocated (.entry n) = true ∨ n = entry)
        (Function.update (Function.update V list (some [])) (s.node p).children (some (cs ++ [out]))) := by
  let s₁ := s.treeNodeCreate value out list
  obtain ⟨hnode, hchildren⟩ := h.allocated p hp
  have hsame : s₁.node p = s.node p := Function.update_of_ne (ne_of_mem_of_not_mem hp hout) _ _
  have hget : s₁.get p = .ok (s.node p) := by
    rw [get_eq, hsame]
    simp [s₁, treeNodeCreate, malloc, Function.update_apply, hnode]
  have hlive : s₁.allocated (.list (s.node p).children) = true := by
    simp [s₁, treeNodeCreate, malloc, Function.update_apply, hchildren]
  have hcs₁ : Function.update V list (some []) (s.node p).children = some cs := by
    rw [Function.update_of_ne (hlist p hp), hcs]
  have hfresh : ¬ s.allocated (.entry entry) = true := by simp [hentry]
  have hv₁ : Valued s₁.mem (fun n => s.allocated (.entry n) = true) (Function.update V list (some [])) :=
    h.valued.create
  obtain ⟨m, hinsert, hv₂⟩ := insertValue_eq hv₁ hlive hcs₁ hfresh out
  refine ⟨m, ?_, hv₂⟩
  have hlast : ({ s₁.malloc (.entry entry) with mem := m } : Tree).allocated (.node out) = true := by
    simp [s₁, treeNodeCreate, malloc]
  change (s₁.get p >>= _) = _
  rw [hget, Exec.ok_bind, hinsert, Exec.ok_bind, setParent_eq hlast, Exec.ok_bind]
  congr 1
  simp only [inserted, s₁, treeNodeCreate, malloc, Function.update_self, Function.update_idem, Tree.mk.injEq, true_and]
  funext o
  simp only [Function.update_apply]
  by_cases hnew : o = .node out ∨ o = .list list ∨ o = .entry entry
  · rw [decide_eq_true hnew, Bool.or_true]
    split_ifs with h1 h2 h3
    · rfl
    · rfl
    · rfl
    · exact absurd hnew (by simp [h1, h2, h3])
  · rw [decide_eq_false hnew, Bool.or_false]
    simp only [not_or] at hnew
    simp [hnew]

theorem Holds.insertChild (h : Holds s r l V) (value : Nat) (hp : p ∈ l) (hout : s.allocated (.node out) = false)
    (hlist : s.allocated (.list list) = false) (hentry : s.allocated (.entry entry) = false) : ∃ m V',
    s.run (.insertChild p value out list entry) = .ok (s.inserted p value out list entry m) ∧ out ∉ l ∧
      Holds (s.inserted p value out list entry m) r (l ++ [out]) V' := by
  obtain ⟨cs, hcs, -⟩ := h.shape.children p hp
  have houtl : out ∉ l := by
    intro hin
    rw [(h.allocated out hin).1] at hout
    cases hout
  have hlists : ∀ a ∈ l, (s.node a).children ≠ list := by
    rintro a ha rfl
    rw [(h.allocated a ha).2] at hlist
    cases hlist
  obtain ⟨m, hrun, hvalued⟩ := h.treeNodeInsertChild value hp hcs houtl hlists hentry
  refine ⟨m, _, hrun, houtl, h.shape.child hp hcs houtl hlists, hvalued.mono fun n hn => ?_, h.root, ?_, fun a ha => ?_⟩
  · simpa [inserted] using hn
  · rw [List.length_append, ← h.nodes]
    rfl
  · cases List.mem_append.mp ha with
    | inl ha =>
      have hold : (s.inserted p value out list entry m).node a = s.node a :=
        Function.update_of_ne (ne_of_mem_of_not_mem ha houtl) _ _
      obtain ⟨hnode, hchildren⟩ := h.allocated a ha
      rw [hold]
      simp [inserted, hnode, hchildren]
    | inr ha =>
      rw [List.mem_singleton.mp ha]
      simp [inserted]

theorem Holds.keeps_insertChild (h : Holds s r l V) (hp : p ∈ l) (hout : s.allocated (.node out) = false)
    (hlist : s.allocated (.list list) = false) (hentry : s.allocated (.entry entry) = false) :
    s.Keeps (.insertChild p value out list entry) := by
  obtain ⟨m, V', hrun, houtl, hholds⟩ := h.insertChild value hp hout hlist hentry
  refine ⟨_, hrun, ⟨fun c => ?_, fun q c hq => ?_, fun c => ?_⟩, r, _, _, hholds⟩
  · rw [hholds.inTree_iff, h.inTree_iff, List.mem_append, List.mem_singleton]
    simp [Removes, Adds]
  · rw [hholds.isChild_iff (hholds.inTree_iff.mp hq), h.inTree_iff]
    refine (child_iff houtl c).trans ?_
    simp only [Removes, not_false_eq_true, and_true, Adopts]
    constructor
    · intro hc
      cases hc with
      | inl hold =>
        have hql := h.shape.grown.parent_mem hold.1 hold.2
        exact .inl ⟨hql, (h.isChild_iff hql).mpr hold⟩
      | inr hnew => exact .inr hnew.symm
    · intro hc
      cases hc with
      | inl hold => exact .inl ((h.isChild_iff hold.1).mp hold.2)
      | inr hnew => exact .inr hnew.symm
  · simp [inserted, Adds, Frees, Removes]

end Insert

/-! ## Removing one node -/

theorem Holds.moveChildren (h : Holds s r l V) (he : e ∈ l) (her : e ≠ r) (hp : parentOf s.node e = some p)
    (hte : t ≠ e) (ht : ∀ l, Grown (parentOf s.node) r l → e ∈ l → t ∈ l) : ∃ s' V',
    s.moveChildren e (s.node e) p (some t) = .ok s' ∧ Holds s' r (l.erase e) V' ∧
      (∀ c ∈ l, parentOf s'.node c = if parentOf s.node c = some e then some t else parentOf s.node c) ∧
      ∀ b, s'.allocated (.node b) = true ↔ s.allocated (.node b) = true ∧ b ≠ e := by
  have hgrown := h.shape.grown
  have hpl : p ∈ l := hgrown.parent_mem he hp
  have htl : t ∈ l := ht l hgrown he
  have hpe : p ≠ e := by
    rintro rfl
    exact hgrown.not_below_parent he hp Below.refl
  obtain ⟨cs, hcs, -, hcsmem⟩ := h.shape.children p hpl
  obtain ⟨ds, hds, -, hdsmem⟩ := h.shape.children e he
  have hlists : (s.node e).children ≠ (s.node p).children := fun heq => hpe (h.shape.apart e he p hpl heq).symm
  have hlists' : (s.node t).children ≠ (s.node e).children := fun heq => hte (h.shape.apart t htl e he heq)
  obtain ⟨hnode, hchildren⟩ := h.allocated e he
  obtain ⟨hnode_p, hchildren_p⟩ := h.allocated p hpl
  obtain ⟨hnode_t, hchildren_t⟩ := h.allocated t htl
  -- `e` leaves the list of its parent
  let s₀ : Tree := { s with nodes := s.nodes - 1 }
  have hget : s₀.get p = .ok (s.node p) := get_eq hnode_p
  have hv₀ : Valued s₀.mem (fun n => s.allocated (.entry n) = true) V := h.valued
  have hlive₀ : s₀.allocated (.list (s.node p).children) = true := hchildren_p
  obtain ⟨m₁, hdelete, hv₁⟩ := deleteValue_eq hv₀ hlive₀ hcs ((hcsmem e).mpr ⟨he, hp⟩)
  let s₁ : Tree := { s₀ with mem := m₁ }
  have hds₁ : Function.update V (s.node p).children (some (cs.erase e)) (s.node e).children = some ds := by
    rw [Function.update_of_ne hlists, hds]
  have hlive₁ : s₁.allocated (.list (s.node e).children) = true := hchildren
  have hvisits : s₁.visits (s.node e).children = .ok ds := visits_eq hv₁ hlive₁ hds₁
  -- its children get the new parent
  have hmoved : ds.foldlM (setParent (some t)) s₁ = .ok (reparented (some t) s₁ ds) :=
    foldlM_setParent (some t) fun c hc => (h.allocated c ((hdsmem c).mp hc).1).1
  let s₂ := reparented (some t) s₁ ds
  have hsame : ∀ a, (s₂.node a).children = (s.node a).children := by
    intro a
    change (if a ∈ ds then _ else _ : Node).children = _
    split <;> rfl
  have hparent : ∀ c ∈ l, parentOf s₂.node c = if parentOf s.node c = some e then some t else parentOf s.node c := by
    intro c hc
    change (if c ∈ ds then _ else _ : Node).parent = _
    by_cases hce : parentOf s.node c = some e
    · rw [if_pos ((hdsmem c).mpr ⟨hc, hce⟩), if_pos hce]
    · rw [if_neg fun hin => hce ((hdsmem c).mp hin).2, if_neg hce]
      rfl
  have hget₂ : s₂.get t = .ok (s₂.node t) := get_eq hnode_t
  -- and go to its list
  obtain ⟨ts, hts, -, -⟩ := h.shape.erased hp hpl hcs htl
  have hlive₂ : s₂.allocated (.list (s.node t).children) = true := hchildren_t
  have hlive₂' : s₂.allocated (.list (s.node e).children) = true := hchildren
  obtain ⟨m₃, hmerge, hv₃⟩ := mergeLists_eq hv₁ hlive₂ hlive₂' hts hds₁ hlists'
  let s₃ : Tree := { s₂ with mem := m₃, allocated := Function.update s₂.allocated (.list (s.node e).children) false }
  have hnode₃ : s₃.allocated (.node e) = true := by simp [s₃, s₂, s₁, s₀, reparented, hnode]
  let s₄ : Tree := { s₃ with allocated := Function.update s₃.allocated (.node e) false }
  refine ⟨s₄, _, ?_, ⟨h.shape.handOver he her hp hcs htl hte ht (fun a _ => hsame a) hparent hds hts, ?_, h.root, ?_, ?_⟩,
    hparent, fun b => ?_⟩
  · rw [Tree.moveChildren]
    change (s₀.get p >>= _) = _
    rw [hget, Exec.ok_bind, hdelete, Exec.ok_bind]
    change (s₁.visits (s.node e).children >>= _) = _
    rw [hvisits, Exec.ok_bind, hmoved, Exec.ok_bind]
    change (s₂.get t >>= _) = _
    rw [hget₂, Exec.ok_bind, hsame]
    change (s₂.mergeLists (s.node t).children (s.node e).children >>= _) = _
    rw [hmerge, Exec.ok_bind]
    exact free_eq hnode₃
  · exact hv₃.mono fun n hn => by simp [s₄, s₃, s₂, s₁, s₀, reparented, hn]
  · change s.nodes - 1 = _
    rw [List.length_erase_of_mem he, h.nodes]
  · intro a ha
    obtain ⟨hae, hal⟩ := hgrown.nodup.mem_erase_iff.mp ha
    obtain ⟨ha₁, ha₂⟩ := h.allocated a hal
    have hlist : (s.node a).children ≠ (s.node e).children := fun heq => hae (h.shape.apart a hal e he heq)
    have hchildren_a : (s₄.node a).children = (s.node a).children := hsame a
    rw [hchildren_a]
    simp [s₄, s₃, s₂, s₁, s₀, reparented, hae, hlist, ha₁, ha₂]
  · by_cases hb : b = e
    · simp [s₄, hb]
    · simp [s₄, s₃, s₂, s₁, s₀, reparented, hb]

theorem Holds.keeps_moveChildren (h : Holds s r l V) (he : e ∈ l) (her : e ≠ r) (hp : parentOf s.node e = some p)
    (hte : t ≠ e) (ht : ∀ l, Grown (parentOf s.node) r l → e ∈ l → t ∈ l)
    (hrun : s.run call = s.moveChildren e (s.node e) p (some t))
    (hremoves : ∀ c, s.Removes call c ↔ c = e) (hfrees : ∀ c, s.Frees call c ↔ c = e) (hadds : ∀ c, ¬ Adds call c)
    (hadopts : ∀ q c, s.Adopts call q c ↔ q = t ∧ s.IsChild e c) : s.Keeps call := by
  obtain ⟨s', V', hmove, hholds, hparent, halloc⟩ := h.moveChildren he her hp hte ht
  have hgrown := h.shape.grown
  refine ⟨s', hrun.trans hmove, ⟨fun c => ?_, fun q c hq => ?_, fun c => ?_⟩, r, _, V', hholds⟩
  · rw [hholds.inTree_iff, h.inTree_iff, hgrown.nodup.mem_erase_iff, hremoves, and_comm]
    simp [hadds]
  · rw [hholds.inTree_iff] at hq
    obtain ⟨hqe, hql⟩ := hgrown.nodup.mem_erase_iff.mp hq
    rw [hholds.isChild_iff hq, h.inTree_iff, h.isChild_iff hql, hadopts, h.isChild_iff he, hremoves,
      hgrown.nodup.mem_erase_iff]
    constructor
    · intro ⟨⟨hce, hcl⟩, hcq⟩
      rw [hparent c hcl] at hcq
      by_cases hup : parentOf s.node c = some e
      · rw [if_pos hup, Option.some.injEq] at hcq
        exact .inr ⟨hcq.symm, hcl, hup⟩
      · rw [if_neg hup] at hcq
        exact .inl ⟨hql, ⟨hcl, hcq⟩, hce⟩
    · intro hc
      cases hc with
      | inl hold =>
        obtain ⟨-, ⟨hcl, hcq⟩, hce⟩ := hold
        have hup : ¬ parentOf s.node c = some e := fun heq => hqe (Option.some.inj (hcq.symm.trans heq))
        exact ⟨⟨hce, hcl⟩, by rw [hparent c hcl, if_neg hup, hcq]⟩
      | inr hnew =>
        obtain ⟨rfl, hcl, hup⟩ := hnew
        have hce : c ≠ e := by
          rintro rfl
          exact hgrown.not_below_parent he hup Below.refl
        exact ⟨⟨hce, hcl⟩, by rw [hparent c hcl, if_pos hup]⟩
  · rw [halloc, hfrees]
    simp [hadds]

theorem Holds.get (h : Holds s r l V) (he : e ∈ l) : s.get e = .ok (s.node e) := get_eq (h.allocated e he).1

theorem Holds.root_parent (h : Holds s r l V) : (s.node r).parent = none := h.shape.grown.parent_root

theorem Holds.root_ne (h : Holds s r l V) (her : e ≠ r) : s.root ≠ some e := by
  rw [h.root]
  exact fun heq => her (Option.some.inj heq).symm

theorem Holds.keeps_remove (h : Holds s r l V) (he : e ∈ l) : s.Keeps (.remove e) := by
  by_cases her : e = r
  · have hparent := h.root_parent
    have hrun : s.run (.remove e) = .ok s := by
      change s.treeRemove e = _
      rw [treeRemove, h.get he, Exec.ok_bind, her, hparent]
      rfl
    apply h.keeps_same hrun
    · simp [Removes, h.root, her]
    · simp [Frees, Removes, h.root, her]
    · simp [Adds]
    · simp [Adopts, her, hparent]
  · obtain ⟨p, hpl, hp⟩ := h.shape.grown.exists_parent he her
    have hpe : p ≠ e := by
      rintro rfl
      exact h.shape.grown.not_below_parent he hp Below.refl
    have hparent : (s.node e).parent = some p := hp
    have hrun : s.run (.remove e) = s.moveChildren e (s.node e) p (some p) := by
      change s.treeRemove e = _
      rw [treeRemove, h.get he, Exec.ok_bind, hparent]
    apply h.keeps_moveChildren he her hp hpe (fun l hgrown hel => hgrown.parent_mem hel hp) hrun
    · simp [Removes, h.root_ne her]
    · simp [Frees, Removes, h.root_ne her]
    · simp [Adds]
    · simp [Adopts, hparent, eq_comm]

theorem Holds.keeps_removeReparentRoot (h : Holds s r l V) (he : e ∈ l) : s.Keeps (.removeReparentRoot e) := by
  by_cases her : e = r
  · have hparent := h.root_parent
    have hrun : s.run (.removeReparentRoot e) = .ok s := by
      change s.treeRemoveReparentRoot e = _
      rw [treeRemoveReparentRoot, h.get he, Exec.ok_bind, her, hparent]
      rfl
    apply h.keeps_same hrun
    · simp [Removes, h.root, her]
    · simp [Frees, Removes, h.root, her]
    · simp [Adds]
    · simp [Adopts, h.root, her]
  · obtain ⟨p, hpl, hp⟩ := h.shape.grown.exists_parent he her
    have hparent : (s.node e).parent = some p := hp
    have hrun : s.run (.removeReparentRoot e) = s.moveChildren e (s.node e) p (some r) := by
      change s.treeRemoveReparentRoot e = _
      rw [treeRemoveReparentRoot, h.get he, Exec.ok_bind, hparent, h.root]
    apply h.keeps_moveChildren he her hp (Ne.symm her) (fun l hgrown _ => hgrown.root_mem) hrun
    · simp [Removes, h.root_ne her]
    · simp [Frees, Removes, h.root_ne her]
    · simp [Adds]
    · simp [Adopts, h.root, Ne.symm her, eq_comm]

/-! ## Removing a branch -/

theorem Holds.treeNodeRemove (h : Holds s r l V) (he : e ∈ l) (her : e ≠ r) : ∃ s' V',
    s.treeNodeRemove e = .ok s' ∧ Holds s' r (ParentTree.cut (parentOf s.node) l e) V' ∧ s'.node = s.node ∧
      ∀ b, s'.allocated (.node b) = true ↔ s.allocated (.node b) = true ∧ b ∉ branch (parentOf s.node) l e := by
  obtain ⟨p, hpl, hp⟩ := h.shape.grown.exists_parent he her
  have hparent : (s.node e).parent = some p := hp
  obtain ⟨cs, hcs, -, hcsmem⟩ := h.shape.children p hpl
  obtain ⟨hnode_p, hchildren_p⟩ := h.allocated p hpl
  have hsize : (branch (parentOf s.node) l e).length ≤ s.nodes := by
    rw [h.nodes]
    exact List.length_filter_le _ _
  have hcount := h.shape.treeCountChildren h.valued he h.allocated hsize
  have hpos := List.length_pos_of_mem (top_mem_branch (s := s) he)
  let s₀ : Tree := { s with nodes := s.nodes - ((branch (parentOf s.node) l e).length - 1 + 1) }
  have hget : s₀.get p = .ok (s.node p) := get_eq hnode_p
  have hv₀ : Valued s₀.mem (fun n => s.allocated (.entry n) = true) V := h.valued
  have hlive₀ : s₀.allocated (.list (s.node p).children) = true := hchildren_p
  obtain ⟨m, hdelete, hv₁⟩ := deleteValue_eq hv₀ hlive₀ hcs ((hcsmem e).mpr ⟨he, hp⟩)
  let s₁ : Tree := { s₀ with mem := m }
  -- the parent is not in the branch
  have hlists : ∀ b ∈ branch (parentOf s₁.node) l e,
      Function.update V (s.node p).children (some (cs.erase e)) (s₁.node b).children = V (s₁.node b).children := by
    intro b hb
    obtain ⟨hbl, hbelow⟩ := mem_branch.mp hb
    apply Function.update_of_ne
    intro heq
    exact h.shape.grown.not_below_parent he hp (h.shape.apart b hbl p hpl heq ▸ hbelow)
  have hshape : Shape s₁.node r l V := h.shape
  obtain ⟨bs, hfree, hbs⟩ := hshape.treeNodeFree hv₁ hlists he (fun b hb => h.allocated b (mem_branch.mp hb).1) hsize
  refine ⟨s₁.freeNodes bs, _, ?_, ⟨h.shape.cut her hp hpl hcs, ?_, h.root, ?_, fun a ha => ?_⟩, rfl, fun b => ?_⟩
  · have hcond : ¬ ((s.node e).parent = none ∧ s.root = some e) := by simp [hparent]
    rw [Tree.treeNodeRemove, h.get he, Exec.ok_bind]
    simp only [if_neg hcond]
    change s.treeNodeParentRemove s.nodes (s.node e).parent e = _
    rw [treeNodeParentRemove, hcount, Exec.ok_bind, hparent]
    change (s₀.get p >>= _) = _
    rw [hget, Exec.ok_bind, hdelete, Exec.ok_bind]
    exact hfree
  · exact hv₁.mono fun n hn => by simp [freeNodes, s₁, s₀, hn]
  · change s.nodes - _ = _
    rw [length_cut, ← h.nodes]
    omega
  · obtain ⟨hal, hnot⟩ := mem_cut.mp ha
    obtain ⟨ha₁, ha₂⟩ := h.allocated a hal
    constructor
    · exact (allocated_freeNodes s₁ bs a).mpr ⟨ha₁, fun hin => hnot (mem_branch.mp ((hbs a).mp hin)).2⟩
    · simp [freeNodes, s₁, s₀, ha₂]
  · rw [allocated_freeNodes, hbs]

theorem Holds.keeps_nodeRemove (h : Holds s r l V) (he : e ∈ l) (her : e ≠ r) : s.Keeps (.nodeRemove e) := by
  obtain ⟨s', V', hrun, hholds, hnode, halloc⟩ := h.treeNodeRemove he her
  refine ⟨s', hrun, ⟨fun c => ?_, fun q c hq => ?_, fun c => ?_⟩, r, _, V', hholds⟩
  · rw [hholds.inTree_iff, h.inTree_iff, mem_cut, Removes, h.inBranch_iff he]
    simp only [Adds, or_false]
    exact and_congr_right fun hc => not_congr (and_iff_right hc).symm
  · rw [hholds.inTree_iff] at hq
    obtain ⟨hql, -⟩ := mem_cut.mp hq
    rw [hholds.isChild_iff hq, h.inTree_iff, h.isChild_iff hql, hnode, mem_cut, Removes, h.inBranch_iff he]
    simp only [Adopts, or_false]
    constructor
    · exact fun ⟨⟨hcl, hb⟩, hcq⟩ => ⟨hql, ⟨hcl, hcq⟩, fun hin => hb hin.2⟩
    · exact fun ⟨_, ⟨hcl, hcq⟩, hb⟩ => ⟨⟨hcl, fun hin => hb ⟨hcl, hin⟩⟩, hcq⟩
  · have hfrees : s.Frees (.nodeRemove e) c ↔ c ∈ l ∧ Below (parentOf s.node) e c := h.inBranch_iff he
    rw [halloc, mem_branch, hfrees]
    simp [Adds]

/-! ## The calls that go wrong -/

theorem freed_of_treeNodeFree (h : Tree.treeNodeFree k s e = .ok s') : s'.allocated (.node e) = false := by
  cases k with
  | zero => cases h
  | succ k =>
    rw [Tree.treeNodeFree] at h
    obtain ⟨n, -, h⟩ := Exec.of_bind_eq_ok h
    obtain ⟨cs, -, h⟩ := Exec.of_bind_eq_ok h
    obtain ⟨s₁, -, h⟩ := Exec.of_bind_eq_ok h
    obtain ⟨u, -, h⟩ := Exec.of_bind_eq_ok h
    cases h
    exact Function.update_self ..

theorem Holds.nodeRemove_root (h : Holds s r l V) : s.treeNodeRemove r ≠ .ok s' := by
  intro hrun
  have hcond : (s.node r).parent = none ∧ s.root = some r := ⟨h.root_parent, h.root⟩
  rw [Tree.treeNodeRemove, h.get h.shape.grown.root_mem, Exec.ok_bind] at hrun
  simp only [if_pos hcond] at hrun
  obtain ⟨s₁, hfree, hrun⟩ := Exec.of_bind_eq_ok hrun
  have hdead := freed_of_treeNodeFree hfree
  rw [treeNodeParentRemove] at hrun
  obtain ⟨count, hcount, -⟩ := Exec.of_bind_eq_ok hrun
  cases hk : s.nodes with
  | zero =>
    rw [hk] at hcount
    cases hcount
  | succ k =>
    rw [hk, Tree.treeCountChildren] at hcount
    obtain ⟨n, hget, -⟩ := Exec.of_bind_eq_ok hcount
    rw [Tree.get, live, hdead] at hget
    cases hget

theorem Holds.breakOff_nodes (h : Holds s r l V) (he : e ∈ l) (her : e ≠ r) (hrun : s.run (.breakOff e) = .ok s') :
    s'.nodes = s.nodes := by
  obtain ⟨p, hpl, hp⟩ := h.shape.grown.exists_parent he her
  have hparent : (s.node e).parent = some p := hp
  obtain ⟨cs, hcs, -, hmem⟩ := h.shape.children p hpl
  obtain ⟨m, hdelete, -⟩ := deleteValue_eq h.valued (h.allocated p hpl).2 hcs ((hmem e).mpr ⟨he, hp⟩)
  change s.treeBreakOff e = _ at hrun
  rw [treeBreakOff, h.get he, Exec.ok_bind, hparent] at hrun
  change (s.get p >>= _) = _ at hrun
  rw [h.get hpl, Exec.ok_bind, hdelete] at hrun
  cases hrun
  rfl

theorem Holds.not_works_breakOff (h : Holds s r l V) (he : e ∈ l) (her : e ≠ r) : ¬ s.Works (.breakOff e) := by
  intro ⟨s', hrun, hexact, hconsistent⟩
  obtain ⟨es, hes, hnodes⟩ := hconsistent.nodes
  have hsub : es ⊆ l.toFinset.erase e := by
    intro c hc
    have hin := (hexact.inTree c).mp ((hes c).mp hc)
    simp only [Adds, or_false] at hin
    rw [h.inTree_iff] at hin
    rw [Finset.mem_erase, List.mem_toFinset]
    refine ⟨?_, hin.1⟩
    rintro rfl
    exact hin.2 ⟨Relation.ReflTransGen.refl, h.root_ne her⟩
  have hcard := Finset.card_le_card hsub
  rw [Finset.card_erase_of_mem (List.mem_toFinset.mpr he), List.toFinset_card_of_nodup h.shape.grown.nodup,
    ← hnodes, h.breakOff_nodes he her hrun, h.nodes] at hcard
  have hpos := List.length_pos_of_mem he
  omega

theorem Holds.keeps_breakOff (h : Holds s r l V) : s.Keeps (.breakOff r) := by
  have hrun : s.run (.breakOff r) = .ok s := by
    change s.treeBreakOff r = _
    rw [treeBreakOff, h.get h.shape.grown.root_mem, Exec.ok_bind, h.root_parent]
    rfl
  apply h.keeps_same hrun
  · simp [Removes, h.root]
  · simp [Frees]
  · simp [Adds]
  · simp [Adopts]

/-! ## Runs -/

theorem Holds.keeps_and_sound (h : Holds s r l V) (henabled : s.Enabled call) :
    (s.Sound call → s.Keeps call) ∧ (s.Works call → s.Sound call) := by
  cases call with
  | setRoot value root list =>
    rw [Enabled, h.root] at henabled
    cases henabled.1
  | insertChild parent value out list entry =>
    obtain ⟨hp, hout, hlist, hentry⟩ := henabled
    exact ⟨fun _ => h.keeps_insertChild (h.inTree_iff.mp hp) hout hlist hentry, fun _ => trivial⟩
  | remove node => exact ⟨fun _ => h.keeps_remove (h.inTree_iff.mp henabled), fun _ => trivial⟩
  | removeReparentRoot node =>
    exact ⟨fun _ => h.keeps_removeReparentRoot (h.inTree_iff.mp henabled), fun _ => trivial⟩
  | nodeRemove node =>
    have hnode := h.inTree_iff.mp henabled
    constructor
    · intro hsound
      exact h.keeps_nodeRemove hnode fun heq => hsound (heq ▸ h.root)
    · intro ⟨s', hrun, _⟩ hroot
      rw [h.root, Option.some.injEq] at hroot
      exact h.nodeRemove_root (hroot ▸ hrun)
  | breakOff node =>
    have hnode := h.inTree_iff.mp henabled
    constructor
    · intro hsound
      have hroot : r = node := Option.some.inj (h.root.symm.trans hsound)
      exact hroot ▸ h.keeps_breakOff
    · intro hworks
      by_contra hsound
      exact h.not_works_breakOff hnode (fun heq => hsound (heq ▸ h.root)) hworks

section Runs

variable {mem : ListMem Nat Nat Nat} {allocated : Object → Bool}

theorem create_call (henabled : (treeCreate mem node allocated).Enabled call) :
    (treeCreate mem node allocated).Keeps call ∧ (treeCreate mem node allocated).Sound call := by
  have hempty : ∀ c, ¬ (treeCreate mem node allocated).InTree c := fun c => not_inTree rfl
  cases call with
  | setRoot value root list => exact ⟨keeps_setRoot rfl, trivial⟩
  | insertChild parent value out list entry => exact absurd henabled.1 (hempty parent)
  | remove e | removeReparentRoot e | nodeRemove e | breakOff e => exact absurd henabled (hempty e)

theorem consistent_create : (treeCreate mem node allocated).Consistent := by
  have hempty : ∀ c, ¬ (treeCreate mem node allocated).InTree c := fun c => not_inTree rfl
  exact ⟨⟨∅, fun c => by simp [hempty], rfl⟩, fun c hc => absurd hc (hempty c), fun c hc => absurd hc (hempty c),
    fun c hc => absurd hc (hempty c)⟩

theorem Reached.holds (h : Reached (treeCreate mem node allocated) s) :
    s = treeCreate mem node allocated ∨ ∃ r l V, Holds s r l V := by
  induction h with
  | start => exact .inl rfl
  | @step s₁ s₂ c _ henabled hsound hrun ih =>
    right
    have hkeeps : s₁.Keeps c := by
      cases ih with
      | inl hstart =>
        rw [hstart] at henabled ⊢
        exact (create_call henabled).1
      | inr hholds =>
        obtain ⟨r, l, V, hholds⟩ := hholds
        exact (hholds.keeps_and_sound henabled).1 hsound
    obtain ⟨s', hrun', -, hholds⟩ := hkeeps
    rw [hrun'] at hrun
    cases hrun
    exact hholds

/-- Every tree that sound calls lead to is in order, and of the calls that can come next exactly the sound ones
work: those that do not break a branch off and do not remove the root with `tree_node_remove`. -/
theorem treeCalls_iff (h : Reached (treeCreate mem node allocated) s) :
    s.Consistent ∧ ∀ call, s.Enabled call → (s.Works call ↔ s.Sound call) := by
  cases h.holds with
  | inl hstart =>
    rw [hstart]
    exact ⟨consistent_create, fun call henabled =>
      iff_of_true (create_call henabled).1.works (create_call henabled).2⟩
  | inr hholds =>
    obtain ⟨r, l, V, hholds⟩ := hholds
    refine ⟨hholds.consistent, fun call henabled => ?_⟩
    obtain ⟨hsound, hworks⟩ := hholds.keeps_and_sound henabled
    exact ⟨hworks, fun hs => (hsound hs).works⟩

/-- A tree without a node, in a heap without an object. -/
def noTree : Tree :=
  treeCreate ⟨fun _ => ⟨none, none⟩, fun _ => 0, fun _ => none, fun _ => none, fun _ => none, fun _ => 0⟩
    (fun _ => ⟨0, 0, none⟩) fun _ => false

theorem exists_reached_two : ∃ s V, noTree.Reached s ∧ Holds s 1 [1, 3] V := by
  have hroot := holds_setRoot noTree 0 1 2
  have hsetRoot : noTree.Enabled (.setRoot 0 1 2) := ⟨rfl, rfl, rfl⟩
  have hreached : noTree.Reached (noTree.treeSetRoot 0 1 2) := .step .start hsetRoot trivial rfl
  have hout : (noTree.treeSetRoot 0 1 2).allocated (.node 3) = false := rfl
  have hlist : (noTree.treeSetRoot 0 1 2).allocated (.list 4) = false := rfl
  have hentry : (noTree.treeSetRoot 0 1 2).allocated (.entry 5) = false := rfl
  obtain ⟨m, V, hrun, -, hholds⟩ :=
    hroot.insertChild 0 (List.mem_singleton_self 1) hout hlist hentry
  have henabled : (noTree.treeSetRoot 0 1 2).Enabled (.insertChild 1 0 3 4 5) :=
    ⟨hroot.inTree_iff.mpr (List.mem_singleton_self 1), hout, hlist, hentry⟩
  exact ⟨_, V, .step hreached henabled trivial hrun, hholds⟩

theorem treeCalls_iff_two : ∃ s, noTree.Reached s ∧ s.InTree 3 ∧ s.Consistent ∧
    ∀ call, s.Enabled call → (s.Works call ↔ s.Sound call) := by
  obtain ⟨s, V, hreached, hholds⟩ := exists_reached_two
  exact ⟨s, hreached, hholds.inTree_iff.mpr (by decide), treeCalls_iff hreached⟩

/-- Breaking off the only child of the root does not work, and neither does removing the root. -/
theorem not_works_two : ∃ s, noTree.Reached s ∧ s.Enabled (.breakOff 3) ∧ ¬ s.Works (.breakOff 3) ∧
    s.Enabled (.nodeRemove 1) ∧ ¬ s.Works (.nodeRemove 1) := by
  obtain ⟨s, V, hreached, hholds⟩ := exists_reached_two
  have hroot : s.Enabled (.nodeRemove 1) := hholds.inTree_iff.mpr (by decide)
  refine ⟨s, hreached, hholds.inTree_iff.mpr (by decide), hholds.not_works_breakOff (by decide) (by decide), hroot, ?_⟩
  intro ⟨s', hrun, _⟩
  exact hholds.nodeRemove_root hrun

end Runs

end KernelTest.Libc.Trees.Tree
