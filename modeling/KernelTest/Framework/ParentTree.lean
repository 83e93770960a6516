import Mathlib.Data.List.Basic
import Mathlib.Data.List.Nodup
import Mathlib.Data.List.Perm.Basic
import Mathlib.Logic.Relation

/-!
# Trees given by parents

A tree as the list of its nodes, parents before their children, with the parent of each. What adding a node,
handing the children of a node over, and cutting a branch off do to it.
-/

namespace KernelTest.ParentTree

variable {α : Type} {parent parent' : α → Option α} {r a b c e p t : α} {l : List α}

def Below (parent : α → Option α) (a b : α) : Prop := Relation.ReflTransGen (fun x y => parent x = some y) b a

inductive Grown (parent : α → Option α) (r : α) : List α → Prop
  | root : parent r = none → Grown parent r [r]
  | child {l : List α} {c p : α} : Grown parent r l → c ∉ l → parent c = some p → p ∈ l → Grown parent r (l ++ [c])

theorem Below.refl : Below parent a a := Relation.ReflTransGen.refl

theorem Below.trans (hab : Below parent a b) (hbc : Below parent b c) : Below parent a c :=
  Relation.ReflTransGen.trans hbc hab

theorem Below.child (h : Below parent a p) (hp : parent c = some p) : Below parent a c :=
  Relation.ReflTransGen.head hp h

theorem below_iff : Below parent a c ↔ c = a ∨ ∃ p, parent c = some p ∧ Below parent a p :=
  Relation.ReflTransGen.cases_head_iff

theorem Below.total (ha : Below parent a c) (hb : Below parent b c) : Below parent b a ∨ Below parent a b :=
  Relation.ReflTransGen.total_of_right_unique (fun _ _ _ hy hz => Option.some.inj (hy.symm.trans hz)) ha hb

namespace Grown

theorem root_mem (h : Grown parent r l) : r ∈ l := by
  induction h with
  | root => exact List.mem_singleton_self r
  | child _ _ _ _ ih => exact List.mem_append_left _ ih

theorem parent_root (h : Grown parent r l) : parent r = none := by
  induction h with
  | root hr => exact hr
  | child _ _ _ _ ih => exact ih

theorem nodup (h : Grown parent r l) : l.Nodup := by
  induction h with
  | root => exact List.nodup_singleton r
  | child _ hc _ _ ih =>
    exact List.nodup_append.mpr
      ⟨ih, List.nodup_singleton _, fun x hx y hy hxy => hc (List.mem_singleton.mp hy ▸ hxy ▸ hx)⟩

theorem exists_parent (h : Grown parent r l) (hc : c ∈ l) (hne : c ≠ r) : ∃ p ∈ l, parent c = some p := by
  induction h with
  | root => exact absurd (List.mem_singleton.mp hc) hne
  | child _ _ hp hmem ih =>
    cases List.mem_append.mp hc with
    | inl hold =>
      obtain ⟨q, hq, hparent⟩ := ih hold
      exact ⟨q, List.mem_append_left _ hq, hparent⟩
    | inr hnew =>
      rw [List.mem_singleton.mp hnew]
      exact ⟨_, List.mem_append_left _ hmem, hp⟩

theorem parent_mem (h : Grown parent r l) (hc : c ∈ l) (hp : parent c = some p) : p ∈ l := by
  have hne : c ≠ r := by
    rintro rfl
    rw [h.parent_root] at hp
    cases hp
  obtain ⟨q, hq, hparent⟩ := h.exists_parent hc hne
  rw [hp, Option.some.injEq] at hparent
  exact hparent ▸ hq

theorem mem_of_below (h : Grown parent r l) (hc : c ∈ l) (hb : Below parent a c) : a ∈ l := by
  induction hb with
  | refl => exact hc
  | tail _ hp ih => exact h.parent_mem ih hp

theorem below_root (h : Grown parent r l) (hc : c ∈ l) : Below parent r c := by
  induction h generalizing c with
  | root => exact List.mem_singleton.mp hc ▸ Below.refl
  | child _ _ hp hmem ih =>
    cases List.mem_append.mp hc with
    | inl hold => exact ih hold
    | inr hnew => exact List.mem_singleton.mp hnew ▸ Below.child (ih hmem) hp

theorem not_below_parent (h : Grown parent r l) (hc : c ∈ l) (hp : parent c = some p) : ¬ Below parent c p := by
  induction h generalizing c p with
  | root hr =>
    rw [List.mem_singleton.mp hc, hr] at hp
    cases hp
  | child hl hnew hq hmem ih =>
    cases List.mem_append.mp hc with
    | inl hold => exact ih hold hp
    | inr hlast =>
      rw [List.mem_singleton.mp hlast] at hp ⊢
      rw [hq, Option.some.injEq] at hp
      exact fun hb => hnew (hl.mem_of_below (hp ▸ hmem) hb)

theorem congr (h : Grown parent r l) (heq : ∀ c ∈ l, parent' c = parent c) : Grown parent' r l := by
  induction h with
  | root hr => exact .root ((heq r (List.mem_singleton_self r)).trans hr)
  | child hl hnew hp hmem ih =>
    exact .child (ih fun c hc => heq c (List.mem_append_left _ hc)) hnew ((heq _ (by simp)).trans hp) hmem

theorem handOver [DecidableEq α] (h : Grown parent r l) (he : e ≠ r) (hte : t ≠ e)
    (ht : ∀ l, Grown parent r l → e ∈ l → t ∈ l)
    (hparent : ∀ c ∈ l, c ≠ e → parent' c = if parent c = some e then some t else parent c) :
    Grown parent' r (l.erase e) := by
  induction h with
  | root hr =>
    have hkeep := hparent r (List.mem_singleton_self r) (Ne.symm he)
    rw [hr, if_neg nofun] at hkeep
    rw [List.erase_of_not_mem fun hmem => he (List.mem_singleton.mp hmem)]
    exact .root hkeep
  | @child l c p hl hnew hp hmem ih =>
    have ih := ih fun x hx => hparent x (List.mem_append_left _ hx)
    by_cases hc : c = e
    · have hrest : (l ++ [c]).erase e = l := by
        rw [List.erase_append_right _ (hc ▸ hnew), hc, List.erase_cons_head, List.append_nil]
      rw [List.erase_of_not_mem (hc ▸ hnew)] at ih
      rw [hrest]
      exact ih
    · have hrest : (l ++ [c]).erase e = l.erase e ++ [c] := by
        by_cases hin : e ∈ l
        · exact List.erase_append_left _ hin
        · rw [List.erase_append_right _ hin, List.erase_of_not_mem hin,
            List.erase_of_not_mem fun hmem => hc (List.mem_singleton.mp hmem).symm]
      have hlast := hparent c (by simp) hc
      rw [hrest]
      by_cases hpe : p = e
      · rw [hp, hpe, if_pos rfl] at hlast
        have htl : t ∈ l := ht l hl (hpe ▸ hmem)
        exact .child ih (fun hx => hnew (List.mem_of_mem_erase hx)) hlast ((List.mem_erase_of_ne hte).mpr htl)
      · have hkeep : ¬ some p = some e := fun heq => hpe (Option.some.inj heq)
        rw [hp, if_neg hkeep] at hlast
        exact .child ih (fun hx => hnew (List.mem_of_mem_erase hx)) hlast ((List.mem_erase_of_ne hpe).mpr hmem)

end Grown

section Branch

open Classical

noncomputable def branch (parent : α → Option α) (l : List α) (a : α) : List α := l.filter fun c => Below parent a c

noncomputable def cut (parent : α → Option α) (l : List α) (a : α) : List α := l.filter fun c => ¬ Below parent a c

theorem mem_branch : c ∈ branch parent l a ↔ c ∈ l ∧ Below parent a c := by simp [branch]

theorem mem_cut : c ∈ cut parent l a ↔ c ∈ l ∧ ¬ Below parent a c := by simp [cut]

theorem length_cut (parent : α → Option α) (l : List α) (a : α) :
    (cut parent l a).length = l.length - (branch parent l a).length := by
  have h := List.length_eq_length_filter_add (l := l) fun c => decide (Below parent a c)
  simp only [cut, branch, decide_not]
  omega

theorem Grown.cut (h : Grown parent r l) (he : e ≠ r) : Grown parent r (cut parent l e) := by
  induction h with
  | root hr =>
    have hb : ¬ Below parent e r := by
      rw [below_iff]
      rintro (heq | ⟨p, hp, -⟩)
      · exact he heq.symm
      · rw [hr] at hp
        cases hp
    simpa [ParentTree.cut, hb] using Grown.root hr
  | @child l c p hl hnew hp hmem ih =>
    by_cases hb : Below parent e c
    · simpa [ParentTree.cut, hb] using ih
    · have hkeep : p ∈ ParentTree.cut parent l e := mem_cut.mpr ⟨hmem, fun hpb => hb (hpb.child hp)⟩
      have hstep := Grown.child ih (fun hx => hnew (mem_cut.mp hx).1) hp hkeep
      simpa [ParentTree.cut, hb] using hstep

theorem Grown.branch_perm (h : Grown parent r l) (ha : a ∈ l) {cs : List α} (hcs : cs.Nodup)
    (hmem : ∀ c, c ∈ cs ↔ c ∈ l ∧ parent c = some a) :
    (branch parent l a).Perm (a :: cs.flatMap (branch parent l)) := by
  have hbranch : ∀ b, (branch parent l b).Nodup := fun b => h.nodup.filter _
  have htop : ∀ c ∈ cs, ¬ Below parent c a := fun c hc => h.not_below_parent ((hmem c).mp hc).1 ((hmem c).mp hc).2
  rw [List.perm_ext_iff_of_nodup (hbranch a)]
  · intro x
    rw [List.mem_cons, List.mem_flatMap, mem_branch]
    constructor
    · intro ⟨hx, hb⟩
      by_cases hxa : x = a
      · exact .inl hxa
      · -- the last step up to `a` starts at one of its children
        cases Relation.ReflTransGen.cases_tail hb with
        | inl heq => exact absurd heq.symm hxa
        | inr hlast =>
          obtain ⟨c, hc, hparent⟩ := hlast
          exact .inr ⟨c, (hmem c).mpr ⟨h.mem_of_below hx hc, hparent⟩, mem_branch.mpr ⟨hx, hc⟩⟩
    · intro hx
      cases hx with
      | inl heq => exact ⟨heq ▸ ha, heq ▸ Below.refl⟩
      | inr hin =>
        obtain ⟨c, hc, hx⟩ := hin
        obtain ⟨hxl, hb⟩ := mem_branch.mp hx
        exact ⟨hxl, (Below.refl.child ((hmem c).mp hc).2).trans hb⟩
  · refine List.nodup_cons.mpr ⟨fun hin => ?_, List.nodup_flatMap.mpr ⟨fun c _ => hbranch c, ?_⟩⟩
    · obtain ⟨c, hc, ha'⟩ := List.mem_flatMap.mp hin
      exact htop c hc (mem_branch.mp ha').2
    · apply hcs.imp_of_mem
      intro c d hc hd hne x hxc hxd
      have hside : ∀ c d, c ∈ cs → d ∈ cs → c ≠ d → ¬ Below parent c d := by
        intro c d hc hd hne hb
        cases below_iff.mp hb with
        | inl heq => exact hne heq.symm
        | inr hup =>
          obtain ⟨p, hp, hcp⟩ := hup
          rw [((hmem d).mp hd).2, Option.some.injEq] at hp
          exact htop c hc (hp ▸ hcp)
      cases (mem_branch.mp hxc).2.total (mem_branch.mp hxd).2 with
      | inl hb => exact hside d c hd hc (Ne.symm hne) hb
      | inr hb => exact hside c d hc hd hne hb

end Branch

end KernelTest.ParentTree
