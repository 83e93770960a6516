import KernelTest.Libc.ListStore

/-!
# Lists as sequences of values

What the operations on lists do to the values in them, when nobody looks at the nodes that hold the values.
-/

namespace KernelTest.Libc

variable {ν κ α : Type} [DecidableEq ν] [DecidableEq κ]

def Valued (m : ListMem ν κ α) (used : ν → Prop) (V : κ → Option (List α)) : Prop :=
  ∃ L, Lists m L ∧ (∀ l ns, L l = some ns → ∀ n ∈ ns, used n) ∧ ∀ l, V l = (L l).map (List.map m.value)

namespace Valued

variable {m : ListMem ν κ α} {used used' : ν → Prop} {V : κ → Option (List α)} {l l' : κ} {vs ws : List α} {v : α}
  {n : ν}

omit [DecidableEq ν] [DecidableEq κ] in
theorem exists_nodes (h : Valued m used V) (hl : V l = some vs) :
    ∃ ns, IsList m l ns ∧ ns.map m.value = vs := by
  obtain ⟨L, hlists, -, hvalues⟩ := h
  rw [hvalues, Option.map_eq_some_iff] at hl
  obtain ⟨ns, hns, hmap⟩ := hl
  exact ⟨ns, hlists l ns hns, hmap⟩

omit [DecidableEq ν] [DecidableEq κ] in
theorem foreach_eq (h : Valued m used V) (hl : V l = some vs) :
    (foreach m l).map (List.map m.value) = .ok vs := by
  obtain ⟨ns, hlist, hmap⟩ := h.exists_nodes hl
  rw [hlist.foreach_eq, ← hmap]
  rfl

omit [DecidableEq ν] [DecidableEq κ] in
theorem length_eq (h : Valued m used V) (hl : V l = some vs) : m.length l = vs.length := by
  obtain ⟨ns, hlist, hmap⟩ := h.exists_nodes hl
  rw [hlist.length, ← hmap, List.length_map]

omit [DecidableEq ν] [DecidableEq κ] in
theorem mono (h : Valued m used V) (hused : ∀ n, used n → used' n) : Valued m used' V := by
  obtain ⟨L, hlists, hnodes, hvalues⟩ := h
  exact ⟨L, hlists, fun l ns hl n hn => hused n (hnodes l ns hl n hn), hvalues⟩

omit [DecidableEq ν] in
private theorem map_update {L : κ → Option (List ν)} {value : ν → α} (o : Option (List ν))
    (hvalues : ∀ l, V l = (L l).map (List.map value)) (l' : κ) :
    Function.update V l (o.map (List.map value)) l' = (Function.update L l o l').map (List.map value) := by
  rw [Function.update_apply, Function.update_apply]
  split
  · rfl
  · exact hvalues l'

omit [DecidableEq ν] in
theorem create (h : Valued m used V) : Valued (listCreate m l) used (Function.update V l (some [])) := by
  obtain ⟨L, hlists, hnodes, hvalues⟩ := h
  refine ⟨_, hlists.create, fun l' ns hl' n hn => ?_, map_update (some []) hvalues⟩
  by_cases heq : l' = l
  · rw [heq, Function.update_self, Option.some.injEq] at hl'
    rw [← hl'] at hn
    cases hn
  · rw [Function.update_of_ne heq] at hl'
    exact hnodes l' ns hl' n hn

theorem insert (h : Valued m used V) (hl : V l = some vs) (hn : ¬ used n) (v : α) :
    ∃ m', listInsert m l n v = .ok m' ∧
      Valued m' (fun k => used k ∨ k = n) (Function.update V l (some (vs ++ [v]))) := by
  obtain ⟨L, hlists, hnodes, hvalues⟩ := h
  have hfresh : ∀ l' ys, L l' = some ys → n ∉ ys := fun l' ys hl' hmem => hn (hnodes l' ys hl' n hmem)
  rw [hvalues, Option.map_eq_some_iff] at hl
  obtain ⟨ns, hns, rfl⟩ := hl
  obtain ⟨m', hrun, hlists', hvalue⟩ := hlists.insert hns hfresh v
  have hsame : ∀ l' ys, L l' = some ys → ys.map m'.value = ys.map m.value := by
    intro l' ys hl'
    apply List.map_congr_left
    intro k hk
    rw [hvalue, Function.update_of_ne (ne_of_mem_of_not_mem hk (hfresh l' ys hl'))]
  have hvalues' : ∀ l', V l' = (L l').map (List.map m'.value) := by
    intro l'
    rw [hvalues]
    cases hl' : L l' with
    | none => rfl
    | some ys => exact congrArg some (hsame l' ys hl').symm
  refine ⟨m', hrun, _, hlists', fun l' ys hl' k hk => ?_, ?_⟩
  · by_cases heq : l' = l
    · rw [heq, Function.update_self, Option.some.injEq] at hl'
      rw [← hl'] at hk
      cases List.mem_append.mp hk with
      | inl hold => exact .inl (hnodes l ns hns k hold)
      | inr hnew => exact .inr (List.mem_singleton.mp hnew)
    · rw [Function.update_of_ne heq] at hl'
      exact .inl (hnodes l' ys hl' k hk)
  · have hnew : some (ns.map m.value ++ [v]) = (some (ns ++ [n])).map (List.map m'.value) := by
      rw [Option.map_some, List.map_append, hsame l ns hns, List.map_singleton, hvalue, Function.update_self]
    rw [hnew]
    exact map_update _ hvalues'

theorem delete [DecidableEq α] (h : Valued m used V) (hl : V l = some vs) (hv : v ∈ vs) : ∃ n m',
    listFind m l v = .ok (some n) ∧ listDelete m l n = .ok m' ∧
      Valued m' used (Function.update V l (some (vs.erase v))) := by
  obtain ⟨L, hlists, hnodes, hvalues⟩ := h
  rw [hvalues, Option.map_eq_some_iff] at hl
  obtain ⟨ns, hns, rfl⟩ := hl
  have hsome : (ns.find? fun n => decide (m.value n = v)).isSome := by
    simpa [List.find?_isSome] using List.mem_map.mp hv
  obtain ⟨n, hfind⟩ := Option.isSome_iff_exists.mp hsome
  obtain ⟨hvalue, front, back, rfl, hfront⟩ := List.find?_eq_some_iff_append.mp hfind
  have hvalue : m.value n = v := by simpa using hvalue
  have hother : ∀ k ∈ front, m.value k ≠ v := by simpa using hfront
  obtain ⟨m', hrun, hlists', hsame⟩ := hlists.delete hns (by simp : n ∈ front ++ n :: back)
  have hn : n ∉ front := fun hmem => hother n hmem hvalue
  have hnotin : v ∉ front.map m.value := by
    rw [List.mem_map]
    rintro ⟨k, hk, hkv⟩
    exact hother k hk hkv
  refine ⟨n, m', ?_, hrun, _, hlists', fun l' ys hl' k hk => ?_, ?_⟩
  · rw [listFind, (hlists l _ hns).foreach_eq]
    exact congrArg Except.ok hfind
  · by_cases heq : l' = l
    · rw [heq, Function.update_self, Option.some.injEq] at hl'
      rw [← hl'] at hk
      exact hnodes l _ hns k (List.mem_of_mem_erase hk)
    · rw [Function.update_of_ne heq] at hl'
      exact hnodes l' ys hl' k hk
  · rw [hsame]
    have hnew : some (((front ++ n :: back).map m.value).erase v) =
        (some ((front ++ n :: back).erase n)).map (List.map m.value) := by
      rw [Option.map_some, List.erase_append_right _ hn, List.erase_cons_head, List.map_append, List.map_append,
        List.erase_append_right _ hnotin, List.map_cons, hvalue, List.erase_cons_head]
    rw [hnew]
    exact map_update _ hvalues

theorem merge (h : Valued m used V) (hl : V l = some vs) (hl' : V l' = some ws) (hne : l ≠ l') :
    ∃ m', listMerge m l l' = .ok m' ∧
      Valued m' used (Function.update (Function.update V l' none) l (some (vs ++ ws))) := by
  obtain ⟨L, hlists, hnodes, hvalues⟩ := h
  rw [hvalues, Option.map_eq_some_iff] at hl hl'
  obtain ⟨ns, hns, rfl⟩ := hl
  obtain ⟨ms, hms, rfl⟩ := hl'
  obtain ⟨m', hrun, hlists', hsame⟩ := hlists.merge hns hms hne
  refine ⟨m', hrun, _, hlists', fun k ys hk x hx => ?_, ?_⟩
  · by_cases heq : k = l
    · rw [heq, Function.update_self, Option.some.injEq] at hk
      rw [← hk] at hx
      exact (List.mem_append.mp hx).elim (hnodes l ns hns x) (hnodes l' ms hms x)
    · rw [Function.update_of_ne heq] at hk
      by_cases heq' : k = l'
      · rw [heq', Function.update_self] at hk
        cases hk
      · rw [Function.update_of_ne heq'] at hk
        exact hnodes k ys hk x hx
  · rw [hsame, ← List.map_append]
    exact map_update (some (ns ++ ms)) (map_update none hvalues)

end Valued

end KernelTest.Libc
