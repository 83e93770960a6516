import Mathlib.Data.List.Perm.Subperm
import KernelTest.Boot.ModuleSchedules

/-!
# Scheduled functions over the loading of all modules

The loop after a module looks its functions up under the numbers 0, 1, and so on, whatever numbers
their keys were made with. The late functions are looked up with a bucket number for each.
-/

namespace KernelTest.Boot

open Libc

private theorem eq_range_of_sorted {l : List Nat} (hsorted : l.Pairwise (· < ·))
    (hsub : ∀ k < l.length, k ∈ l) : l = List.range l.length := by
  have hsubset : List.range l.length ⊆ l := fun k hk => hsub k (List.mem_range.1 hk)
  have hperm : (List.range l.length).Perm l :=
    (List.subperm_of_subset List.nodup_range hsubset).perm_of_length_le (by simp)
  exact (hperm.symm).eq_of_pairwise (fun a b _ _ hab hba => absurd hab (Nat.lt_asymm hba)) hsorted
    List.pairwise_lt_range

/-- The functions due after a module are found by counting from 0 on, and the key after the last one
fits its array too. -/
def DueFits (d : CText × List Scheduled) : Prop :=
  d.2.map Scheduled.number = List.range d.2.length ∧
    (d.2 ≠ [] → (keyText d.1.1 d.2.length).length < 32)

instance (d : CText × List Scheduled) : Decidable (DueFits d) :=
  inferInstanceAs (Decidable (_ ∧ (_ → _)))

/-! ## The loop after a module -/

section Loop

variable {junk : Nat → UInt8} {quick quick' : Hashmap Block} {t : ArgMap} {name : CText}
  {called : List Nat}

theorem runScheduled_succ (hmap : TextMap junk quick t) {fuel i : Nat}
    (hfits : (keyText name.1 i).length < 32) :
    (HashTable.find textHash t (keyOfCall name i) = none ∧
      runScheduled junk name.1 (fuel + 1) i quick = .ok ([], quick)) ∨
    ∃ address quick₁, HashTable.find textHash t (keyOfCall name i) = some address ∧
      TextMap junk quick₁ (HashTable.erase textHash t (keyOfCall name i)) ∧
      runScheduled junk name.1 (fuel + 1) i quick =
        (runScheduled junk name.1 fuel (i + 1) quick₁).map fun r => (address :: r.1, r.2) := by
  have hlawful := stringFuncs_lawful junk
  have hkey := @denotes_sprintf junk 32 (keyOfCall name i)
  have hhas := hmap.has hlawful hkey
  have hget := hmap.get hlawful hkey
  simp only [keyOfCall] at hhas hget
  cases hfind : HashTable.find textHash t (keyOfCall name i) with
  | none =>
    left
    rw [keyOfCall] at hfind
    rw [hfind] at hhas
    constructor
    · rfl
    · rw [runScheduled, sprintf_eq junk hfits, Exec.ok_bind, hhas, Exec.ok_bind]
      rfl
  | some address =>
    right
    obtain ⟨quick₁, hremove, hmap₁⟩ := hmap.remove hlawful hkey (by rw [hfind]; rfl)
    refine ⟨address, quick₁, rfl, hmap₁, ?_⟩
    rw [keyOfCall] at hfind
    simp only [keyOfCall] at hremove
    rw [hfind] at hhas hget hremove
    rw [runScheduled, sprintf_eq junk hfits, Exec.ok_bind, hhas, Exec.ok_bind]
    simp only [Option.isSome_some, if_true]
    rw [hget, Exec.ok_bind, hremove, Exec.ok_bind]
    change (runScheduled junk name.1 fuel (i + 1) quick₁ >>= _) = _
    cases runScheduled junk name.1 fuel (i + 1) quick₁ <;> rfl

theorem runScheduled_of_ok (hmap : TextMap junk quick t) {fuel i : Nat}
    (h : runScheduled junk name.1 fuel i quick = .ok (called, quick')) :
    (keyText name.1 (i + called.length)).length < 32 ∧
      (∀ k ≤ called.length, HashTable.find textHash t (keyOfCall name (i + k)) = called[k]?) ∧
      ∃ t', TextMap junk quick' t' ∧ ∀ a, HashTable.find textHash t' a =
        if ∃ k < called.length, a = keyOfCall name (i + k) then none
        else HashTable.find textHash t a := by
  induction fuel generalizing i quick t called with
  | zero => cases h
  | succ fuel ih =>
    have hfits : (keyText name.1 i).length < 32 := by
      by_contra hlong
      rw [runScheduled, sprintf, if_neg hlong, Exec.error_bind] at h
      cases h
    cases @runScheduled_succ junk quick t name hmap fuel i hfits with
    | inl hnone =>
      rw [hnone.2] at h
      cases h
      refine ⟨hfits, ?_, t, hmap, ?_⟩
      · intro k hk
        rw [List.length_nil, Nat.le_zero] at hk
        rw [hk]
        exact hnone.1
      · simp
    | inr hsome =>
      obtain ⟨address, quick₁, hfind, hmap₁, hrun⟩ := hsome
      rw [hrun] at h
      cases hrest : runScheduled junk name.1 fuel (i + 1) quick₁ with
      | error e =>
        rw [hrest] at h
        cases h
      | ok r =>
        rw [hrest] at h
        cases h
        obtain ⟨hlast, hfound, t', hmap', hfind'⟩ := ih hmap₁ hrest
        have herase : ∀ a, HashTable.find textHash
            (HashTable.erase textHash t (keyOfCall name i)) a =
              if a = keyOfCall name i then none else HashTable.find textHash t a := by
          intro a
          rw [HashTable.find_erase hmap.wellPlaced hmap.pos, Function.update_apply]
        refine ⟨?_, ?_, t', hmap', ?_⟩
        · have hat : i + (address :: r.1).length = i + 1 + r.1.length := by
            rw [List.length_cons]
            omega
          rw [hat]
          exact hlast
        · intro k hk
          cases k with
          | zero => exact hfind
          | succ k =>
            have hat : i + (k + 1) = i + 1 + k := by omega
            have hne : keyOfCall name (i + 1 + k) ≠ keyOfCall name i := by
              intro heq
              have hnumber := (keyOfCall_inj.1 heq).2
              omega
            have hrest := hfound k (Nat.le_of_succ_le_succ hk)
            rw [herase, if_neg hne] at hrest
            rw [hat, hrest]
            rfl
        · intro a
          rw [hfind', herase]
          by_cases ha : a = keyOfCall name i
          · have hfirst : ∃ k < (address :: r.1).length, a = keyOfCall name (i + k) :=
              ⟨0, by simp, ha⟩
            rw [if_pos ha, if_pos hfirst, ite_self]
          · have hshift : (∃ k < (address :: r.1).length, a = keyOfCall name (i + k)) ↔
                ∃ k < r.1.length, a = keyOfCall name (i + 1 + k) := by
              constructor
              · rintro ⟨k, hk, hak⟩
                cases k with
                | zero => exact absurd hak ha
                | succ k => exact ⟨k, Nat.lt_of_succ_lt_succ hk, by rw [hak]; congr 1; omega⟩
              · rintro ⟨k, hk, hak⟩
                exact ⟨k + 1, Nat.succ_lt_succ hk, by rw [hak]; congr 1; omega⟩
            simp only [if_neg ha, hshift]

theorem runScheduled_ok (hmap : TextMap junk quick t) {fuel i m : Nat} (hm : m < fuel)
    (hfits : ∀ k ≤ m, (keyText name.1 (i + k)).length < 32)
    (hend : HashTable.find textHash t (keyOfCall name (i + m)) = none) :
    ∃ r, runScheduled junk name.1 fuel i quick = .ok r := by
  induction fuel generalizing i m quick t with
  | zero => exact absurd hm (Nat.not_lt_zero m)
  | succ fuel ih =>
    have hfirst : (keyText name.1 i).length < 32 := hfits 0 (Nat.zero_le m)
    cases @runScheduled_succ junk quick t name hmap fuel i hfirst with
    | inl hnone => exact ⟨_, hnone.2⟩
    | inr hsome =>
      obtain ⟨address, quick₁, hfind, hmap₁, hrun⟩ := hsome
      cases m with
      | zero =>
        rw [Nat.add_zero] at hend
        rw [hend] at hfind
        cases hfind
      | succ m =>
        have hat : ∀ k, i + (k + 1) = i + 1 + k := by omega
        have hend₁ : HashTable.find textHash (HashTable.erase textHash t (keyOfCall name i))
            (keyOfCall name (i + 1 + m)) = none := by
          rw [HashTable.find_erase hmap.wellPlaced hmap.pos, Function.update_apply]
          split
          · rfl
          · rw [← hat]
            exact hend
        obtain ⟨r, hr⟩ := ih hmap₁ (Nat.lt_of_succ_lt_succ hm) (fun k hk => by
          rw [← hat]
          exact hfits (k + 1) (Nat.succ_le_succ hk)) hend₁
        rw [hrun, hr]
        exact ⟨_, rfl⟩

end Loop

/-! ## The functions due after a module -/

private theorem eq_of_values {α : Type} {f : Nat → Option α} {l l' : List α}
    (hl : ∀ k ≤ l.length, f k = l[k]?) (hl' : ∀ k ≤ l'.length, f k = l'[k]?) : l = l' := by
  have hlen : l.length = l'.length := by
    apply Nat.le_antisymm
    · by_contra hlt
      have hsome := hl l'.length (by omega)
      rw [hl' _ le_rfl, List.getElem?_eq_none le_rfl, List.getElem?_eq_getElem (by omega)] at hsome
      cases hsome
    · by_contra hlt
      have hsome := hl' l.length (by omega)
      rw [hl _ le_rfl, List.getElem?_eq_none le_rfl, List.getElem?_eq_getElem (by omega)] at hsome
      cases hsome
  apply List.ext_getElem?
  intro k
  by_cases hk : k ≤ l.length
  · rw [← hl k hk, hl' k (hlen ▸ hk)]
  · rw [List.getElem?_eq_none (by omega), List.getElem?_eq_none (by omega)]

def dueFor (name : CText) (pending : List Scheduled) : List Scheduled :=
  pending.filter fun s => s.name = name

theorem mem_dueFor {name : CText} {pending : List Scheduled} {s : Scheduled} :
    s ∈ dueFor name pending ↔ s ∈ pending ∧ s.name = name := by
  rw [dueFor, List.mem_filter, decide_eq_true_eq]

section Due

variable {names : List CText} {bound n : Nat} {t : ArgMap} {pending : List Scheduled}
  {name : CText}

theorem Pending.find_due (h : Pending names bound t n pending) (hname : name ∈ names) {k : Nat}
    (hk : k ≤ bound) (a : Nat) :
    HashTable.find textHash t (keyOfCall name k) = some a ↔ ⟨k, name, a⟩ ∈ dueFor name pending := by
  rw [h.key name hname k hk, mem_dueFor]
  simp

theorem Pending.numbers_of_found (h : Pending names bound t n pending) (hname : name ∈ names)
    (hn : n ≤ bound) {called : List Nat}
    (hfound : ∀ k ≤ called.length, HashTable.find textHash t (keyOfCall name k) = called[k]?)
    (hlen : called.length = (dueFor name pending).length) :
    (dueFor name pending).map Scheduled.number = List.range (dueFor name pending).length := by
  have hmem : ∀ k (hk : k < called.length), k ≤ bound →
      (⟨k, name, called[k]⟩ : Scheduled) ∈ dueFor name pending := by
    intro k hk hkb
    rw [← h.find_due hname hkb, hfound k hk.le, List.getElem?_eq_getElem hk]
  have hle : ∀ k ≤ called.length, k ≤ n := by
    intro k
    induction k with
    | zero => exact fun _ => Nat.zero_le n
    | succ k ih =>
      intro hk
      have hkn : k ≤ n := ih (Nat.le_of_succ_le hk)
      exact h.lt _ (mem_dueFor.1 (hmem k hk (hkn.trans hn))).1
  have hsorted : ((dueFor name pending).map Scheduled.number).Pairwise (· < ·) :=
    h.sorted.sublist (List.filter_sublist.map _)
  have hrange := eq_range_of_sorted hsorted (fun k hk => by
    rw [List.length_map, ← hlen] at hk
    exact List.mem_map.2 ⟨_, hmem k hk ((hle k hk.le).trans hn), rfl⟩)
  rwa [List.length_map] at hrange

theorem Pending.found_of_numbers (h : Pending names bound t n pending) (hname : name ∈ names)
    (hn : n ≤ bound)
    (hnumbers : (dueFor name pending).map Scheduled.number =
      List.range (dueFor name pending).length) :
    ∀ k ≤ (dueFor name pending).length, HashTable.find textHash t (keyOfCall name k) =
      ((dueFor name pending).map Scheduled.address)[k]? := by
  have hnumber : ∀ k (hk : k < (dueFor name pending).length),
      (dueFor name pending)[k].number = k := by
    intro k hk
    have hat : ((dueFor name pending).map Scheduled.number)[k]? = some k := by
      rw [hnumbers, List.getElem?_range hk]
    rw [List.getElem?_map, List.getElem?_eq_getElem hk] at hat
    exact Option.some.inj hat
  intro k hk
  have hkb : k ≤ bound := by
    cases k with
    | zero => exact Nat.zero_le bound
    | succ k =>
      have hlt := h.lt _ (mem_dueFor.1 (List.getElem_mem hk)).1
      rw [hnumber k hk] at hlt
      omega
  by_cases hlt : k < (dueFor name pending).length
  · have hdue : (⟨k, name, (dueFor name pending)[k].address⟩ : Scheduled) ∈ dueFor name pending := by
      have hget := List.getElem_mem hlt
      have hnum := hnumber k hlt
      have hnamed := (mem_dueFor.1 hget).2
      generalize (dueFor name pending)[k] = s at hget hnum hnamed ⊢
      cases hnum
      cases hnamed
      exact hget
    rw [(h.find_due hname hkb _).2 hdue, List.getElem?_map, List.getElem?_eq_getElem hlt,
      Option.map_some]
  · rw [List.getElem?_eq_none (by rw [List.length_map]; omega), Option.eq_none_iff_forall_ne_some]
    intro a ha
    have hdue := (h.find_due hname hkb a).1 ha
    have hin : k ∈ (dueFor name pending).map Scheduled.number := List.mem_map_of_mem hdue
    rw [hnumbers, List.mem_range] at hin
    exact hlt hin

end Due

/-! ## One module -/

section Module

variable {junk : Nat → UInt8} {names : List CText} {bound : Nat} {st : Schedules}
  {pending : List Scheduled} {late : List Nat} {name : CText}

theorem Keeps.runDue (h : Keeps junk names bound st pending late) (hap : NamesApart names bound)
    (hname : name ∈ names) (hn : st.modulesQuickScheduled ≤ bound)
    (hkeys : ∀ s ∈ pending, KeyFits s) {init : List ScheduleCall} {st₀ : Schedules}
    (hinit : Boot.runInit junk st₀ init = .ok st) :
    (DueFits (name, dueFor name pending) ∧ ∃ st', loadModule junk st₀ name init =
        .ok ((dueFor name pending).map Scheduled.address, st') ∧
      Keeps junk names bound st' (pending.filter fun s => s.name ≠ name) late ∧
      st'.modulesQuickScheduled = st.modulesQuickScheduled) ∨
    (¬ DueFits (name, dueFor name pending) ∧ ∀ called st', loadModule junk st₀ name init =
        .ok (called, st') → ¬ called.Perm ((dueFor name pending).map Scheduled.address)) := by
  have hlawful := stringFuncs_lawful junk
  obtain ⟨t, hmap, hpending⟩ := h.quick
  have hhas := hmap.has hlawful (denotes_name name)
  have hrun : loadModule junk st₀ name init =
      if (HashTable.find textHash t name).isSome then
        (runScheduled junk name.1 (st.modulesQuickScheduled + 1) 0 st.quick) >>= fun r =>
          hashmapRemove r.2 (name.1 ++ [0]) >>= fun q => .ok (r.1, { st with quick := q.2 })
      else .ok ([], st) := by
    rw [loadModule, hinit, Exec.ok_bind, hhas, Exec.ok_bind]
  by_cases hsome : (HashTable.find textHash t name).isSome = true
  · rw [if_pos hsome] at hrun
    by_cases hdue : DueFits (name, dueFor name pending)
    · left
      have hfound := hpending.found_of_numbers hname hn hdue.1
      have hne : dueFor name pending ≠ [] := by
        obtain ⟨s, hs, hsn⟩ := (hpending.marker name hname).1 hsome
        exact List.ne_nil_of_mem (mem_dueFor.2 ⟨hs, hsn⟩)
      have hnumber : ∀ k, k < (dueFor name pending).length ↔
          ∃ s ∈ dueFor name pending, s.number = k := by
        intro k
        rw [← List.mem_range, ← hdue.1, List.mem_map]
      have hlt : ∀ k < (dueFor name pending).length, k < st.modulesQuickScheduled := by
        intro k hk
        obtain ⟨s, hs, rfl⟩ := (hnumber k).1 hk
        exact hpending.lt s (mem_dueFor.1 hs).1
      have hlen : (dueFor name pending).length ≤ st.modulesQuickScheduled := by
        by_contra hgt
        exact absurd (hlt _ (Nat.lt_of_not_le hgt)) (Nat.lt_irrefl _)
      obtain ⟨r, hr⟩ := @runScheduled_ok junk st.quick t name hmap (st.modulesQuickScheduled + 1) 0
        (dueFor name pending).length (Nat.lt_succ_of_le hlen) (by
          intro k hk
          rw [Nat.zero_add]
          by_cases hlast : k = (dueFor name pending).length
          · rw [hlast]
            exact hdue.2 hne
          · obtain ⟨s, hs, rfl⟩ := (hnumber k).1 (by omega)
            have hfits := (hkeys s (mem_dueFor.1 hs).1).1
            rwa [(mem_dueFor.1 hs).2] at hfits) (by
          rw [Nat.zero_add, hfound _ le_rfl, List.getElem?_eq_none (by rw [List.length_map])])
      obtain ⟨-, hcalled, t', hmap', hfind'⟩ := runScheduled_of_ok hmap hr
      simp only [Nat.zero_add] at hcalled hfind'
      have heq : r.1 = (dueFor name pending).map Scheduled.address :=
        eq_of_values hcalled (by rwa [List.length_map])
      have hmarker : HashTable.find textHash t' name = HashTable.find textHash t name := by
        rw [hfind', if_neg]
        rintro ⟨k, hk, hak⟩
        rw [heq, List.length_map] at hk
        exact hap.ne hname hname ((hlt k hk).le.trans hn) hak.symm
      obtain ⟨q, hremove, hq⟩ := hmap'.remove hlawful (denotes_name name) (by rw [hmarker]; exact hsome)
      refine ⟨hdue, { st with quick := q }, ?_, ?_, rfl⟩
      · rw [hrun, hr, Exec.ok_bind, hremove, Exec.ok_bind, heq]
      · constructor
        case quick =>
          refine ⟨_, hq, hpending.run hap hn hname ?_⟩
          intro a
          rw [HashTable.find_erase hmap'.wellPlaced hmap'.pos, Function.update_apply, hfind', heq,
            List.length_map]
          by_cases ha : a = name
          · rw [if_pos ha, if_pos (Or.inl ha)]
          · have hkeysOf : (∃ k < (dueFor name pending).length, a = keyOfCall name k) ↔
                (a = name ∨ ∃ s ∈ pending, s.name = name ∧ a = keyOfCall name s.number) := by
              constructor
              · rintro ⟨k, hk, hak⟩
                obtain ⟨s, hs, rfl⟩ := (hnumber k).1 hk
                exact Or.inr ⟨s, (mem_dueFor.1 hs).1, (mem_dueFor.1 hs).2, hak⟩
              · intro hcases
                cases hcases with
                | inl heqn => exact absurd heqn ha
                | inr hkey =>
                  obtain ⟨s, hs, hsn, hak⟩ := hkey
                  exact ⟨s.number, (hnumber _).2 ⟨s, mem_dueFor.2 ⟨hs, hsn⟩, rfl⟩, hak⟩
            rw [if_neg ha]
            simp only [hkeysOf]
        case last => exact h.last
        case scheduled => exact h.scheduled
    · right
      refine ⟨hdue, ?_⟩
      intro called st' hok hperm
      apply hdue
      rw [hrun] at hok
      cases hr : runScheduled junk name.1 (st.modulesQuickScheduled + 1) 0 st.quick with
      | error e =>
        rw [hr, Exec.error_bind] at hok
        cases hok
      | ok r =>
        rw [hr, Exec.ok_bind] at hok
        have hcalledEq : called = r.1 := by
          cases hremove : hashmapRemove r.2 (name.1 ++ [0]) with
          | error e =>
            rw [hremove, Exec.error_bind] at hok
            cases hok
          | ok q =>
            rw [hremove, Exec.ok_bind] at hok
            cases hok
            rfl
        obtain ⟨hlast, hcalled, -⟩ := runScheduled_of_ok hmap hr
        simp only [Nat.zero_add, ← hcalledEq] at hlast hcalled
        have hlen : called.length = (dueFor name pending).length := by
          rw [hperm.length_eq, List.length_map]
        constructor
        · exact hpending.numbers_of_found hname hn hcalled hlen
        · intro _
          rw [← hlen]
          exact hlast
  · left
    rw [if_neg hsome] at hrun
    have hnone : ∀ s ∈ pending, s.name ≠ name := by
      intro s hs hsn
      exact hsome ((hpending.marker name hname).2 ⟨s, hs, hsn⟩)
    have hdue : dueFor name pending = [] := by
      rw [dueFor, List.filter_eq_nil_iff]
      intro s hs
      simpa using hnone s hs
    have hleft : (pending.filter fun s => s.name ≠ name) = pending := by
      rw [List.filter_eq_self]
      intro s hs
      simpa using hnone s hs
    rw [hdue, hleft]
    exact ⟨⟨rfl, fun hne => absurd rfl hne⟩, st, hrun, h, rfl⟩

end Module

/-! ## All modules -/

def moduleNames : List ModuleFile → List CText
  | [] => []
  | .skipped :: files => moduleNames files
  | .module name _ :: files => name :: moduleNames files

/-- After `n` quick and `l` late calls, with `pending` to come, all keys of the files fit, and the
functions due are found. -/
structure FilesFit (n l : Nat) (pending : List Scheduled) (files : List ModuleFile) : Prop where
  due : ∀ d ∈ dueCalls n pending files, DueFits d
  keys : ∀ s ∈ quickOf n files, KeyFits s
  late : ∀ k ∈ List.range' l (lateOf files).length, LateFits k

theorem filesFit_module {n l : Nat} {pending : List Scheduled} {name : CText}
    {init : List ScheduleCall} {files : List ModuleFile} :
    FilesFit n l pending (.module name init :: files) ↔ CallsFit n l init ∧
      DueFits (name, dueFor name (pending ++ quickCalls n init)) ∧
      FilesFit (n + (quickCalls n init).length) (l + (lateCalls init).length)
        ((pending ++ quickCalls n init).filter fun s => s.name ≠ name) files := by
  have hlate : List.range' l (lateOf (.module name init :: files)).length =
      List.range' l (lateCalls init).length ++
        List.range' (l + (lateCalls init).length) (lateOf files).length := by
    rw [lateOf, List.length_append, List.range'_append_1]
  constructor
  · intro h
    have hl := h.late
    have hk := h.keys
    rw [hlate] at hl
    rw [quickOf] at hk
    constructor
    · exact ⟨fun s hs => hk s (List.mem_append_left _ hs),
        fun k hk' => hl k (List.mem_append_left _ hk')⟩
    · constructor
      · exact h.due _ List.mem_cons_self
      · constructor
        · exact fun d hd => h.due d (List.mem_cons_of_mem _ hd)
        · exact fun s hs => hk s (List.mem_append_right _ hs)
        · exact fun k hk' => hl k (List.mem_append_right _ hk')
  · intro ⟨hcalls, hdue, hrest⟩
    constructor
    · intro d hd
      cases List.mem_cons.1 hd with
      | inl hfirst => exact hfirst ▸ hdue
      | inr hlater => exact hrest.due d hlater
    · intro s hs
      cases List.mem_append.1 hs with
      | inl hfirst => exact hcalls.1 s hfirst
      | inr hlater => exact hrest.keys s hlater
    · rw [hlate]
      intro k hk
      cases List.mem_append.1 hk with
      | inl hfirst => exact hcalls.2 k hfirst
      | inr hlater => exact hrest.late k hlater

abbrev CallsDue (c : CText × List Nat) (d : CText × List Scheduled) : Prop :=
  c.1 = d.1 ∧ c.2.Perm (d.2.map Scheduled.address)

section Files

variable {junk : Nat → UInt8} {names : List CText} {bound : Nat}

theorem Keeps.loadModules (hap : NamesApart names bound) {files : List ModuleFile} {st : Schedules}
    {pending : List Scheduled} {late : List Nat} (h : Keeps junk names bound st pending late)
    (hmodules : ∀ name ∈ moduleNames files, name ∈ names)
    (hnames : ∀ s ∈ quickOf st.modulesQuickScheduled files, s.name ∈ names)
    (hn : st.modulesQuickScheduled + (quickOf st.modulesQuickScheduled files).length ≤ bound)
    (hkeys : ∀ s ∈ pending, KeyFits s) :
    (FilesFit st.modulesQuickScheduled late.length pending files ∧
      ∃ called st' left, Boot.loadModules junk st files = .ok (called, st') ∧
        List.Forall₂ CallsDue called (dueCalls st.modulesQuickScheduled pending files) ∧
        Keeps junk names bound st' left (late ++ lateOf files)) ∨
    (¬ FilesFit st.modulesQuickScheduled late.length pending files ∧
      ∀ called st', Boot.loadModules junk st files = .ok (called, st') →
        ¬ List.Forall₂ CallsDue called (dueCalls st.modulesQuickScheduled pending files)) := by
  induction files generalizing st pending late with
  | nil =>
    left
    constructor
    · constructor
      all_goals simp [dueCalls, quickOf, lateOf]
    · refine ⟨[], st, pending, rfl, List.Forall₂.nil, ?_⟩
      simpa [lateOf] using h
  | cons file files ih =>
    cases file with
    | skipped =>
      have hfits : FilesFit st.modulesQuickScheduled late.length pending (.skipped :: files) ↔
          FilesFit st.modulesQuickScheduled late.length pending files :=
        ⟨fun hf => ⟨hf.due, hf.keys, hf.late⟩, fun hf => ⟨hf.due, hf.keys, hf.late⟩⟩
      rw [hfits]
      exact ih h hmodules hnames hn hkeys
    | module name init =>
      rw [quickOf, List.length_append] at hn
      rw [quickOf] at hnames
      rw [moduleNames] at hmodules
      rw [filesFit_module]
      have hinit := h.runInit hap (fun s hs => hnames s (List.mem_append_left _ hs)) (by omega)
      cases hinit with
      | inr hbad =>
        right
        obtain ⟨e, he⟩ := hbad.2
        refine ⟨fun hf => hbad.1 hf.1, ?_⟩
        intro called st' hok
        rw [Boot.loadModules, loadModule, he, Exec.error_bind, Exec.error_bind] at hok
        cases hok
      | inl hgood =>
        obtain ⟨hcalls, st₁, hrun₁, h₁, hcount₁⟩ := hgood
        have hkeys₁ : ∀ s ∈ pending ++ quickCalls st.modulesQuickScheduled init, KeyFits s := by
          intro s hs
          cases List.mem_append.1 hs with
          | inl hold => exact hkeys s hold
          | inr hnew => exact hcalls.1 s hnew
        have hmodule := h₁.runDue hap (hmodules name List.mem_cons_self) (by omega) hkeys₁ hrun₁
        cases hmodule with
        | inr hbad =>
          right
          refine ⟨fun hf => hbad.1 hf.2.1, ?_⟩
          intro called st' hok hforall
          rw [Boot.loadModules] at hok
          cases hload : loadModule junk st name init with
          | error e =>
            rw [hload, Exec.error_bind] at hok
            cases hok
          | ok r =>
            rw [hload, Exec.ok_bind] at hok
            cases hrest : Boot.loadModules junk r.2 files with
            | error e =>
              change (Boot.loadModules junk r.2 files >>= _) = _ at hok
              rw [hrest, Exec.error_bind] at hok
              cases hok
            | ok rest =>
              change (Boot.loadModules junk r.2 files >>= _) = _ at hok
              rw [hrest, Exec.ok_bind] at hok
              cases hok
              exact hbad.2 r.1 r.2 hload (List.forall₂_cons.1 hforall).1.2
        | inl hgood =>
          obtain ⟨hdue, st₂, hrun₂, h₂, hcount₂⟩ := hgood
          have hcount : st₂.modulesQuickScheduled = st.modulesQuickScheduled +
              (quickCalls st.modulesQuickScheduled init).length := hcount₂.trans hcount₁
          have hrest := ih h₂ (fun a ha => hmodules a (List.mem_cons_of_mem _ ha))
          rw [hcount] at hrest
          have hrest := hrest (fun s hs => hnames s (List.mem_append_right _ hs)) (by omega)
            (fun s hs => hkeys₁ s (List.mem_filter.1 hs).1)
          rw [List.length_append] at hrest
          cases hrest with
          | inl hok =>
            obtain ⟨hfits, called, st', left', hrun, hforall, h'⟩ := hok
            left
            refine ⟨⟨hcalls, hdue, hfits⟩, (name, (dueFor name (pending ++ quickCalls
              st.modulesQuickScheduled init)).map Scheduled.address) :: called, st', left', ?_, ?_, ?_⟩
            · rw [Boot.loadModules, hrun₂, Exec.ok_bind]
              change (Boot.loadModules junk st₂ files >>= _) = _
              rw [hrun, Exec.ok_bind]
            · exact List.Forall₂.cons ⟨rfl, List.Perm.refl _⟩ hforall
            · rw [lateOf, ← List.append_assoc]
              exact h'
          | inr hbad =>
            right
            refine ⟨fun hf => hbad.1 hf.2.2, ?_⟩
            intro called st' hok hforall
            rw [Boot.loadModules, hrun₂, Exec.ok_bind] at hok
            change (Boot.loadModules junk st₂ files >>= _) = _ at hok
            cases hrest : Boot.loadModules junk st₂ files with
            | error e =>
              rw [hrest, Exec.error_bind] at hok
              cases hok
            | ok rest =>
              rw [hrest, Exec.ok_bind] at hok
              cases hok
              exact hbad.2 rest.1 rest.2 hrest (List.forall₂_cons.1 hforall).2

end Files

/-! ## The late functions -/

/-- The condition for every scheduled function to be called: those due after a module are the first
quick calls made, all keys fit their arrays, and one function at most is scheduled late. -/
structure CallbacksFit (files : List ModuleFile) : Prop where
  due : ∀ d ∈ dueCalls 0 [] files, DueFits d
  keys : ∀ s ∈ quickOf 0 files, KeyFits s
  late : (lateOf files).length ≤ 1

theorem Keeps.late_iff {junk : Nat → UInt8} {names : List CText} {bound : Nat} {st : Schedules}
    {pending : List Scheduled} {late : List Nat} (h : Keeps junk names bound st pending late) :
    (∃ size, hashmapSize st.last = .ok size ∧
      ∃ l, (List.range size).mapM (hashmapGetI st.last) = .ok l ∧ l.Perm late) ↔
    late.length ≤ 1 := by
  obtain ⟨chain, hmap, -, hvalues⟩ := h.last
  have hlen : chain.length = late.length := by rw [← hvalues, List.length_map]
  have hsize : hashmapSize st.last = .ok late.length := by
    rw [hashmapSize, hmap.walk_eq fun _ => ()]
    change Except.ok (List.map (fun _ => ()) [chain].flatten).length = _
    rw [List.length_map, List.flatten_singleton, hlen]
  constructor
  · rintro ⟨size, hsize', l, hl, _⟩
    rw [hsize] at hsize'
    cases hsize'
    by_contra hlong
    obtain ⟨m, hm⟩ : ∃ m, late.length = m + 1 + 1 := ⟨late.length - 2, by omega⟩
    rw [hm, List.range_succ_eq_map, List.range_succ_eq_map, List.map_cons, List.mapM_cons,
      List.mapM_cons, hmap.getI_overrun rfl Nat.one_pos, hmap.getI_zero rfl] at hl
    cases hl
  · intro hle
    refine ⟨late.length, hsize, ?_⟩
    cases late with
    | nil => exact ⟨[], rfl, List.Perm.refl _⟩
    | cons address rest =>
      have hrest : rest = [] := by
        rw [← List.length_eq_zero_iff]
        rw [List.length_cons] at hle
        omega
      rw [hrest] at hvalues ⊢
      refine ⟨[address], ?_, List.Perm.refl _⟩
      have hget : hashmapGetI st.last 0 = .ok address := by
        rw [hmap.getI_zero rfl]
        cases chain with
        | nil => cases hvalues
        | cons e chain =>
          rw [List.map_cons] at hvalues
          rw [List.head?_cons, Option.map_some, (List.cons.inj hvalues).1]
          rfl
      rw [List.length_singleton, List.range_one, List.mapM_cons, hget]
      rfl

theorem lateFits_of_length {files : List ModuleFile} (h : (lateOf files).length ≤ 1) :
    ∀ k ∈ List.range' 0 (lateOf files).length, LateFits k := by
  intro k hk
  rw [List.mem_range'_1] at hk
  have hzero : k = 0 := by omega
  rw [hzero]
  exact ⟨by decide, by decide⟩

abbrev startSchedules (junk : Nat → UInt8) : Schedules :=
  { quick := hashmapCreate junk 1, last := hashmapCreate junk 1, modulesScheduled := 0,
    modulesQuickScheduled := 0 }

theorem keeps_start (junk : Nat → UInt8) (names : List CText) (bound : Nat) :
    Keeps junk names bound (startSchedules junk) [] [] := by
  have hmap : TextMap junk (hashmapCreate junk 1) (List.replicate 1 []) :=
    represents_create junk _ _ Nat.one_pos (by decide)
  constructor
  case quick => exact ⟨_, hmap, pending_empty⟩
  case last => exact ⟨[], hmap, rfl, rfl⟩
  case scheduled => rfl

/-- The names that the modules have or are awaited by. -/
def usedNames (files : List ModuleFile) : List CText :=
  moduleNames files ++ (quickOf 0 files).map Scheduled.name

section Main

variable {files : List ModuleFile}

theorem loadModules_cases (hap : NamesApart (usedNames files) (quickOf 0 files).length)
    (junk : Nat → UInt8) :
    (FilesFit 0 0 [] files ∧ ∃ called st' left,
      loadModules junk (startSchedules junk) files = .ok (called, st') ∧
        List.Forall₂ CallsDue called (dueCalls 0 [] files) ∧
        Keeps junk (usedNames files) (quickOf 0 files).length st' left (lateOf files)) ∨
    (¬ FilesFit 0 0 [] files ∧ ∀ called st',
      loadModules junk (startSchedules junk) files = .ok (called, st') →
        ¬ List.Forall₂ CallsDue called (dueCalls 0 [] files)) := by
  apply (keeps_start junk (usedNames files) (quickOf 0 files).length).loadModules hap
  · exact fun name hname => List.mem_append_left _ hname
  · exact fun s hs => List.mem_append_right _ (List.mem_map_of_mem hs)
  · exact (Nat.zero_add _).le
  · simp

theorem callbacksFit_of_runs (hap : NamesApart (usedNames files) (quickOf 0 files).length)
    (h : RunsScheduled files) : CallbacksFit files := by
  obtain ⟨called, late, hrun, hforall, hlate⟩ := h fun _ => 0
  rw [modulesLoad] at hrun
  cases hload : loadModules (fun _ => 0) (startSchedules fun _ => 0) files with
  | error e =>
    rw [hload, Exec.error_bind] at hrun
    cases hrun
  | ok r =>
    rw [hload, Exec.ok_bind] at hrun
    change (hashmapSize r.2.last >>= _) = _ at hrun
    cases hsize : hashmapSize r.2.last with
    | error e =>
      rw [hsize, Exec.error_bind] at hrun
      cases hrun
    | ok size =>
      rw [hsize, Exec.ok_bind] at hrun
      cases hl : (List.range size).mapM (hashmapGetI r.2.last) with
      | error e =>
        rw [hl, Exec.error_bind] at hrun
        cases hrun
      | ok l =>
        rw [hl, Exec.ok_bind] at hrun
        cases hrun
        cases loadModules_cases hap fun _ => 0 with
        | inr hbad => exact absurd hforall (hbad.2 _ _ hload)
        | inl hgood =>
          obtain ⟨hfits, called', st', left', hload', _, hkeeps⟩ := hgood
          rw [hload] at hload'
          cases hload'
          constructor
          · exact hfits.due
          · exact hfits.keys
          · exact hkeeps.late_iff.1 ⟨size, hsize, _, hl, hlate⟩

theorem runs_of_callbacksFit (hap : NamesApart (usedNames files) (quickOf 0 files).length)
    (h : CallbacksFit files) : RunsScheduled files := by
  intro junk
  cases loadModules_cases hap junk with
  | inr hbad => exact absurd ⟨h.due, h.keys, lateFits_of_length h.late⟩ hbad.1
  | inl hgood =>
    obtain ⟨_, called, st', left', hload, hforall, hkeeps⟩ := hgood
    obtain ⟨size, hsize, l, hl, hperm⟩ := hkeeps.late_iff.2 h.late
    refine ⟨called, l, ?_, hforall, hperm⟩
    rw [modulesLoad, hload, Exec.ok_bind]
    change (hashmapSize st'.last >>= _) = _
    rw [hsize, Exec.ok_bind, hl, Exec.ok_bind]

/-- Every scheduled function is called once, after its module or after the last one, exactly when
the functions awaited after a module are the first ones scheduled, their keys fit, and one function
at most is scheduled late. -/
theorem runsScheduled_iff (hap : NamesApart (usedNames files) (quickOf 0 files).length) :
    RunsScheduled files ↔ CallbacksFit files :=
  ⟨callbacksFit_of_runs hap, runs_of_callbacksFit hap⟩

end Main

/-- A module `a` that has two functions called after the module `b`, which has one late. -/
def twoQuick : List ModuleFile :=
  [.module ⟨[97], nul_notMem_a⟩ [⟨.quick, ⟨[98], nul_notMem_b⟩, 16⟩, ⟨.quick, ⟨[98], nul_notMem_b⟩, 32⟩],
    .skipped, .module ⟨[98], nul_notMem_b⟩ [⟨.late, ⟨[97], nul_notMem_a⟩, 48⟩]]

theorem runsScheduled_iff_twoQuick :
    NamesApart (usedNames twoQuick) (quickOf 0 twoQuick).length ∧ RunsScheduled twoQuick := by
  have hap : NamesApart (usedNames twoQuick) (quickOf 0 twoQuick).length := by decide
  constructor
  · exact hap
  · apply (runsScheduled_iff hap).2
    constructor
    · decide
    · decide
    · decide

/-- A module that has one function called after `b` and one after `c`: that one has number 1, and
the loop after `c` looks for number 0. -/
def twoAwaited : List ModuleFile :=
  [.module ⟨[97], nul_notMem_a⟩ [⟨.quick, ⟨[98], nul_notMem_b⟩, 16⟩, ⟨.quick, ⟨[99], nul_notMem_c⟩, 32⟩],
    .module ⟨[98], nul_notMem_b⟩ [], .module ⟨[99], nul_notMem_c⟩ []]

theorem not_runsScheduled_two_awaited : ¬ RunsScheduled twoAwaited := by
  intro h
  have hfit := callbacksFit_of_runs (by decide) h
  exact absurd hfit.due (by decide)

end KernelTest.Boot
