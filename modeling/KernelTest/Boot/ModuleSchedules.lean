import KernelTest.Boot.ModuleKeys

/-!
# When scheduled functions are called as they should be

The map of quick functions holds the pending calls under their keys. Looking the keys of a module
up from number 0 on finds all of them exactly when they were the first ones ever made.
-/

namespace KernelTest.Boot

open Libc

abbrev TextMap (junk : Nat → UInt8) (map : Hashmap Block) (t : ArgMap) : Prop :=
  map.Represents (stringFuncs junk) (fun a : CText => a.1 ++ [0]) textHash t

/-- The pending calls in the table: each under its key, and each name of one as a marker. `n` keys
have been made, `bound` at most are made in all. -/
structure Pending (names : List CText) (bound : Nat) (t : ArgMap) (n : Nat)
    (pending : List Scheduled) : Prop where
  key : ∀ name ∈ names, ∀ c ≤ bound, ∀ a,
    HashTable.find textHash t (keyOfCall name c) = some a ↔ ⟨c, name, a⟩ ∈ pending
  marker : ∀ name ∈ names,
    ((HashTable.find textHash t name).isSome ↔ ∃ s ∈ pending, s.name = name)
  known : ∀ s ∈ pending, s.name ∈ names
  lt : ∀ s ∈ pending, s.number < n
  sorted : (pending.map Scheduled.number).Pairwise (· < ·)

/-- The key of a quick call fits its array, and the counter can be counted on. -/
def KeyFits (s : Scheduled) : Prop := (keyText s.name.1 s.number).length < 32 ∧ s.number + 1 < 2 ^ 31

instance (s : Scheduled) : Decidable (KeyFits s) := inferInstanceAs (Decidable (_ ∧ _))

section Quick

variable {names : List CText} {bound : Nat} {t : ArgMap} {n : Nat} {pending : List Scheduled}

theorem pending_empty : Pending names bound (List.replicate 1 []) 0 [] := by
  constructor
  case key =>
    intro name _ c _ a
    rw [HashTable.find_empty]
    simp
  case marker =>
    intro name _
    rw [HashTable.find_empty]
    simp
  all_goals simp

theorem Pending.schedule (h : Pending names bound t n pending) (ht : 0 < t.length)
    (hap : NamesApart names bound) {name : CText} (hname : name ∈ names) (hn : n ≤ bound)
    (address : Nat) :
    Pending names bound
      (HashTable.insert textHash (HashTable.insert textHash t (keyOfCall name n) address) name 0)
      (n + 1) (pending ++ [⟨n, name, address⟩]) := by
  have hfind : ∀ a, HashTable.find textHash
      (HashTable.insert textHash (HashTable.insert textHash t (keyOfCall name n) address) name 0)
        a = if a = name then some 0 else if a = keyOfCall name n then some address
          else HashTable.find textHash t a := by
    intro a
    rw [HashTable.find_insert (by rwa [HashTable.length_insert]), HashTable.find_insert ht,
      Function.update_apply, Function.update_apply]
  constructor
  case key =>
    intro name' hname' c hc a
    rw [hfind, if_neg (hap.ne hname hname' hc), List.mem_append, List.mem_singleton]
    by_cases hkey : keyOfCall name' c = keyOfCall name n
    · rw [if_pos hkey]
      obtain ⟨rfl, rfl⟩ := keyOfCall_inj.1 hkey
      constructor
      · intro ha
        cases ha
        exact Or.inr rfl
      · intro hmem
        rcases hmem with hmem | hmem
        · exact absurd (h.lt _ hmem) (Nat.lt_irrefl _)
        · cases hmem
          rfl
    · rw [if_neg hkey, h.key name' hname' c hc]
      constructor
      · exact Or.inl
      · intro hmem
        rcases hmem with hmem | hmem
        · exact hmem
        · cases hmem
          exact absurd rfl hkey
  case marker =>
    intro name' hname'
    rw [hfind]
    by_cases hn' : name' = name
    · simp [hn']
    · rw [if_neg hn', if_neg (hap.ne hname' hname hn).symm, h.marker name' hname']
      simp [Ne.symm hn']
  case known =>
    intro s hs
    rw [List.mem_append, List.mem_singleton] at hs
    rcases hs with hs | rfl
    · exact h.known s hs
    · exact hname
  case lt =>
    intro s hs
    rw [List.mem_append, List.mem_singleton] at hs
    rcases hs with hs | rfl
    · exact Nat.lt_succ_of_lt (h.lt s hs)
    · exact Nat.lt_succ_self _
  case sorted =>
    rw [List.map_append, List.pairwise_append]
    constructor
    · exact h.sorted
    · constructor
      · exact List.pairwise_singleton _ _
      · intro a ha b hb
        obtain ⟨s, hs, rfl⟩ := List.mem_map.1 ha
        rw [List.map_singleton, List.mem_singleton] at hb
        rw [hb]
        exact h.lt s hs

theorem Pending.run (h : Pending names bound t n pending) (hap : NamesApart names bound)
    (hn : n ≤ bound) {t' : ArgMap} {name : CText} (hname : name ∈ names)
    (hfind : ∀ a, HashTable.find textHash t' a =
      if a = name ∨ ∃ s ∈ pending, s.name = name ∧ a = keyOfCall name s.number then none
      else HashTable.find textHash t a) :
    Pending names bound t' n (pending.filter fun s => s.name ≠ name) := by
  constructor
  case key =>
    intro name' hname' c hc a
    rw [hfind, List.mem_filter]
    by_cases hn' : name' = name
    · have hgone : ¬ (⟨c, name', a⟩ ∈ pending ∧ decide (name' ≠ name) = true) := by simp [hn']
      simp only [hgone, iff_false]
      split
      · simp
      · next hleft =>
        intro hfound
        apply hleft
        right
        exact ⟨⟨c, name', a⟩, (h.key name' hname' c hc a).1 hfound, hn', by rw [hn']⟩
    · have hleft : ¬ (keyOfCall name' c = name ∨
          ∃ s ∈ pending, s.name = name ∧ keyOfCall name' c = keyOfCall name s.number) := by
        intro hcases
        rcases hcases with heq | ⟨s, _, _, heq⟩
        · exact hap.ne hname hname' hc heq
        · exact hn' (keyOfCall_inj.1 heq).1
      rw [if_neg hleft, h.key name' hname' c hc]
      simp [hn']
  case marker =>
    intro name' hname'
    rw [hfind]
    by_cases hn' : name' = name
    · simp [hn']
    · have hleft : ¬ (name' = name ∨
          ∃ s ∈ pending, s.name = name ∧ name' = keyOfCall name s.number) := by
        intro hcases
        rcases hcases with heq | ⟨s, hs, _, heq⟩
        · exact hn' heq
        · exact hap.ne hname' hname (((h.lt s hs).trans_le hn).le) heq.symm
      rw [if_neg hleft, h.marker name' hname']
      constructor
      · rintro ⟨s, hs, hsn⟩
        exact ⟨s, List.mem_filter.2 ⟨hs, by simp [hsn, hn']⟩, hsn⟩
      · rintro ⟨s, hs, hsn⟩
        exact ⟨s, (List.mem_filter.1 hs).1, hsn⟩
  case known =>
    intro s hs
    exact h.known s (List.mem_filter.1 hs).1
  case lt =>
    intro s hs
    exact h.lt s (List.mem_filter.1 hs).1
  case sorted => exact h.sorted.sublist (List.filter_sublist.map _)

end Quick

/-- `mod_sched_quick` holds the pending quick calls, and `mod_sched_last` the late ones in order. -/
structure Keeps (junk : Nat → UInt8) (names : List CText) (bound : Nat) (st : Schedules)
    (pending : List Scheduled) (late : List Nat) : Prop where
  quick : ∃ t, TextMap junk st.quick t ∧ Pending names bound t st.modulesQuickScheduled pending
  last : ∃ chain, TextMap junk st.last [chain] ∧
    chain.map Prod.fst = (List.range late.length).map decimalText ∧ chain.map Prod.snd = late
  scheduled : st.modulesScheduled = late.length

def LateFits (k : Nat) : Prop := (decimal k).length < 5 ∧ k + 1 < 2 ^ 31

/-- The keys fit of the calls that an `init` makes after `n` quick and `l` late ones. -/
def CallsFit (n l : Nat) (calls : List ScheduleCall) : Prop :=
  (∀ s ∈ quickCalls n calls, KeyFits s) ∧ ∀ k ∈ List.range' l (lateCalls calls).length, LateFits k

theorem quickCalls_cons (n : Nat) (call : ScheduleCall) (calls : List ScheduleCall) :
    quickCalls n (call :: calls) =
      quickCalls n [call] ++ quickCalls (n + (quickCalls n [call]).length) calls := by
  cases hm : call.mode <;> simp [quickCalls, hm]

theorem lateCalls_cons (call : ScheduleCall) (calls : List ScheduleCall) :
    lateCalls (call :: calls) = lateCalls [call] ++ lateCalls calls := by
  cases hm : call.mode <;> simp [lateCalls, hm]

theorem callsFit_cons (n l : Nat) (call : ScheduleCall) (calls : List ScheduleCall) :
    CallsFit n l (call :: calls) ↔ CallsFit n l [call] ∧
      CallsFit (n + (quickCalls n [call]).length) (l + (lateCalls [call]).length) calls := by
  rw [CallsFit, CallsFit, CallsFit, quickCalls_cons, lateCalls_cons, List.length_append,
    ← List.range'_append_1]
  simp only [List.mem_append, or_imp, forall_and]
  tauto

section Init

variable {junk : Nat → UInt8} {names : List CText} {bound : Nat} {st st' : Schedules}
  {pending : List Scheduled} {late : List Nat}

theorem increment_of_ok {n next : Nat} (h : increment n = .ok next) :
    n + 1 < 2 ^ 31 ∧ next = n + 1 := by
  rw [increment] at h
  split at h
  · next hn =>
    cases h
    exact ⟨hn, rfl⟩
  · cases h

theorem sprintf_of_ok {size : Nat} {text : List UInt8} {key : Block}
    (h : sprintf junk size text = .ok key) : text.length < size := by
  rw [sprintf] at h
  split at h
  · next hfits => exact hfits
  · cases h

theorem callsFit_of_ok (hlast : st.modulesScheduled = late.length) {call : ScheduleCall}
    (h : moduleSchedule junk st call = .ok st') :
    CallsFit st.modulesQuickScheduled late.length [call] := by
  cases hm : call.mode with
  | quick =>
    simp only [moduleSchedule, hm] at h
    cases hinc : increment st.modulesQuickScheduled with
    | error e =>
      rw [hinc, Exec.error_bind] at h
      cases h
    | ok next =>
      rw [hinc, Exec.ok_bind] at h
      cases hkey : sprintf junk 32 (keyText call.funcName.1 st.modulesQuickScheduled) with
      | error e =>
        rw [hkey, Exec.error_bind] at h
        cases h
      | ok key =>
        have hfits : KeyFits ⟨st.modulesQuickScheduled, call.funcName, call.address⟩ :=
          ⟨sprintf_of_ok hkey, (increment_of_ok hinc).1⟩
        simpa [CallsFit, quickCalls, lateCalls, hm] using hfits
  | late =>
    simp only [moduleSchedule, hm] at h
    cases hinc : increment st.modulesScheduled with
    | error e =>
      rw [hinc, Exec.error_bind] at h
      cases h
    | ok next =>
      rw [hinc, Exec.ok_bind] at h
      cases hkey : sprintf junk 5 (decimal st.modulesScheduled) with
      | error e =>
        rw [hkey, Exec.error_bind] at h
        cases h
      | ok key =>
        have hfits : LateFits st.modulesScheduled := ⟨sprintf_of_ok hkey, (increment_of_ok hinc).1⟩
        rw [hlast] at hfits
        simpa [CallsFit, quickCalls, lateCalls, hm] using hfits
  | unknown => simp [CallsFit, quickCalls, lateCalls, hm]

theorem increment_eq {n : Nat} (h : n + 1 < 2 ^ 31) : increment n = .ok (n + 1) := if_pos h

theorem Keeps.schedule (h : Keeps junk names bound st pending late) (hap : NamesApart names bound)
    {call : ScheduleCall} (hfit : CallsFit st.modulesQuickScheduled late.length [call])
    (hnames : ∀ s ∈ quickCalls st.modulesQuickScheduled [call], s.name ∈ names)
    (hn : st.modulesQuickScheduled ≤ bound) :
    ∃ st', moduleSchedule junk st call = .ok st' ∧
      Keeps junk names bound st' (pending ++ quickCalls st.modulesQuickScheduled [call])
        (late ++ lateCalls [call]) ∧
      st'.modulesQuickScheduled =
        st.modulesQuickScheduled + (quickCalls st.modulesQuickScheduled [call]).length := by
  cases hm : call.mode with
  | quick =>
    have hquick : quickCalls st.modulesQuickScheduled [call] =
        [⟨st.modulesQuickScheduled, call.funcName, call.address⟩] := by
      simp [quickCalls, hm]
    have hlate : lateCalls [call] = [] := by simp [lateCalls, hm]
    rw [hquick] at hnames ⊢
    rw [hlate, List.append_nil]
    have hkey : (keyText call.funcName.1 st.modulesQuickScheduled).length < 32 ∧
        st.modulesQuickScheduled + 1 < 2 ^ 31 :=
      hfit.1 ⟨st.modulesQuickScheduled, call.funcName, call.address⟩ (by rw [hquick]; simp)
    have hname : call.funcName ∈ names :=
      hnames ⟨st.modulesQuickScheduled, call.funcName, call.address⟩ (List.mem_singleton_self _)
    obtain ⟨t, hmap, hpending⟩ := h.quick
    have hnew := hpending.schedule hmap.pos hap hname hn call.address
    obtain ⟨map₁, hset₁, hmap₁⟩ := hmap.set (stringFuncs_lawful junk)
      (@denotes_sprintf junk 32 (keyOfCall call.funcName st.modulesQuickScheduled)) call.address
    obtain ⟨map₂, hset₂, hmap₂⟩ := hmap₁.set (stringFuncs_lawful junk) (denotes_name call.funcName) 0
    simp only [keyOfCall] at hset₁
    refine ⟨{ st with quick := map₂, modulesQuickScheduled := st.modulesQuickScheduled + 1 }, ?_, ?_,
      rfl⟩
    · simp only [moduleSchedule, hm]
      rw [increment_eq hkey.2, Exec.ok_bind, sprintf_eq junk hkey.1, Exec.ok_bind, hset₁, Exec.ok_bind]
      change (hashmapSet map₁ _ _ >>= _) = _
      rw [hset₂, Exec.ok_bind]
    · constructor
      case quick => exact ⟨_, hmap₂, hnew⟩
      case last => exact h.last
      case scheduled => exact h.scheduled
  | late =>
    have hquick : quickCalls st.modulesQuickScheduled [call] = [] := by simp [quickCalls, hm]
    have hlate : lateCalls [call] = [call.address] := by simp [lateCalls, hm]
    have hkey := hfit.2 late.length (by rw [hlate]; simp)
    rw [hquick, hlate, List.append_nil]
    obtain ⟨chain, hmap, hkeys, hvalues⟩ := h.last
    obtain ⟨map', hset, hmap'⟩ := hmap.set (stringFuncs_lawful junk)
      (@denotes_sprintf junk 5 (decimalText late.length)) call.address
    have hnew : decimalText late.length ∉ chain.map Prod.fst := by
      rw [hkeys]
      intro hmem
      obtain ⟨k, hk, heq⟩ := List.mem_map.1 hmem
      rw [decimalText_injective heq] at hk
      simp at hk
    have hchain : HashTable.insert textHash [chain] (decimalText late.length) call.address =
        [chain ++ [(decimalText late.length, call.address)]] := by
      rw [HashTable.insert_singleton, HashTable.setChain_of_not_mem hnew]
    rw [hchain] at hmap'
    simp only [decimalText] at hset
    refine ⟨{ st with last := map', modulesScheduled := late.length + 1 }, ?_, ?_, rfl⟩
    · simp only [moduleSchedule, hm]
      rw [h.scheduled, increment_eq hkey.2, Exec.ok_bind, sprintf_eq junk hkey.1, Exec.ok_bind, hset,
        Exec.ok_bind]
    · constructor
      case quick => exact h.quick
      case last =>
        refine ⟨_, hmap', ?_, ?_⟩
        · rw [List.map_append, hkeys, List.length_append, List.length_singleton, List.range_succ,
            List.map_append]
          rfl
        · rw [List.map_append, hvalues]
          rfl
      case scheduled => simp
  | unknown =>
    have hquick : quickCalls st.modulesQuickScheduled [call] = [] := by simp [quickCalls, hm]
    have hlate : lateCalls [call] = [] := by simp [lateCalls, hm]
    rw [hquick, hlate, List.append_nil, List.append_nil]
    refine ⟨st, ?_, h, rfl⟩
    simp only [moduleSchedule, hm]

theorem Keeps.runInit (h : Keeps junk names bound st pending late) (hap : NamesApart names bound)
    {calls : List ScheduleCall}
    (hnames : ∀ s ∈ quickCalls st.modulesQuickScheduled calls, s.name ∈ names)
    (hn : st.modulesQuickScheduled + (quickCalls st.modulesQuickScheduled calls).length ≤ bound) :
    (CallsFit st.modulesQuickScheduled late.length calls ∧
      ∃ st', Boot.runInit junk st calls = .ok st' ∧
        Keeps junk names bound st' (pending ++ quickCalls st.modulesQuickScheduled calls)
          (late ++ lateCalls calls) ∧
        st'.modulesQuickScheduled =
          st.modulesQuickScheduled + (quickCalls st.modulesQuickScheduled calls).length) ∨
    (¬ CallsFit st.modulesQuickScheduled late.length calls ∧
      ∃ e, Boot.runInit junk st calls = .error e) := by
  induction calls generalizing st pending late with
  | nil =>
    left
    refine ⟨by simp [CallsFit, quickCalls, lateCalls], st, rfl, ?_, rfl⟩
    simpa [quickCalls, lateCalls] using h
  | cons call calls ih =>
    rw [quickCalls_cons] at hnames hn ⊢
    rw [List.length_append] at hn ⊢
    rw [callsFit_cons, lateCalls_cons call calls]
    by_cases hfit : CallsFit st.modulesQuickScheduled late.length [call]
    · obtain ⟨st₁, hrun, h₁, hcount⟩ := h.schedule hap hfit
        (fun s hs => hnames s (List.mem_append_left _ hs)) (by omega)
      have hlate : late.length + (lateCalls [call]).length = (late ++ lateCalls [call]).length :=
        (List.length_append ..).symm
      have hrest := ih h₁
      rw [hcount] at hrest
      rw [hlate, Boot.runInit, hrun, Exec.ok_bind]
      cases hrest (fun s hs => hnames s (List.mem_append_right _ hs)) (by omega) with
      | inl hok =>
        obtain ⟨hfits, st', hrun', h', hcount'⟩ := hok
        left
        refine ⟨⟨hfit, hfits⟩, st', hrun', ?_, by omega⟩
        simpa [List.append_assoc] using h'
      | inr hbad => exact Or.inr ⟨fun hboth => hbad.1 hboth.2, hbad.2⟩
    · right
      constructor
      · exact fun hboth => hfit hboth.1
      · cases hcall : moduleSchedule junk st call with
        | ok st₁ => exact absurd (callsFit_of_ok h.scheduled hcall) hfit
        | error e =>
          refine ⟨e, ?_⟩
          rw [Boot.runInit, hcall, Exec.error_bind]

end Init

end KernelTest.Boot
