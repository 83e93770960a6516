import KernelTest.Framework.Bytes
import KernelTest.Memory.PageViews

/-!
# Allocating a range of pages

`alloc_pages` steps from an address by one page until it is past the last address of the range, in 32
bits. The last page of the range is not visited if its part of the range ends before the offset of the
first address, and the loop never ends if every address with this offset is in the range or before it.
-/

namespace KernelTest.Memory

namespace Directories

/-- The loop of both `alloc_pages`, in at most `fuel` rounds. -/
def allocRange (isKernel isWriteable : Bool) (stop : Nat) : Nat → Nat → Nat → PagingM PUnit
  | 0, _, _ => throw .diverged
  | fuel + 1, pageCtr, virtPageCtr =>
    if pageCtr ≤ stop then do
      allocPage isKernel isWriteable pageCtr virtPageCtr
      allocRange isKernel isWriteable stop fuel (u32 (pageCtr + 4096)) (u32 (virtPageCtr + 4096))
    else pure ⟨⟩

/-- `alloc_pages(is_kernel, is_writeable, physical_address_start, physical_address_end)`. -/
def allocPages (fuel : Nat) (isKernel isWriteable : Bool) (start stop : Nat) : PagingM PUnit :=
  allocRange isKernel isWriteable stop fuel start start

/-- `alloc_pages` with the range `virtual_addr_start`, `virtual_addr_end` to map to. -/
def allocPagesTo (fuel : Nat) (isKernel isWriteable : Bool) (start stop vstart vstop : Nat) :
    PagingM Nat :=
  if sub32 stop start ≠ sub32 vstop vstart then pure 0
  else do
    allocRange isKernel isWriteable stop fuel start vstart
    pure 1

variable {s s' : Directories} {isKernel isWriteable : Bool}

inductive Rounds (isKernel isWriteable : Bool) (stop : Nat) :
    Nat → Nat → Nat → Directories → Directories → Prop
  | done {ctr target : Nat} {s : Directories} :
    stop < ctr → Rounds isKernel isWriteable stop 0 ctr target s s
  | step {n ctr target : Nat} {s s₁ s' : Directories} :
    ctr ≤ stop → allocPage isKernel isWriteable ctr target s = .ok (⟨⟩, s₁) →
    Rounds isKernel isWriteable stop n (u32 (ctr + 4096)) (u32 (target + 4096)) s₁ s' →
    Rounds isKernel isWriteable stop (n + 1) ctr target s s'

theorem Rounds.unique {stop n n' ctr target : Nat} {t t' : Directories}
    (h : Rounds isKernel isWriteable stop n ctr target s t)
    (h' : Rounds isKernel isWriteable stop n' ctr target s t') : t = t' := by
  induction h generalizing n' with
  | done hpast =>
    cases h' with
    | done => rfl
    | step hle => omega
  | step hle hrun _ ih =>
    cases h' with
    | done hpast => omega
    | step _ hrun' hrest =>
      rw [hrun] at hrun'
      cases hrun'
      exact ih hrest

theorem allocRange_iff_rounds {stop fuel ctr target : Nat} :
    allocRange isKernel isWriteable stop fuel ctr target s = .ok (⟨⟩, s') ↔
      ∃ n < fuel, Rounds isKernel isWriteable stop n ctr target s s' := by
  induction fuel generalizing ctr target s with
  | zero =>
    constructor
    · intro hrun
      cases hrun
    · rintro ⟨n, hn, -⟩
      exact absurd hn (Nat.not_lt_zero n)
  | succ fuel ih =>
    rw [allocRange]
    by_cases hle : ctr ≤ stop
    · rw [if_pos hle]
      constructor
      · intro hrun
        obtain ⟨_, s₁, hpage, hrest⟩ := Exec.of_bind_ok hrun
        obtain ⟨n, hn, hrounds⟩ := ih.mp hrest
        exact ⟨n + 1, by omega, .step hle hpage hrounds⟩
      · rintro ⟨n, hn, hrounds⟩
        cases hrounds with
        | done hpast => omega
        | step _ hpage hrounds =>
          rw [Exec.bind_ok hpage]
          exact ih.mpr ⟨_, by omega, hrounds⟩
    · rw [if_neg hle]
      constructor
      · intro hrun
        cases hrun
        exact ⟨0, by omega, .done (by omega)⟩
      · rintro ⟨n, hn, hrounds⟩
        cases hrounds with
        | done => rfl
        | step hle' => exact absurd hle' hle

theorem Rounds.ends {stop n ctr target : Nat}
    (h : Rounds isKernel isWriteable stop n ctr target s s') (hctr : ctr < 4294967296)
    (hstop : stop < 4294967296) : stop < 0xFFFFF000 + ctr % 4096 := by
  induction h with
  | done hpast => omega
  | step _ _ _ ih =>
    have hnext := ih (Nat.mod_lt _ (by decide))
    unfold u32 at hnext
    omega

/-- The state after `n` pages are mapped from the page `p` on: where a table was allocated, the other
pages of its slot are gone. -/
structure Ranged (s : Directories) (isKernel isWriteable : Bool) (p n target : Nat)
    (s' : Directories) : Prop where
  ready : s'.Ready
  inside : ∀ j, p ≤ j → j < p + n → s'.view j =
    some ⟨true, isWriteable, !isKernel, frameNumber (target + 4096 * (j - p))⟩
  lost : ∀ j < 1048576, (j < p ∨ p + n ≤ j) → ∀ q, p ≤ q → q < p + n → j / 1024 = q / 1024 →
    (s.entry s.currDir (q / 1024)).present = false → s'.view j = none
  kept : ∀ j < 1048576, (j < p ∨ p + n ≤ j) →
    (∀ q, p ≤ q → q < p + n → j / 1024 = q / 1024 →
      (s.entry s.currDir (q / 1024)).present = true) → s'.view j = s.view j

/-- The table of a page can be followed if its entry is present. -/
def Follows (s : Directories) (q : Nat) : Prop :=
  (s.entry s.currDir (q / 1024)).present = true → s.ptr s.currDir (q / 1024) ≠ 0

theorem Paged.follows {address q : Nat} {p : Page} (h : Paged s address p s')
    (hq : q / 1024 ≠ tableIndex address) : s'.Follows q ↔ s.Follows q := by
  have hpresent := h.present (q / 1024)
  have hhooked := h.hooked (q / 1024)
  unfold Follows
  rw [hpresent, hhooked]
  simp [hq]

theorem Ranged.cons {s₁ : Directories} {p n target r : Nat} (hp : p < 1048576) (hr : r < 4096)
    (hpage : Paged s (4096 * p + r) ⟨true, isWriteable, !isKernel, frameNumber target⟩ s₁)
    (h : Ranged s₁ isKernel isWriteable (p + 1) n (u32 (target + 4096)) s') :
    Ranged s isKernel isWriteable p (n + 1) target s' := by
  have hframe : frameNumber (4096 * p + r) = p := by
    unfold frameNumber
    omega
  have hindex : tableIndex (4096 * p + r) = p / 1024 := by
    rw [tableIndex, hframe]
  have hview := hpage.view
  rw [hframe, hindex] at hview
  have hpresent := hpage.present
  rw [hindex] at hpresent
  -- the slot of the first page has a table from now on, and loses nothing more
  have hkept : ∀ j < 1048576, (j ≤ p ∨ p + 1 + n ≤ j) → j / 1024 = p / 1024 →
      s'.view j = s₁.view j := by
    intro j hj hout hslot
    apply h.kept j hj (by omega)
    intro q _ _ hq
    exact (hpresent _).mpr (Or.inl (by omega))
  constructor
  case ready => exact h.ready
  case inside =>
    intro j hpj hjn
    by_cases hfirst : j = p
    · rw [hkept j (by omega) (by omega) (by rw [hfirst]), hview j (by omega), if_pos hfirst, hfirst,
        Nat.sub_self, Nat.mul_zero, Nat.add_zero]
    · have hsame : frameNumber (u32 (target + 4096) + 4096 * (j - (p + 1))) =
          frameNumber (target + 4096 * (j - p)) := by
        unfold frameNumber u32
        omega
      rw [h.inside j (by omega) (by omega), hsame]
  case lost =>
    intro j hj hout q hpq hqn hslot habsent
    by_cases hfirst : q / 1024 = p / 1024
    · rw [hkept j hj (by omega) (by omega), hview j hj, if_neg (by omega),
        if_pos ⟨hfirst ▸ habsent, by omega⟩]
    · have hstill : (s₁.entry s₁.currDir (q / 1024)).present = false := by
        rw [Bool.eq_false_iff, Ne, hpresent]
        simp [hfirst, habsent]
      have hne : q ≠ p := fun heq => hfirst (by rw [heq])
      exact h.lost j hj (by omega) q (by omega) (by omega) hslot hstill
  case kept =>
    intro j hj hout hall
    rw [h.kept j hj (by omega) fun q hpq hqn hq =>
      (hpresent _).mpr (Or.inr (hall q (by omega) (by omega) hq)), hview j hj, if_neg (by omega), if_neg]
    rintro ⟨habsent, hslot⟩
    rw [hall p (by omega) (by omega) hslot] at habsent
    cases habsent

theorem next_address {p r : Nat} (hr : r < 4096) (hp : p + 1 < 1048576) :
    u32 (4096 * p + r + 4096) = 4096 * (p + 1) + r := by
  rw [u32]
  omega

theorem tableIndex_address {p r : Nat} (hr : r < 4096) (hp : p < 1048576) :
    tableIndex (4096 * p + r) = p / 1024 := by
  unfold tableIndex frameNumber
  omega

theorem Ready.rounds_ok (h : s.Ready) {stop p n target r : Nat} (hr : r < 4096)
    (hpn : p + n < 1048576) (hpast : stop < 4096 * (p + n) + r)
    (hreach : ∀ q, p ≤ q → q < p + n → 4096 * q + r ≤ stop)
    (hfollows : ∀ q, p ≤ q → q < p + n → s.Follows q) :
    ∃ s', Rounds isKernel isWriteable stop n (4096 * p + r) target s s' ∧
      Ranged s isKernel isWriteable p n target s' := by
  induction n generalizing p target s with
  | zero =>
    refine ⟨s, .done hpast, h, ?_, ?_, ?_⟩
    · intro j hpj hj
      omega
    · intro j _ _ q hpq hq
      omega
    · exact fun _ _ _ _ => rfl
  | succ n ih =>
    have hindex := tableIndex_address hr (show p < 1048576 by omega)
    have hfirst := hfollows p (Nat.le_refl p) (by omega)
    rw [Follows, ← hindex] at hfirst
    obtain ⟨s₁, hrun, hpage⟩ := h.allocPage isKernel isWriteable target hfirst
    have hrest : ∀ q, p + 1 ≤ q → q < p + 1 + n → s₁.Follows q := by
      intro q hpq hq
      by_cases hslot : q / 1024 = tableIndex (4096 * p + r)
      · intro _
        exact (hpage.hooked _).mpr (Or.inl hslot)
      · exact (hpage.follows hslot).mpr (hfollows q (by omega) (by omega))
    have hstep : ∃ s', Rounds isKernel isWriteable stop n (4096 * (p + 1) + r) (u32 (target + 4096))
        s₁ s' ∧ Ranged s₁ isKernel isWriteable (p + 1) n (u32 (target + 4096)) s' :=
      ih hpage.ready (by omega) (by omega) (fun q hpq hq => hreach q (by omega) (by omega)) hrest
    obtain ⟨s', hrounds, hranged⟩ := hstep
    refine ⟨s', ?_, hranged.cons (by omega) hr hpage⟩
    apply Rounds.step (hreach p (Nat.le_refl p) (by omega)) hrun
    rw [next_address hr (by omega)]
    exact hrounds

theorem Ready.rounds_follow (h : s.Ready) {stop m p n target r : Nat} (hr : r < 4096)
    (hpn : p + n < 1048576) (hreach : ∀ q, p ≤ q → q < p + n → 4096 * q + r ≤ stop)
    (hrounds : Rounds isKernel isWriteable stop m (4096 * p + r) target s s') :
    ∀ q, p ≤ q → q < p + n → s.Follows q := by
  induction n generalizing m p target s with
  | zero =>
    intro q hpq hq
    omega
  | succ n ih =>
    have hindex := tableIndex_address hr (show p < 1048576 by omega)
    cases hrounds with
    | done hpast =>
      have hfirst := hreach p (Nat.le_refl p) (by omega)
      omega
    | step _ hrun hrest =>
      have hfirst : s.Follows p := by
        intro hpresent hnull
        rw [← hindex] at hpresent hnull
        rw [allocPage_null hpresent hnull] at hrun
        cases hrun
      rw [next_address hr (by omega)] at hrest
      intro q hpq hq
      by_cases hslot : q / 1024 = p / 1024
      · unfold Follows
        rw [hslot]
        exact hfirst
      · rw [Follows, ← hindex] at hfirst
        obtain ⟨s₁, hrun', hpage⟩ := h.allocPage isKernel isWriteable target hfirst
        rw [hrun'] at hrun
        cases hrun
        have hrest' := ih hpage.ready (by omega) (fun q hpq hq => hreach q (by omega) (by omega)) hrest
        have hne : q ≠ p := fun heq => hslot (by rw [heq])
        exact (hpage.follows (by rwa [hindex])).mp (hrest' q (by omega) (by omega))

def Visits (start stop q : Nat) : Prop :=
  start / 4096 ≤ q ∧ q ≤ start / 4096 + (stop - start) / 4096

/-- The loop gets past the range, the tables of the pages that it visits can be followed or are allocated
without losing a page, and a last page that it does not visit is mapped already. -/
structure RangeFits (s : Directories) (isKernel isWriteable : Bool) (start stop vstart : Nat) :
    Prop where
  stops : stop < 0xFFFFF000 ∨ stop % 4096 < start % 4096
  follows : ∀ q, Visits start stop q → s.Follows q
  keeps : ∀ q, Visits start stop q → (s.entry s.currDir (q / 1024)).present = false →
    ∀ j < 1048576, ¬ Visits start stop j → j / 1024 = q / 1024 → s.view j = none
  skipped : stop % 4096 < start % 4096 → s.view (stop / 4096) =
    some ⟨true, isWriteable, !isKernel, frameNumber (vstart + 4096 * (stop / 4096 - start / 4096))⟩

def rangePages (s : Directories) (isKernel isWriteable : Bool) (start stop vstart j : Nat) :
    Option Page :=
  if start / 4096 ≤ j ∧ j ≤ stop / 4096 then
    some ⟨true, isWriteable, !isKernel, frameNumber (vstart + 4096 * (j - start / 4096))⟩
  else s.view j

theorem Ranged.pages_iff {start stop vstart : Nat} (hle : start ≤ stop) (hlt : stop < 4294967296)
    (h : Ranged s isKernel isWriteable (start / 4096) ((stop - start) / 4096 + 1) vstart s') :
    (∀ j < 1048576, s'.view j = s.rangePages isKernel isWriteable start stop vstart j) ↔
      (∀ q, Visits start stop q → (s.entry s.currDir (q / 1024)).present = false →
        ∀ j < 1048576, ¬ Visits start stop j → j / 1024 = q / 1024 → s.view j = none) ∧
      (stop % 4096 < start % 4096 → s.view (stop / 4096) =
        some ⟨true, isWriteable, !isKernel,
          frameNumber (vstart + 4096 * (stop / 4096 - start / 4096))⟩) := by
  have hlost : ∀ q, Visits start stop q → (s.entry s.currDir (q / 1024)).present = false →
      ∀ j < 1048576, ¬ Visits start stop j → j / 1024 = q / 1024 → s'.view j = none := by
    intro q hq habsent j hj hout hslot
    unfold Visits at hq hout
    exact h.lost j hj (by omega) q hq.1 (by omega) hslot habsent
  have hkept : ∀ j < 1048576, ¬ Visits start stop j →
      (∀ q, Visits start stop q → j / 1024 = q / 1024 →
        (s.entry s.currDir (q / 1024)).present = true) → s'.view j = s.view j := by
    intro j hj hout hall
    unfold Visits at hout
    exact h.kept j hj (by omega) fun q hpq hq hslot => hall q ⟨hpq, by omega⟩ hslot
  constructor
  · intro hpages
    constructor
    · intro q hq habsent j hj hout hslot
      have hnone := hlost q hq habsent j hj hout hslot
      rw [hpages j hj, rangePages] at hnone
      split at hnone
      · cases hnone
      · exact hnone
    · intro hoffset
      have hout : ¬ Visits start stop (stop / 4096) := by
        unfold Visits
        omega
      have hlast := hpages (stop / 4096) (by omega)
      rw [rangePages, if_pos ⟨by omega, Nat.le_refl _⟩] at hlast
      rw [← hlast]
      refine (hkept _ (by omega) hout fun q hq hslot => ?_).symm
      by_contra habsent
      rw [hlost q hq (Bool.eq_false_iff.mpr habsent) _ (by omega) hout hslot] at hlast
      cases hlast
  · rintro ⟨hkeeps, hskipped⟩ j hj
    by_cases hin : Visits start stop j
    · unfold Visits at hin
      rw [h.inside j hin.1 (by omega), rangePages, if_pos ⟨hin.1, by omega⟩]
    · have hsame : s'.view j = s.view j := by
        by_cases hnew : ∃ q, Visits start stop q ∧ j / 1024 = q / 1024 ∧
            (s.entry s.currDir (q / 1024)).present = false
        · obtain ⟨q, hq, hslot, habsent⟩ := hnew
          rw [hlost q hq habsent j hj hin hslot, hkeeps q hq habsent j hj hin hslot]
        · refine hkept j hj hin fun q hq hslot => ?_
          by_contra habsent
          exact hnew ⟨q, hq, hslot, Bool.eq_false_iff.mpr habsent⟩
      rw [hsame, rangePages]
      unfold Visits at hin
      split
      · have hlast : j = stop / 4096 := by omega
        rw [hlast]
        exact hskipped (by omega)
      · rfl

theorem Ready.allocRange_iff (h : s.Ready) (isKernel isWriteable : Bool) {start stop : Nat}
    (vstart : Nat) (hle : start ≤ stop) (hlt : stop < 4294967296) :
    (∃ fuel s', allocRange isKernel isWriteable stop fuel start vstart s = .ok (⟨⟩, s') ∧
      ∀ j < 1048576, s'.view j = s.rangePages isKernel isWriteable start stop vstart j) ↔
    s.RangeFits isKernel isWriteable start stop vstart := by
  let p := start / 4096
  let n := (stop - start) / 4096 + 1
  let r := start % 4096
  have hstart : start = 4096 * p + r := (Nat.div_add_mod start 4096).symm
  have hr : r < 4096 := Nat.mod_lt _ (by decide)
  have hreach : ∀ q, p ≤ q → q < p + n → 4096 * q + r ≤ stop := by omega
  have hpast : stop < 4096 * (p + n) + r := by omega
  have hvisits : ∀ q, Visits start stop q ↔ p ≤ q ∧ q < p + n := by
    intro q
    unfold Visits
    omega
  constructor
  · rintro ⟨fuel, s', hrun, hpages⟩
    obtain ⟨m, -, hrounds⟩ := allocRange_iff_rounds.mp hrun
    have hends := hrounds.ends (by omega) hlt
    have hstops : stop < 0xFFFFF000 ∨ stop % 4096 < start % 4096 := by omega
    have hpn : p + n < 1048576 := by omega
    rw [hstart] at hrounds
    have hfollows := h.rounds_follow hr hpn hreach hrounds
    obtain ⟨t, hrounds', hranged⟩ := h.rounds_ok hr hpn hpast hreach hfollows
    have hsame := hrounds'.unique hrounds
    subst hsame
    obtain ⟨hkeeps, hskipped⟩ := (hranged.pages_iff hle hlt).mp hpages
    constructor
    case stops => exact hstops
    case follows => exact fun q hq => hfollows q ((hvisits q).mp hq).1 ((hvisits q).mp hq).2
    case keeps => exact hkeeps
    case skipped => exact hskipped
  · intro hfits
    have hstops := hfits.stops
    have hpn : p + n < 1048576 := by omega
    have hrun : ∃ s', Rounds isKernel isWriteable stop n (4096 * p + r) vstart s s' ∧
        Ranged s isKernel isWriteable p n vstart s' :=
      h.rounds_ok hr hpn hpast hreach fun q hpq hq => hfits.follows q ((hvisits q).mpr ⟨hpq, hq⟩)
    obtain ⟨s', hrounds, hranged⟩ := hrun
    rw [← hstart] at hrounds
    refine ⟨n + 1, s', allocRange_iff_rounds.mpr ⟨n, Nat.lt_succ_self n, hrounds⟩, ?_⟩
    exact (hranged.pages_iff hle hlt).mpr ⟨hfits.keeps, hfits.skipped⟩

/-- Both `alloc_pages` on a range, with a second range to map it to. -/
structure Allocates (s : Directories) (isKernel isWriteable : Bool) (start stop vstart vstop : Nat) :
    Prop where
  identity : ∃ fuel s', allocPages fuel isKernel isWriteable start stop s = .ok (⟨⟩, s') ∧
    ∀ j < 1048576, s'.view j =
      if start / 4096 ≤ j ∧ j ≤ stop / 4096 then some ⟨true, isWriteable, !isKernel, j⟩
      else s.view j
  mapped : stop - start = vstop - vstart →
    ∃ fuel s', allocPagesTo fuel isKernel isWriteable start stop vstart vstop s = .ok (1, s') ∧
      ∀ j < 1048576, s'.view j =
        if start / 4096 ≤ j ∧ j ≤ stop / 4096 then
          some ⟨true, isWriteable, !isKernel, frameNumber (vstart + 4096 * (j - start / 4096))⟩
        else s.view j
  rejected : stop - start ≠ vstop - vstart →
    ∀ fuel, allocPagesTo fuel isKernel isWriteable start stop vstart vstop s = .ok (0, s)

theorem sub32_of_le {a b : Nat} (hle : b ≤ a) (hlt : a < 4294967296) : sub32 a b = a - b := by
  unfold sub32 u32
  omega

theorem allocPagesTo_ok {fuel start stop vstart vstop : Nat}
    (hsame : sub32 stop start = sub32 vstop vstart) :
    allocPagesTo fuel isKernel isWriteable start stop vstart vstop s = .ok (1, s') ↔
      allocRange isKernel isWriteable stop fuel start vstart s = .ok (⟨⟩, s') := by
  rw [allocPagesTo, if_neg (not_not.mpr hsame)]
  constructor
  · intro hrun
    obtain ⟨_, t, hloop, hrest⟩ := Exec.of_bind_ok hrun
    cases hrest
    exact hloop
  · intro hloop
    rw [Exec.bind_ok hloop]
    rfl

theorem rangePages_identity {start stop j : Nat} (hj : j < 1048576) :
    s.rangePages isKernel isWriteable start stop start j =
      if start / 4096 ≤ j ∧ j ≤ stop / 4096 then some ⟨true, isWriteable, !isKernel, j⟩
      else s.view j := by
  rw [rangePages]
  split
  · next hin =>
    have hframe : frameNumber (start + 4096 * (j - start / 4096)) = j := by
      unfold frameNumber
      omega
    rw [hframe]
  · rfl

/-- When both `alloc_pages` do what they are for. -/
theorem allocates_iff (h : s.Ready) {start stop vstart vstop : Nat} (hle : start ≤ stop)
    (hlt : stop < 4294967296) (hvle : vstart ≤ vstop) (hvlt : vstop < 4294967296) :
    s.Allocates isKernel isWriteable start stop vstart vstop ↔
      s.RangeFits isKernel isWriteable start stop start ∧
      (stop - start = vstop - vstart → s.RangeFits isKernel isWriteable start stop vstart) := by
  have hlengths : sub32 stop start = sub32 vstop vstart ↔ stop - start = vstop - vstart := by
    rw [sub32_of_le hle hlt, sub32_of_le hvle hvlt]
  have hidentity := h.allocRange_iff isKernel isWriteable start hle hlt
  have hmapped := h.allocRange_iff isKernel isWriteable vstart hle hlt
  constructor
  · intro hallocates
    constructor
    · obtain ⟨fuel, s', hrun, hpages⟩ := hallocates.identity
      refine hidentity.mp ⟨fuel, s', hrun, fun j hj => ?_⟩
      rw [hpages j hj, rangePages_identity hj]
    · intro hsame
      obtain ⟨fuel, s', hrun, hpages⟩ := hallocates.mapped hsame
      exact hmapped.mp ⟨fuel, s', (allocPagesTo_ok (hlengths.mpr hsame)).mp hrun, hpages⟩
  · rintro ⟨hfits, hfitsTo⟩
    constructor
    case identity =>
      obtain ⟨fuel, s', hrun, hpages⟩ := hidentity.mpr hfits
      refine ⟨fuel, s', hrun, fun j hj => ?_⟩
      rw [hpages j hj, rangePages_identity hj]
    case mapped =>
      intro hsame
      obtain ⟨fuel, s', hrun, hpages⟩ := hmapped.mpr (hfitsTo hsame)
      exact ⟨fuel, s', (allocPagesTo_ok (hlengths.mpr hsame)).mpr hrun, hpages⟩
    case rejected =>
      intro hne fuel
      rw [allocPagesTo, if_pos fun heq => hne (hlengths.mp heq)]
      rfl

/-- One page in a directory without tables. -/
theorem allocates_iff_emptied : emptied.Allocates true true 0 4095 0x100000 0x100FFF := by
  have hfits : ∀ vstart, emptied.RangeFits true true 0 4095 vstart := by
    intro vstart
    constructor
    case stops => decide
    case follows => exact fun q _ hpresent => absurd hpresent Bool.false_ne_true
    case keeps => exact fun _ _ _ j _ _ _ => view_emptied j
    case skipped => exact fun hoffset => absurd hoffset (by decide)
  exact (allocates_iff ready_emptied (by decide) (by decide) (by decide) (by decide)).mpr
    ⟨hfits 0, fun _ => hfits 0x100000⟩

/-- The last page of `0x1800` to `0x2000` is left out, and the range up to the last address of all is
never done. -/
theorem emptied_not_allocates : ¬ emptied.Allocates true true 0x1800 0x2000 0x1800 0x2000 ∧
    ¬ emptied.Allocates true true 0 0xFFFFFFFF 0 0xFFFFFFFF := by
  constructor
  · intro hallocates
    obtain ⟨fuel, s', hrun, hpages⟩ := hallocates.mapped rfl
    have hfits := (ready_emptied.allocRange_iff true true _ (by decide) (by decide)).mp
      ⟨fuel, s', (allocPagesTo_ok rfl).mp hrun, hpages⟩
    have hskipped := hfits.skipped (by decide)
    rw [view_emptied] at hskipped
    cases hskipped
  · intro hallocates
    obtain ⟨fuel, s', hrun, hpages⟩ := hallocates.mapped rfl
    have hfits := (ready_emptied.allocRange_iff true true _ (by decide) (by decide)).mp
      ⟨fuel, s', (allocPagesTo_ok rfl).mp hrun, hpages⟩
    exact absurd hfits.stops (by decide)

end Directories

end KernelTest.Memory
