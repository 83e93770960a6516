import KernelTest.Memory.AllocSizes

/-!
# `realloc`

`klrealloc` finds the header of a block in the page of its pointer. That is the right page unless the
pointer starts a page.
-/

namespace KernelTest.Memory

variable {L L' : Layout} {h h' : Heap} {b p q c d n : Nat}

namespace Layout

/-- `realloc(p, n)` returns the block at `p` or a new one, of at least `n` bytes that start with
those of `p`; the other blocks stay as they are, and `p` stays given out exactly if it is returned. -/
def Resizes (L : Layout) (h : Heap) (p c n : Nat) : Prop :=
  ∃ (q : Nat) (h' : Heap) (L' : Layout), realloc p n h = .ok (q, h') ∧ L'.Valid h' ∧ (q = p ∨ ∀ d, ¬ L.Live q d) ∧
    (∃ d, n ≤ d ∧ L'.Live q d) ∧
    (∀ x < min c n, h'.mem (q + x) = h.mem (p + x)) ∧
    (∀ r d, r ≠ p → L.Live r d → L'.Live r d ∧ ∀ x < d, h'.mem (r + x) = h.mem (r + x)) ∧
    ((∃ d, L'.Live p d) ↔ q = p)

theorem Shape.recordedSize_eq (hS : L.Shape h) (hlive : L.Live p c) (hp : p % 4096 ≠ 0) :
    h.word (magicAt (pageOf p)) = binMagic ∧ recordedSize (h.word (sizeAt (pageOf p))) = c := by
  obtain ⟨b, hb, hin⟩ := hlive
  have hbounds := hS.base_bounds hb
  obtain ⟨o, rfl, hlo, hhi, _⟩ := hin.bounds (hS.wf.chunk b hb)
  have hpage : pageOf (b + o) = b := by
    rw [pageOf]
    omega
  rw [hpage]
  refine ⟨(hS.header b hb).2, ?_⟩
  cases hchunk : L.chunk b with
  | small bin free =>
    rw [hchunk] at hin
    obtain ⟨hsize, hbin⟩ := hS.size_small hb hchunk
    rw [hsize, recordedSize, if_pos hbin, Nat.one_shiftLeft, hin.2.2]
  | big pages owner =>
    rw [hchunk] at hin
    obtain ⟨hsize, hpos, _⟩ := hS.size_big hb hchunk
    have hwf := hS.wf.chunk b hb
    rw [hchunk] at hwf
    have howner := hwf.2 _ hin.1
    have hend := hin.2
    rw [hsize, recordedSize, if_neg (by omega)]
    omega

end Layout

private theorem moveTo_spec (hlive : L.Live p c) (hc : c ≤ d)
    (ha : L.Allocated h q d L' h') :
    ∃ (L₂ : Layout) (h₂ : Heap), moveTo p c q h' = .ok (q, h₂) ∧ L₂.Valid h₂ ∧ h₂.memLock = h.memLock ∧
      (∀ r e, L₂.Live r e ↔ L.Live r e ∧ r ≠ p ∨ r = q ∧ e = d) ∧
      (∀ x < c, h₂.mem (q + x) = h.mem (p + x)) ∧
      ∀ r e, r ≠ p → L.Live r e → ∀ x < e, h₂.mem (r + x) = h.mem (r + x) := by
  have hpq : p ≠ q := by
    rintro rfl
    exact ha.fresh c hlive
  have hlive' : L'.Live p c := (ha.live p c).2 (.inl hlive)
  have hin : L'.Live q d := (ha.live q d).2 (.inr ⟨rfl, rfl⟩)
  have hq := ha.valid.shape.wf.live_pos hin
  have hcopied : L.Allocated h q d L' { h' with mem := blit h'.mem q h'.mem p c } :=
    ha.write fun x hx => blit_outside (by omega)
  obtain ⟨L₂, h₂, hfree, hfreed⟩ := klfree_spec hcopied.valid hlive'
  have hall : ∀ r e, L₂.Live r e ↔ L.Live r e ∧ r ≠ p ∨ r = q ∧ e = d := by
    intro r e
    rw [hfreed.live, ha.live]
    constructor
    · rintro ⟨hold | hnew, hne⟩
      · exact .inl ⟨hold, hne⟩
      · exact .inr hnew
    · rintro (⟨hold, hne⟩ | ⟨rfl, rfl⟩)
      · exact ⟨.inl hold, hne⟩
      · exact ⟨.inr ⟨rfl, rfl⟩, hpq.symm⟩
  refine ⟨L₂, h₂, ?_, hfreed.valid, hfreed.keeps.memLock.trans ha.keeps.memLock, hall, ?_, ?_⟩
  · rw [moveTo, if_pos (by omega), Exec.modify_bind, Exec.bind_ok hfree]
    rfl
  · intro x hx
    have hnew : L₂.UserByte (q + x) := ⟨q, d, (hall q d).2 (.inr ⟨rfl, rfl⟩), by omega, by omega⟩
    have hold : L.UserByte (p + x) := ⟨p, c, hlive, by omega, by omega⟩
    rw [hfreed.keeps.bytes _ hnew]
    show blit h'.mem q h'.mem p c (q + x) = _
    rw [blit_inside (by omega) (by omega), Nat.add_sub_cancel_left, ha.keeps.bytes _ hold]
  · intro r e hrp hr x hx
    have hkept : L₂.UserByte (r + x) := ⟨r, e, (hall r e).2 (.inl ⟨hr, hrp⟩), by omega, by omega⟩
    have hold : L.UserByte (r + x) := ⟨r, e, hr, by omega, by omega⟩
    have hrq : r ≠ q := by
      rintro rfl
      exact ha.fresh e hr
    have hdisjoint := ha.valid.shape.wf.live_disjoint ((ha.live r e).2 (.inl hr)) hin hrq
    rw [hfreed.keeps.bytes _ hkept]
    show blit h'.mem q h'.mem p c (r + x) = _
    rw [blit_outside (by omega), ha.keeps.bytes _ hold]

private theorem realloc_eq (hV : L.Valid h) (hlock : h.memLock = false) (hlive : L.Live p c)
    (hn : 0 < n) (hp : p % 4096 ≠ 0) :
    realloc p n h = ((if c ≥ n then pure p else klmalloc n >>= moveTo p c) >>= fun q =>
      spinUnlock >>= fun _ => pure q) { h with memLock := true } := by
  obtain ⟨hmagic, hsize⟩ := hV.shape.recordedSize_eq hlive hp
  have hpos := hV.shape.wf.live_pos hlive
  have hold : klrealloc p n { h with memLock := true } =
      (if c ≥ n then pure p else klmalloc n >>= moveTo p c) { h with memLock := true } := by
    have hread : recordedSize (({ h with memLock := true } : Heap).word (sizeAt (pageOf p))) = c :=
      hsize
    rw [klrealloc, if_neg (by omega), if_neg (by omega), load_bind]
    show (assert (h.word (magicAt (pageOf p)) = binMagic) >>= _) _ = _
    rw [assert_bind hmagic, load_bind]
    rw [hread]
  rw [realloc, Exec.bind_ok (spinLock_eq hlock)]
  cases hrun : klrealloc p n { h with memLock := true } with
  | error e =>
    rw [Exec.bind_error hrun]
    rw [hrun] at hold
    rw [Exec.bind_error hold.symm]
  | ok r =>
    obtain ⟨q, h₁⟩ := r
    rw [Exec.bind_ok hrun]
    rw [hrun] at hold
    rw [Exec.bind_ok hold.symm]

private theorem resizes_of_apart (hV : L.Valid h) (hlock : h.memLock = false) (hlive : L.Live p c)
    (hn : 0 < n) (hp : p % 4096 ≠ 0) (hgrow : c < n → n < 4294963152 ∧ L.Serves h n) :
    L.Resizes h p c n := by
  have hrun := realloc_eq hV hlock hlive hn hp
  by_cases hfits : c ≥ n
  · rw [if_pos hfits] at hrun
    have hsame : ({ h with memLock := false } : Heap) = h := by rw [← hlock]
    refine ⟨p, h, L, ?_, hV, .inl rfl, ⟨c, hfits, hlive⟩, fun _ _ => rfl,
      fun r d _ hr => ⟨hr, fun _ _ => rfl⟩, iff_of_true ⟨c, hlive⟩ rfl⟩
    rw [hrun]
    show Except.ok (p, { h with memLock := false }) = _
    rw [hsame]
  · rw [if_neg hfits] at hrun
    obtain ⟨hsize, hserves⟩ := hgrow (Nat.not_le.1 hfits)
    have hspec := klmalloc_spec (hV.setLock true) (Nat.pos_iff_ne_zero.1 hn) hsize
    cases hmalloc : klmalloc n { h with memLock := true } with
    | error e => exact absurd hserves (hspec.error hmalloc).2
    | ok r =>
      obtain ⟨q, h'⟩ := r
      obtain ⟨_, L', d, hd, ha⟩ := hspec.ok hmalloc
      obtain ⟨L₂, h₂, hmove, hV₂, _, hall, hcopied, hkept⟩ := moveTo_spec hlive (by omega) ha
      refine ⟨q, { h₂ with memLock := false }, L₂, ?_, hV₂.setLock false, .inr ha.fresh,
        ⟨d, hd, (hall q d).2 (.inr ⟨rfl, rfl⟩)⟩, fun x hx => hcopied x (by omega), ?_, ?_⟩
      · have hboth : (klmalloc n >>= moveTo p c) { h with memLock := true } = .ok (q, h₂) := by
          rw [Exec.bind_ok hmalloc, hmove]
        rw [hrun, Exec.bind_ok hboth]
        rfl
      · exact fun r e hrp hr => ⟨(hall r e).2 (.inl ⟨hr, hrp⟩), hkept r e hrp hr⟩
      · constructor
        · rintro ⟨e, he⟩
          rcases (hall p e).1 he with ⟨_, hne⟩ | ⟨hpq, _⟩
          · exact absurd rfl hne
          · exact hpq.symm
        · rintro rfl
          exact absurd hlive (ha.fresh c)

private theorem realloc_page (hlock : h.memLock = false) (hp : p % 4096 = 0) (hpos : p ≠ 0)
    (hn : 0 < n) (hmagic : h.word (magicAt p) ≠ binMagic) : realloc p n h = .error .assertion := by
  have hpage : pageOf p = p := by
    rw [pageOf]
    omega
  have hfails : klrealloc p n { h with memLock := true } = .error .assertion := by
    rw [klrealloc, if_neg hpos, if_neg (by omega), load_bind, hpage]
    exact Exec.require_bind_of_not hmagic
  rw [realloc, Exec.bind_ok (spinLock_eq hlock), Exec.bind_error hfails]

private theorem apart_of_resizes (hV : L.Valid h) (hlock : h.memLock = false) (hlive : L.Live p c)
    (hn : 0 < n) (hres : L.Resizes h p c n) :
    (p % 4096 ≠ 0 ∧ (c < n → n < 4294963152 ∧ L.Serves h n)) ∨
      p % 4096 = 0 ∧ h.word (magicAt p) = binMagic := by
  obtain ⟨q, h', L', hrun, hV', _, ⟨d, hd, hq⟩, _⟩ := hres
  by_cases hp : p % 4096 = 0
  · right
    refine ⟨hp, ?_⟩
    by_contra hmagic
    have hpos := hV.shape.wf.live_pos hlive
    rw [realloc_page hlock hp (by omega) hn hmagic] at hrun
    cases hrun
  · left
    refine ⟨hp, fun hgrow => ?_⟩
    have hlt := hV'.shape.live_lt hq
    have hsize : n < 4294963152 := by omega
    refine ⟨hsize, ?_⟩
    have hspec := klmalloc_spec (hV.setLock true) (Nat.pos_iff_ne_zero.1 hn) hsize
    cases hmalloc : klmalloc n { h with memLock := true } with
    | error e =>
      rw [realloc_eq hV hlock hlive hn hp, if_neg (Nat.not_le.2 hgrow),
        Exec.bind_error (Exec.bind_error hmalloc)] at hrun
      cases hrun
    | ok r =>
      obtain ⟨q, h₁⟩ := r
      exact (hspec.ok hmalloc).1

end KernelTest.Memory
