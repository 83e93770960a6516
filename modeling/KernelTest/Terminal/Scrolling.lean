import Mathlib.Data.List.Basic
import KernelTest.Terminal.TextMode

/-!
# Scrolling the terminal

What a step notes stays noted, and every round of `scroll` that moves lines notes a copy of the line
below the screen.
-/

namespace KernelTest.Terminal

def Violates (t : Terminal) : Prop := ∃ a ∈ t.accesses, ¬ a.InBounds

variable {t t' : Terminal}

theorem Violates.mono (h : t.Violates) (hsub : t.accesses ⊆ t'.accesses) : t'.Violates := by
  obtain ⟨a, ha, hbad⟩ := h
  exact ⟨a, hsub ha, hbad⟩

section Noted

theorem drawCursor_subset (redraw : Bool) (bgcolor : UInt8) (t : Terminal) :
    t.accesses ⊆ (t.drawCursor redraw bgcolor).accesses := by
  rw [drawCursor]
  split
  · exact List.Subset.refl _
  · split <;> simp [textmodeChar]

theorem foldl_scrollCopyLine_subset (f : Nat → Int) (lines : List Nat) (t : Terminal) :
    t.accesses ⊆
      (lines.foldl (fun t (line : Nat) => t.scrollCopyLine line (f line)) t).accesses := by
  induction lines generalizing t with
  | nil => simp
  | cons line lines ih =>
    rw [List.foldl_cons]
    exact List.Subset.trans (by simp [scrollCopyLine]) (ih _)

theorem scrollRound_subset (direction : UInt8) (t : Terminal) :
    t.accesses ⊆ (t.scrollRound direction).2.accesses := by
  have hspill : t.accesses ⊆ (t.spillBuff direction).accesses := by simp [spillBuff]
  have hfill : ∀ t : Terminal, t.accesses ⊆ (t.fillBuff direction).accesses := by
    intro t
    simp [fillBuff]
  have hdown : ∀ t : Terminal, t.accesses ⊆ t.scrollDown.accesses := fun t =>
    foldl_scrollCopyLine_subset (fun line => line + 1) _ { t with scrollY := increment t.scrollY }
  have hup : ∀ t : Terminal, t.accesses ⊆ t.scrollUp.accesses := fun t =>
    foldl_scrollCopyLine_subset (fun line => line - 1) _ { t with scrollY := t.scrollY - 1 }
  rw [scrollRound]
  split
  · split
    · exact hspill
    · exact List.Subset.trans hspill (List.Subset.trans (hdown _) (hfill _))
  · split
    · exact List.Subset.refl _
    · exact List.Subset.trans hspill (List.Subset.trans (hup _) (hfill _))

theorem scrollRounds_subset (direction : UInt8) (n : Nat) (t : Terminal) :
    t.accesses ⊆ (t.scrollRounds direction n).2.accesses := by
  induction n generalizing t with
  | zero => exact List.Subset.refl _
  | succ n ih =>
    rw [scrollRounds]
    split
    · exact List.Subset.trans (scrollRound_subset direction t) (ih _)
    · exact scrollRound_subset direction t

theorem scroll_subset (direction : UInt8) (count : Int) (t : Terminal) :
    t.accesses ⊆ (t.scroll direction count).2.accesses := by
  rw [scroll]
  split
  · exact List.Subset.refl _
  · exact scrollRounds_subset direction _ t

theorem scrollWhile_subset {fuel : Nat} (h : t.scrollWhile fuel = some t') :
    t.accesses ⊆ t'.accesses := by
  induction fuel generalizing t with
  | zero => cases h
  | succ fuel ih =>
    rw [scrollWhile] at h
    split at h
    · exact List.Subset.trans (scroll_subset 1 1 t) (ih h)
    · cases h
      exact scroll_subset 1 1 t

theorem toBottom_subset (h : t.toBottom = some t') : t.accesses ⊆ t'.accesses := by
  rw [toBottom] at h
  split at h
  · exact scrollWhile_subset h
  · cases h
    exact List.Subset.refl _

theorem nextLine_subset (lastPos : Int) (t : Terminal) :
    t.accesses ⊆ (t.nextLine lastPos).accesses := by
  have hstore : t.accesses ⊆ (t.lastLineStore (t.scrollY + t.cursorY) lastPos).accesses := by
    simp [lastLineStore]
  rw [nextLine]
  split
  · intro a ha
    exact scroll_subset 1 1 _ (hstore ha)
  · exact hstore

theorem newLine_subset (chr : UInt8) (t : Terminal) : t.accesses ⊆ (t.newLine chr).accesses := by
  have h := List.Subset.trans (nextLine_subset t.cursorX t) (drawCursor_subset true colorDefault _)
  rw [newLine]
  split <;> exact h

theorem drawBlock_subset (color : UInt8) (t : Terminal) :
    t.accesses ⊆ (t.drawBlock color).accesses := by simp [drawBlock, textmodeChar]

theorem backspace_subset (color : UInt8) (t : Terminal) :
    t.accesses ⊆ (t.backspace color).accesses := by
  have hprevious : t.accesses ⊆
      (t.textmodeChar 32 t.cursorX t.cursorY color).previousLine.accesses := by
    simp [textmodeChar, previousLine]
  have hold : ∀ t : Terminal, t.accesses ⊆ t.scrollOld.accesses := by
    intro t
    rw [scrollOld]
    split
    · intro a ha
      exact scroll_subset 0 1 _ ha
    · exact List.Subset.refl _
  rw [backspace]
  split
  · apply List.Subset.trans _ (drawBlock_subset color _)
    rw [backspaceLine]
    split
    · split
      · exact List.Subset.trans hprevious (hold _)
      · exact hprevious
    · exact List.Subset.refl _
  · apply List.Subset.trans _ (drawBlock_subset color _)
    simp [backspaceChar, textmodeChar]

theorem putNormal_subset (chr color : UInt8) (t : Terminal) :
    t.accesses ⊆ (t.putNormal chr color).accesses := by
  have hchar : t.accesses ⊆ (t.textmodeChar chr t.cursorX t.cursorY color).accesses := by
    simp [textmodeChar]
  rw [putNormal]
  split
  · intro a ha
    exact drawCursor_subset _ _ _ (nextLine_subset t.cursorX _ (hchar ha))
  · intro a ha
    exact drawCursor_subset _ _ _ (hchar ha)

theorem putSpaces_subset {color : UInt8} {n : Nat} (h : t.putSpaces color n = some t') :
    t.accesses ⊆ t'.accesses := by
  induction n generalizing t with
  | zero =>
    cases h
    exact List.Subset.refl _
  | succ n ih =>
    rw [putSpaces] at h
    obtain ⟨t₁, hbottom, h⟩ := Option.bind_eq_some_iff.1 h
    have hput := List.Subset.trans (toBottom_subset hbottom) (putNormal_subset 32 color t₁)
    exact List.Subset.trans hput (ih h)

end Noted

def Draws (t t' : Terminal) : Prop :=
  ∃ vid buffer accesses,
    t' = { t with vid := vid, termBuffer := buffer, accesses := accesses }

theorem Draws.refl (t : Terminal) : t.Draws t := ⟨_, _, _, rfl⟩

theorem Draws.trans {t'' : Terminal} (h : t.Draws t') (h' : t'.Draws t'') : t.Draws t'' := by
  obtain ⟨vid, buffer, accesses, rfl⟩ := h
  obtain ⟨vid', buffer', accesses', rfl⟩ := h'
  exact ⟨vid', buffer', accesses', rfl⟩

theorem draws_textmodeChar (c : UInt8) (x y : Int) (color : UInt8) (t : Terminal) :
    t.Draws (t.textmodeChar c x y color) := ⟨_, _, _, rfl⟩

theorem draws_drawCursor (redraw : Bool) (bgcolor : UInt8) (t : Terminal) :
    t.Draws (t.drawCursor redraw bgcolor) := by
  rw [drawCursor]
  split
  · exact Draws.refl t
  · split
    · exact (draws_textmodeChar _ _ _ _ _).trans (draws_textmodeChar _ _ _ _ _)
    · exact draws_textmodeChar _ _ _ _ _

theorem draws_scrollDown (t : Terminal) :
    { t with scrollY := increment t.scrollY }.Draws t.scrollDown := by
  have hfold : ∀ (lines : List Nat) (t : Terminal), t.Draws
      (lines.foldl (fun t (line : Nat) => t.scrollCopyLine line (line + 1)) t) := by
    intro lines
    induction lines with
    | nil => exact Draws.refl
    | cons line lines ih =>
      intro t
      rw [List.foldl_cons]
      exact Draws.trans ⟨_, _, _, rfl⟩ (ih _)
  exact hfold _ _

section Down

theorem scrollDown_violates (t : Terminal) : t.scrollDown.Violates := by
  refine ⟨.video (160 * 25) 160, ?_, by simp [Access.InBounds]⟩
  rw [scrollDown, List.range_succ, List.foldl_append, List.foldl_cons, List.foldl_nil, scrollCopyLine]
  exact List.mem_append_right _ List.mem_cons_self

theorem scrollRound_violates {direction : UInt8} (hd : direction ≠ 0)
    (h : t.scrollY ≠ t.scrollYOrig) : (t.scrollRound direction).2.Violates := by
  have hspill : (t.spillBuff direction).scrollY ≠ (t.spillBuff direction).scrollYOrig := h
  rw [scrollRound, if_pos hd, if_neg hspill]
  apply (scrollDown_violates (t.spillBuff direction)).mono
  simp [fillBuff]

theorem scroll_violates (henabled : t.cursorEnabled = true) {direction : UInt8} (hd : direction ≠ 0)
    (h : t.scrollY ≠ t.scrollYOrig) {count : Int} (hcount : 0 < count) :
    (t.scroll direction count).2.Violates := by
  obtain ⟨n, hn⟩ : ∃ n, count.toNat = n + 1 := ⟨count.toNat - 1, by omega⟩
  have hround := scrollRound_violates hd h
  simp only [scroll, henabled, Bool.not_true, Bool.false_eq_true, if_false, hn, scrollRounds]
  split
  · exact hround.mono (scrollRounds_subset _ _ _)
  · exact hround

theorem scroll_still (henabled : t.cursorEnabled = true) {direction : UInt8} (hd : direction ≠ 0)
    (h : t.scrollY = t.scrollYOrig) {count : Int} (hcount : 0 < count) :
    t.scroll direction count = (false, t.spillBuff direction) := by
  obtain ⟨n, hn⟩ : ∃ n, count.toNat = n + 1 := ⟨count.toNat - 1, by omega⟩
  have hround : t.scrollRound direction = (false, t.spillBuff direction) := by
    rw [scrollRound, if_pos hd]
    exact if_pos h
  simp only [scroll, henabled, Bool.not_true, Bool.false_eq_true, if_false, hn, scrollRounds, hround]

theorem scroll_none {direction : UInt8} {count : Int} (hcount : count ≤ 0) :
    (t.scroll direction count).2 = t := by
  rw [scroll]
  split
  · rfl
  · rw [Int.toNat_eq_zero.2 hcount, scrollRounds]

theorem scroll_up (h : t.scrollY = 1) (count : Int) : (t.scroll 0 count).2 = t := by
  have hround : t.scrollRound 0 = (false, t) := by
    rw [scrollRound, if_neg (by simp), if_pos h]
  rw [scroll]
  split
  · rfl
  · cases count.toNat with
    | zero => rfl
    | succ n =>
      rw [scrollRounds, hround]
      rfl

theorem scroll_disabled (h : t.cursorEnabled = false) (direction : UInt8) (count : Int) :
    t.scroll direction count = (false, t) := by
  rw [scroll, h]
  rfl

theorem toBottom_still (h : t.scrollY = t.scrollYOrig) : t.toBottom = some t := by
  rw [toBottom, if_neg (not_not.2 h)]

theorem toBottom_disabled (h : t.cursorEnabled = false) : t.toBottom = some t := by
  rw [toBottom]
  split
  · rw [scrollBottom, scrollWhile, scroll_disabled h]
    rfl
  · rfl

theorem scrollBottom_violates (henabled : t.cursorEnabled = true)
    (h : t.scrollY ≠ t.scrollYOrig) (hrun : t.scrollBottom = some t') : t'.Violates := by
  have hscroll : (t.scroll 1 1).2.Violates :=
    scroll_violates henabled (by decide) h Int.one_pos
  rw [scrollBottom, scrollWhile] at hrun
  split at hrun
  · exact hscroll.mono (scrollWhile_subset hrun)
  · cases hrun
    exact hscroll

theorem toBottom_violates (henabled : t.cursorEnabled = true) (h : t.scrollY ≠ t.scrollYOrig)
    (hrun : t.toBottom = some t') : t'.Violates := by
  rw [toBottom, if_pos h] at hrun
  exact scrollBottom_violates henabled h hrun

end Down

end KernelTest.Terminal
