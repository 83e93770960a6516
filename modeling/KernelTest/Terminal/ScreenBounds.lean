import KernelTest.Terminal.Scrolling

/-!
# The accesses of a run of the terminal

As long as nothing scrolls, the cursor is on the screen, and the saved line ends that a backspace can
reach are columns of it. So the accesses of a run stay inside the memories exactly when nothing ever
scrolls.
-/

namespace KernelTest.Terminal

variable {t t' : Terminal}

/-- The lines of a screen that has not been scrolled, up to the column of the cursor. -/
structure Lines (t : Terminal) : Prop where
  scrollY : t.scrollY = 1
  y : 0 ≤ t.cursorY ∧ t.cursorY < 25
  lastchar : ∀ i, 1 ≤ i → i ≤ 24 → 0 ≤ t.lineLastchar i ∧ t.lineLastchar i < 80
  accesses : ∀ a ∈ t.accesses, a.InBounds

structure OnScreen (t : Terminal) : Prop extends Lines t where
  x : 0 ≤ t.cursorX ∧ t.cursorX < 80

section Steps

theorem Lines.textmodeChar (h : Lines t) (c : UInt8) {x y : Int} (hx : 0 ≤ x ∧ x < 80)
    (hy : 0 ≤ y ∧ y < 25) (color : UInt8) : Lines (t.textmodeChar c x y color) := by
  constructor
  · exact h.scrollY
  · exact h.y
  · exact h.lastchar
  · intro a ha
    simp only [Terminal.textmodeChar, List.mem_append, List.mem_singleton] at ha
    cases ha with
    | inl hold => exact h.accesses a hold
    | inr hnew =>
      rw [hnew, Access.InBounds]
      omega

theorem Lines.drawCursor (h : Lines t) {redraw : Bool} (hx : 0 ≤ t.cursorX ∧ t.cursorX < 80)
    (hy : redraw = true → t.cursorEnabled = true → 1 ≤ t.cursorY) (bgcolor : UInt8) :
    Lines (t.drawCursor redraw bgcolor) := by
  have hyt := h.y
  rw [Terminal.drawCursor]
  split
  · exact h
  · next henabled =>
    split
    · next hredraw =>
      have hone : 1 ≤ t.cursorY := hy hredraw (by simpa using henabled)
      exact (h.textmodeChar 32 hx (by omega) _).textmodeChar 219 (by omega) hyt _
    · exact h.textmodeChar 219 hx hyt _

theorem Lines.lastLineStore (h : Lines t) {line lastPos : Int} (hline : 0 ≤ line ∧ line < 250)
    (hpos : 0 ≤ lastPos ∧ lastPos < 80) : Lines (t.lastLineStore line lastPos) := by
  constructor
  · exact h.scrollY
  · exact h.y
  · intro i hi hi'
    simp only [Terminal.lastLineStore, Function.update_apply]
    split
    · exact hpos
    · exact h.lastchar i hi hi'
  · intro a ha
    simp only [Terminal.lastLineStore, List.mem_append, List.mem_singleton] at ha
    cases ha with
    | inl hold => exact h.accesses a hold
    | inr hnew =>
      rw [hnew, Access.InBounds]
      omega

theorem Lines.nextLine (h : Lines t) {lastPos : Int} (hpos : 0 ≤ lastPos ∧ lastPos < 80)
    (hroom : t.cursorY < 24 ∨ t.cursorEnabled = false) :
    Lines (t.nextLine lastPos) ∧ (t.nextLine lastPos).cursorX = t.cursorX ∧
      (t.nextLine lastPos).cursorEnabled = t.cursorEnabled ∧
      (t.cursorY < 24 → (t.nextLine lastPos).cursorY = t.cursorY + 1 ∧
        (t.nextLine lastPos).scrollYOrig = t.scrollYOrig) := by
  have hy := h.y
  have hline : 0 ≤ t.scrollY + t.cursorY ∧ t.scrollY + t.cursorY < 250 := by
    rw [h.scrollY]
    omega
  have hstore := h.lastLineStore hline hpos
  by_cases hlast : t.cursorY + 1 ≥ 25
  · have hdisabled : t.cursorEnabled = false := by
      cases hroom with
      | inl hlt => omega
      | inr hdisabled => exact hdisabled
    have hnext : t.nextLine lastPos = { t.lastLineStore (t.scrollY + t.cursorY) lastPos with
        scrollYOrig := increment t.scrollYOrig } := by
      rw [Terminal.nextLine, if_pos hlast, scrollNew, scroll_disabled (by exact hdisabled)]
      rfl
    rw [hnext]
    refine ⟨⟨hstore.scrollY, hstore.y, hstore.lastchar, hstore.accesses⟩, rfl, rfl, ?_⟩
    intro hlt
    omega
  · rw [Terminal.nextLine, if_neg hlast]
    have hy' : 0 ≤ t.cursorY + 1 ∧ t.cursorY + 1 < 25 := by omega
    exact ⟨⟨hstore.scrollY, hy', hstore.lastchar, hstore.accesses⟩, rfl, rfl, fun _ => ⟨rfl, rfl⟩⟩

theorem nextLine_violates (henabled : t.cursorEnabled = true) (hscroll : t.scrollY = 1)
    (horig : t.scrollYOrig = 1) (hy : 24 ≤ t.cursorY) (lastPos : Int) :
    (t.nextLine lastPos).Violates := by
  have hlast : t.cursorY + 1 ≥ 25 := by omega
  rw [Terminal.nextLine, if_pos hlast, scrollNew]
  refine scroll_violates ?_ (by decide) ?_ Int.one_pos
  · exact henabled
  · change t.scrollY ≠ increment t.scrollYOrig
    rw [hscroll, horig]
    decide

theorem OnScreen.drawCursor (h : OnScreen t) {redraw : Bool}
    (hy : redraw = true → t.cursorEnabled = true → 1 ≤ t.cursorY) (bgcolor : UInt8) :
    OnScreen (t.drawCursor redraw bgcolor) := by
  have hlines := h.toLines.drawCursor h.x hy bgcolor
  obtain ⟨vid, buffer, accesses, hdraw⟩ := draws_drawCursor redraw bgcolor t
  exact ⟨hlines, by rw [hdraw]; exact h.x⟩

theorem OnScreen.newLine (h : OnScreen t) (chr : UInt8)
    (hroom : t.cursorY < 24 ∨ t.cursorEnabled = false) :
    OnScreen (t.newLine chr) ∧ (t.newLine chr).cursorEnabled = t.cursorEnabled := by
  obtain ⟨hlines, hx, henabled, hmoved⟩ := h.toLines.nextLine h.x hroom
  have hy := h.y
  have hone : true = true → (t.nextLine t.cursorX).cursorEnabled = true →
      1 ≤ (t.nextLine t.cursorX).cursorY := by
    intro _ hen
    rw [henabled] at hen
    cases hroom with
    | inl hlt =>
      rw [(hmoved hlt).1]
      omega
    | inr hdisabled =>
      rw [hdisabled] at hen
      cases hen
  have hscreen : OnScreen (t.nextLine t.cursorX) := ⟨hlines, by rw [hx]; exact h.x⟩
  have hdrawn := hscreen.drawCursor hone colorDefault
  obtain ⟨vid, buffer, accesses, hdraw⟩ :=
    draws_drawCursor true colorDefault (t.nextLine t.cursorX)
  have henabled' : ((t.nextLine t.cursorX).drawCursor true colorDefault).cursorEnabled =
      t.cursorEnabled := by
    rw [hdraw]
    exact henabled
  rw [Terminal.newLine]
  split
  · exact ⟨⟨⟨hdrawn.scrollY, hdrawn.y, hdrawn.lastchar, hdrawn.accesses⟩, by simp⟩, henabled'⟩
  · exact ⟨hdrawn, henabled'⟩

theorem newLine_violates (henabled : t.cursorEnabled = true) (hscroll : t.scrollY = 1)
    (horig : t.scrollYOrig = 1) (hy : 24 ≤ t.cursorY) (chr : UInt8) :
    (t.newLine chr).Violates := by
  have hdrawn := (nextLine_violates henabled hscroll horig hy t.cursorX).mono
    (drawCursor_subset true colorDefault _)
  rw [Terminal.newLine]
  split <;> exact hdrawn

theorem OnScreen.putNormal (h : OnScreen t) (chr color : UInt8)
    (hroom : t.cursorX < 79 ∨ t.cursorY < 24 ∨ t.cursorEnabled = false) :
    OnScreen (t.putNormal chr color) ∧ (t.putNormal chr color).cursorEnabled = t.cursorEnabled ∧
      (t.cursorX < 79 ∨ t.cursorY < 24 → (t.putNormal chr color).scrollYOrig = t.scrollYOrig ∧
        80 * (t.putNormal chr color).cursorY + (t.putNormal chr color).cursorX =
          80 * t.cursorY + t.cursorX + 1) := by
  have hx := h.x
  have hchar : Lines (t.textmodeChar chr t.cursorX t.cursorY color) :=
    h.toLines.textmodeChar chr h.x h.y color
  by_cases hwrap : t.cursorX + 1 ≥ 80
  · have hroom' : t.cursorY < 24 ∨ t.cursorEnabled = false := by
      rcases hroom with hlt | hroom
      · omega
      · exact hroom
    obtain ⟨hlines, -, henabled, hmoved⟩ := hchar.nextLine h.x hroom'
    have hscreen : OnScreen { (t.textmodeChar chr t.cursorX t.cursorY color).nextLine t.cursorX with
        cursorX := 0 } :=
      ⟨⟨hlines.scrollY, hlines.y, hlines.lastchar, hlines.accesses⟩, by simp⟩
    rw [Terminal.putNormal, if_pos hwrap]
    obtain ⟨vid, buffer, accesses, hdraw⟩ := draws_drawCursor false colorDefault
      { (t.textmodeChar chr t.cursorX t.cursorY color).nextLine t.cursorX with cursorX := 0 }
    refine ⟨hscreen.drawCursor (fun hfalse => absurd hfalse (by decide)) _, ?_, ?_⟩
    · rw [hdraw]
      exact henabled
    · intro hlt
      have hy : t.cursorY < 24 := by omega
      obtain ⟨hdown, horig⟩ := hmoved hy
      have hdown' : ((t.textmodeChar chr t.cursorX t.cursorY color).nextLine t.cursorX).cursorY =
        t.cursorY + 1 := hdown
      rw [hdraw]
      refine ⟨horig, ?_⟩
      dsimp only
      rw [hdown']
      omega
  · have hscreen : OnScreen { t.textmodeChar chr t.cursorX t.cursorY color with
        cursorX := t.cursorX + 1 } :=
      ⟨⟨hchar.scrollY, hchar.y, hchar.lastchar, hchar.accesses⟩, by dsimp only; omega⟩
    rw [Terminal.putNormal, if_neg hwrap]
    obtain ⟨vid, buffer, accesses, hdraw⟩ := draws_drawCursor false colorDefault
      { t.textmodeChar chr t.cursorX t.cursorY color with cursorX := t.cursorX + 1 }
    refine ⟨hscreen.drawCursor (fun hfalse => absurd hfalse (by decide)) _, ?_, ?_⟩
    · rw [hdraw]
      rfl
    · intro _
      rw [hdraw]
      refine ⟨rfl, ?_⟩
      change 80 * t.cursorY + (t.cursorX + 1) = _
      omega

theorem putNormal_violates (henabled : t.cursorEnabled = true) (hscroll : t.scrollY = 1)
    (horig : t.scrollYOrig = 1) (hx : 79 ≤ t.cursorX) (hy : 24 ≤ t.cursorY) (chr color : UInt8) :
    (t.putNormal chr color).Violates := by
  have hwrap : t.cursorX + 1 ≥ 80 := by omega
  have hnext := @nextLine_violates (t.textmodeChar chr t.cursorX t.cursorY color) henabled hscroll
    horig hy t.cursorX
  generalize hn : (t.textmodeChar chr t.cursorX t.cursorY color).nextLine t.cursorX = u at hnext
  have hdraw := drawCursor_subset false colorDefault { u with cursorX := 0 }
  rw [Terminal.putNormal, if_pos hwrap, hn]
  obtain ⟨a, ha, hbad⟩ := hnext
  exact ⟨a, hdraw ha, hbad⟩

theorem OnScreen.putSpaces (h : OnScreen t) (color : UInt8) {n : Nat}
    (hroom : t.cursorEnabled = false ∨
      t.scrollYOrig = 1 ∧ 80 * t.cursorY + t.cursorX + n < 80 * 25) :
    ∃ t', t.putSpaces color n = some t' ∧ OnScreen t' ∧ t'.cursorEnabled = t.cursorEnabled := by
  induction n generalizing t with
  | zero => exact ⟨t, rfl, h, rfl⟩
  | succ n ih =>
    have hx := h.x
    have hbottom : t.toBottom = some t := by
      cases hroom with
      | inl hdisabled => exact toBottom_disabled hdisabled
      | inr hroom => exact toBottom_still (h.scrollY.trans hroom.1.symm)
    have hput : t.cursorX < 79 ∨ t.cursorY < 24 ∨ t.cursorEnabled = false := by
      cases hroom with
      | inl hdisabled => exact Or.inr (Or.inr hdisabled)
      | inr hroom => omega
    obtain ⟨h₁, henabled, hmoved⟩ := h.putNormal 32 color hput
    have hroom₁ : (t.putNormal 32 color).cursorEnabled = false ∨
        (t.putNormal 32 color).scrollYOrig = 1 ∧ 80 * (t.putNormal 32 color).cursorY +
          (t.putNormal 32 color).cursorX + n < 80 * 25 := by
      cases hroom with
      | inl hdisabled => exact Or.inl (henabled.trans hdisabled)
      | inr hroom =>
        obtain ⟨horig, hpos⟩ := hmoved (by omega)
        right
        constructor
        · exact horig.trans hroom.1
        · omega
    obtain ⟨t', hrun, h', henabled'⟩ := ih h₁ hroom₁
    refine ⟨t', ?_, h', henabled'.trans henabled⟩
    rw [Terminal.putSpaces, hbottom]
    exact hrun

theorem putSpaces_violates (h : OnScreen t) (henabled : t.cursorEnabled = true)
    (horig : t.scrollYOrig = 1) {color : UInt8} {n : Nat}
    (hfull : 80 * 25 ≤ 80 * t.cursorY + t.cursorX + n) (hrun : t.putSpaces color n = some t') :
    t'.Violates := by
  induction n generalizing t with
  | zero =>
    have hx := h.x
    have hy := h.y
    omega
  | succ n ih =>
    have hx := h.x
    have hy := h.y
    rw [Terminal.putSpaces, toBottom_still (h.scrollY.trans horig.symm)] at hrun
    have hrun : (t.putNormal 32 color).putSpaces color n = some t' := hrun
    by_cases hroom : t.cursorX < 79 ∨ t.cursorY < 24
    · obtain ⟨h₁, henabled₁, hmoved⟩ := h.putNormal 32 color (by tauto)
      obtain ⟨horig₁, hpos⟩ := hmoved hroom
      apply ih h₁ (henabled₁.trans henabled) (horig₁.trans horig) _ hrun
      omega
    · apply (putNormal_violates henabled h.scrollY horig _ _ 32 color).mono (putSpaces_subset hrun)
      · omega
      · omega

theorem OnScreen.backspace (h : OnScreen t) (color : UInt8)
    (hroom : t.cursorEnabled = false ∨ t.scrollYOrig = 1) :
    OnScreen (t.backspace color) ∧ (t.backspace color).cursorEnabled = t.cursorEnabled := by
  have hx := h.x
  have hy := h.y
  have hblock : ∀ u : Terminal, OnScreen u → OnScreen (u.drawBlock color) := fun u hu =>
    ⟨hu.toLines.textmodeChar 219 hu.x hu.y color, hu.x⟩
  have hchar := h.toLines.textmodeChar 32 h.x h.y color
  rw [Terminal.backspace]
  split
  · rw [backspaceLine]
    split
    · next hline =>
      rw [h.scrollY] at hline
      have hend := h.lastchar t.cursorY (by omega) (by omega)
      have hat : t.scrollY + (t.cursorY - 1) = t.cursorY := by
        rw [h.scrollY]
        omega
      have hprevious : Lines { (t.textmodeChar 32 t.cursorX t.cursorY color).previousLine with
          cursorY := 0 } ∧ ∀ a ∈ (t.textmodeChar 32 t.cursorX t.cursorY color).previousLine.accesses,
            a.InBounds := by
        have haccess : ∀ a ∈ (t.textmodeChar 32 t.cursorX t.cursorY color).previousLine.accesses,
            a.InBounds := by
          intro a ha
          cases List.mem_append.1 ha with
          | inl hold => exact hchar.accesses a hold
          | inr hnew =>
            rw [List.mem_singleton.1 hnew]
            change 0 ≤ t.scrollY + (t.cursorY - 1) ∧ t.scrollY + (t.cursorY - 1) < 25 * 10
            omega
        exact ⟨⟨hchar.scrollY, by simp, hchar.lastchar, haccess⟩, haccess⟩
      have hcolumn : 0 ≤ (t.textmodeChar 32 t.cursorX t.cursorY color).previousLine.cursorX ∧
          (t.textmodeChar 32 t.cursorX t.cursorY color).previousLine.cursorX < 80 := by
        change 0 ≤ t.lineLastchar (t.scrollY + (t.cursorY - 1)) ∧
          t.lineLastchar (t.scrollY + (t.cursorY - 1)) < 80
        rw [hat]
        exact hend
      generalize hu : (t.textmodeChar 32 t.cursorX t.cursorY color).previousLine = u
        at hprevious hcolumn ⊢
      have hu_enabled : u.cursorEnabled = t.cursorEnabled := by rw [← hu]; rfl
      have hu_orig : u.scrollYOrig = t.scrollYOrig := by rw [← hu]; rfl
      have hu_y : u.cursorY = t.cursorY - 1 := by rw [← hu]; rfl
      have hu_scroll : u.scrollY = 1 := hprevious.1.scrollY
      split
      · rw [scrollOld]
        split
        · next horig =>
          have hdisabled : u.cursorEnabled = false := by
            cases hroom with
            | inl hdisabled => exact hu_enabled.trans hdisabled
            | inr hone =>
              rw [hu_orig, hone] at horig
              exact absurd horig (by decide)
          rw [scroll_disabled (by exact hdisabled)]
          constructor
          · apply hblock
            exact ⟨⟨hu_scroll, by simp, hprevious.1.lastchar, hprevious.2⟩, hcolumn⟩
          · exact hu_enabled
        · constructor
          · apply hblock
            exact ⟨hprevious.1, hcolumn⟩
          · exact hu_enabled
      · constructor
        · apply hblock
          exact ⟨⟨hu_scroll, by omega, hprevious.1.lastchar, hprevious.2⟩, hcolumn⟩
        · exact hu_enabled
    · exact ⟨hblock t h, rfl⟩
  · next hinside =>
    have hmoved : Lines { t with cursorX := t.cursorX - 1 } :=
      ⟨h.scrollY, h.y, h.lastchar, h.accesses⟩
    constructor
    · apply hblock
      constructor
      · exact hmoved.textmodeChar 32 (by omega) h.y color
      · change 0 ≤ t.cursorX - 1 ∧ t.cursorX - 1 < 80
        omega
    · rfl

end Steps

section Init

theorem draws_scroll_one (henabled : t.cursorEnabled = true) (h : t.scrollY ≠ t.scrollYOrig) :
    { t with scrollY := increment t.scrollY }.Draws (t.scroll 1 1).2 := by
  have hspill : (t.spillBuff 1).scrollY ≠ (t.spillBuff 1).scrollYOrig := h
  have hround : t.scrollRound 1 = (true, (t.spillBuff 1).scrollDown.fillBuff 1) := by
    rw [scrollRound, if_pos (by decide), if_neg hspill]
  have hscroll : (t.scroll 1 1).2 = (t.spillBuff 1).scrollDown.fillBuff 1 := by
    simp only [scroll, henabled, Bool.not_true, Bool.false_eq_true, if_false, Int.toNat_one,
      scrollRounds, hround, if_true]
  have hdown := draws_scrollDown (t.spillBuff 1)
  rw [hscroll]
  exact Draws.trans (Draws.trans ⟨_, _, _, rfl⟩ hdown) ⟨_, _, _, rfl⟩

structure Clearing (k : Nat) (t : Terminal) : Prop where
  place : 80 * t.cursorY + t.cursorX = k
  x : 0 ≤ t.cursorX ∧ t.cursorX < 80
  scrollY : t.scrollY = 0
  orig : t.scrollYOrig = 0
  enabled : t.cursorEnabled = true
  lastchar : ∀ i, 0 ≤ i → i < t.cursorY → t.lineLastchar i = 79

structure Cleared (t : Terminal) : Prop where
  scrollY : t.scrollY = 1
  orig : t.scrollYOrig = 1
  enabled : t.cursorEnabled = true
  lastchar : ∀ i, 0 ≤ i → i < 25 → t.lineLastchar i = 79

theorem Clearing.putc {k : Nat} (h : Clearing k t) :
    t.putcTextmode 32 0 = some (t.putNormal 32 0) := by
  rw [putcTextmode_space, Terminal.putSpaces, toBottom_still (h.scrollY.trans h.orig.symm)]
  rfl

theorem Clearing.next {k : Nat} (h : Clearing k t) (hk : k + 1 < 80 * 25) :
    Clearing (k + 1) (t.putNormal 32 0) := by
  have hx := h.x
  have hplace := h.place
  rw [Terminal.putNormal]
  split
  · next hwrap =>
    have hnext : ((t.textmodeChar 32 t.cursorX t.cursorY 0).nextLine t.cursorX) =
        { (t.textmodeChar 32 t.cursorX t.cursorY 0).lastLineStore (t.scrollY + t.cursorY)
            t.cursorX with cursorY := t.cursorY + 1 } := by
      rw [Terminal.nextLine]
      exact if_neg (by change ¬ t.cursorY + 1 ≥ 25; omega)
    obtain ⟨vid, buffer, accesses, hdraw⟩ := draws_drawCursor false colorDefault
      { (t.textmodeChar 32 t.cursorX t.cursorY 0).nextLine t.cursorX with cursorX := 0 }
    rw [hdraw, hnext]
    constructor
    · change 80 * (t.cursorY + 1) + 0 = ((k + 1 : Nat) : Int)
      omega
    · simp
    · exact h.scrollY
    · exact h.orig
    · exact h.enabled
    · intro i hi hi'
      change i < t.cursorY + 1 at hi'
      change Function.update t.lineLastchar (t.scrollY + t.cursorY) t.cursorX i = 79
      rw [h.scrollY, Function.update_apply]
      split
      · omega
      · exact h.lastchar i hi (by omega)
  · obtain ⟨vid, buffer, accesses, hdraw⟩ := draws_drawCursor false colorDefault
      { t.textmodeChar 32 t.cursorX t.cursorY 0 with cursorX := t.cursorX + 1 }
    rw [hdraw]
    constructor
    · change 80 * t.cursorY + (t.cursorX + 1) = ((k + 1 : Nat) : Int)
      omega
    · change 0 ≤ t.cursorX + 1 ∧ t.cursorX + 1 < 80
      omega
    · exact h.scrollY
    · exact h.orig
    · exact h.enabled
    · exact h.lastchar

theorem Clearing.last {k : Nat} (h : Clearing k t) (hk : k + 1 = 80 * 25) :
    Cleared (t.putNormal 32 0) := by
  have hx := h.x
  have hplace := h.place
  have hy : t.cursorY = 24 := by omega
  have hcolumn : t.cursorX = 79 := by omega
  have hwrap : t.cursorX + 1 ≥ 80 := by omega
  have hbottom : (t.textmodeChar 32 t.cursorX t.cursorY 0).cursorY + 1 ≥ 25 := by
    change t.cursorY + 1 ≥ 25
    omega
  rw [Terminal.putNormal, if_pos hwrap]
  obtain ⟨vid, buffer, accesses, hdraw⟩ := draws_drawCursor false colorDefault
    { (t.textmodeChar 32 t.cursorX t.cursorY 0).nextLine t.cursorX with cursorX := 0 }
  rw [hdraw, Terminal.nextLine, if_pos hbottom, scrollNew]
  generalize hu : ({ (t.textmodeChar 32 t.cursorX t.cursorY 0).lastLineStore
      ((t.textmodeChar 32 t.cursorX t.cursorY 0).scrollY +
        (t.textmodeChar 32 t.cursorX t.cursorY 0).cursorY) t.cursorX with
      scrollYOrig := increment ((t.textmodeChar 32 t.cursorX t.cursorY 0).lastLineStore
        ((t.textmodeChar 32 t.cursorX t.cursorY 0).scrollY +
          (t.textmodeChar 32 t.cursorX t.cursorY 0).cursorY) t.cursorX).scrollYOrig } : Terminal) = u
  have hscroll : u.scrollY = 0 := by rw [← hu]; exact h.scrollY
  have horig : u.scrollYOrig = 1 := by
    rw [← hu]
    change increment t.scrollYOrig = 1
    rw [h.orig]
    decide
  have henabled : u.cursorEnabled = true := by rw [← hu]; exact h.enabled
  have hlastchar : ∀ i, 0 ≤ i → i < 25 → u.lineLastchar i = 79 := by
    intro i hi hi'
    rw [← hu]
    change Function.update t.lineLastchar (t.scrollY + t.cursorY) t.cursorX i = 79
    rw [h.scrollY, Function.update_apply]
    split
    · exact hcolumn
    · exact h.lastchar i hi (by omega)
  have hmoves : u.scrollY ≠ u.scrollYOrig := by
    rw [hscroll, horig]
    decide
  obtain ⟨vid', buffer', accesses', hone⟩ := draws_scroll_one henabled hmoves
  rw [hone]
  constructor
  · change increment u.scrollY = 1
    rw [hscroll]
    decide
  · exact horig
  · exact henabled
  · exact hlastchar

theorem clearLoop_clearing (h : Clearing 0 t) {n : Nat} (hn : n < 80 * 25) :
    ∃ t', t.clearLoop n = some t' ∧ Clearing n t' := by
  induction n with
  | zero => exact ⟨t, rfl, h⟩
  | succ n ih =>
    obtain ⟨t', hrun, h'⟩ := ih (Nat.lt_of_succ_lt hn)
    refine ⟨t'.putNormal 32 0, ?_, h'.next hn⟩
    rw [clearLoop, hrun]
    exact h'.putc

theorem clear_cleared (hzero : Clearing 0 { t with cursorX := 0, cursorY := 0 }) :
    ∃ t', t.clear = some t' ∧ Cleared t' ∧ t'.cursorX = 0 ∧ t'.cursorY = 0 := by
  obtain ⟨u, hrun, h⟩ := clearLoop_clearing hzero (show 80 * 25 - 1 < 80 * 25 by decide)
  have hlast := h.last rfl
  have hloop : clearLoop (80 * 25) { t with cursorX := 0, cursorY := 0 } =
      some (u.putNormal 32 0) := by
    have hsucc : 80 * 25 = 80 * 25 - 1 + 1 := by decide
    rw [hsucc, clearLoop, hrun]
    exact h.putc
  refine ⟨{ u.putNormal 32 0 with cursorX := 0, cursorY := 0 }, ?_, ?_, rfl, rfl⟩
  · rw [clear, hloop]
    rfl
  · exact ⟨hlast.scrollY, hlast.orig, hlast.enabled, hlast.lastchar⟩

theorem init_cleared (vid heap : Int → UInt8) (lastchar : Int → Int) :
    ∃ t, init vid heap lastchar = some t ∧ Cleared t ∧ t.cursorX = 0 ∧ t.cursorY = 0 := by
  apply clear_cleared
  constructor
  · simp
  · simp
  · rfl
  · rfl
  · rfl
  · intro i hi hi'
    change i < 0 at hi'
    omega

end Init

/-- The character leaves the cursor on the screen. -/
def Room (t : Terminal) (chr : UInt8) : Prop :=
  if chr = 10 ∨ chr = 13 then t.cursorY < 24
  else if chr = 8 then True
  else if chr = 9 then t.cursorY < 24 ∨ t.cursorX < 76
  else t.cursorY < 24 ∨ t.cursorX < 79

def Fits (t : Terminal) : Call → Prop
  | .putc chr _ => t.scrollY = t.scrollYOrig ∧ t.Room chr
  | .scroll direction count => direction = 0 ∨ count ≤ 0 ∨ t.scrollY = t.scrollYOrig
  | .scrollBottom => t.scrollY = t.scrollYOrig
  | .scrollTop => True
  | .putcAt _ _ _ _ => True

def RunFits : Terminal → List Call → Prop
  | _, [] => True
  | t, call :: calls => t.Fits call ∧ ∀ t', t.step call = some t' → RunFits t' calls

def CursorOnScreen (t : Terminal) : Prop :=
  (0 ≤ t.cursorX ∧ t.cursorX < 80) ∧ 0 ≤ t.cursorY ∧ t.cursorY < 25

/-- Every call of the run returns, its accesses are inside the memories, and the cursor is on the
screen between the calls. -/
def RunSafe : Terminal → List Call → Prop
  | t, [] => t.CursorOnScreen
  | t, call :: calls => t.CursorOnScreen ∧ ∃ t', t.step call = some t' ∧
      (∀ a ∈ t'.accesses, a.InBounds) ∧ RunSafe t' calls

structure Settled (t : Terminal) : Prop extends OnScreen t where
  enabled : t.cursorEnabled = true

section Runs

theorem Settled.putc (h : Settled t) (chr color : UInt8) (hstill : t.scrollY = t.scrollYOrig)
    (hroom : t.Room chr) : ∃ t', t.putcTextmode chr color = some t' ∧ Settled t' := by
  have horig : t.scrollYOrig = 1 := by rw [← hstill, h.scrollY]
  have hx := h.x
  rw [putcTextmode, toBottom_still hstill]
  simp only [Room] at hroom
  by_cases hnew : chr = 10 ∨ chr = 13
  · rw [if_pos hnew] at hroom
    obtain ⟨h', henabled⟩ := h.toOnScreen.newLine chr (Or.inl hroom)
    exact ⟨_, if_pos hnew, h', henabled.trans h.enabled⟩
  · rw [if_neg hnew] at hroom
    by_cases hback : chr = 8
    · obtain ⟨h', henabled⟩ := h.toOnScreen.backspace color (Or.inr horig)
      refine ⟨_, ?_, h', henabled.trans h.enabled⟩
      simp [hback]
    · rw [if_neg hback] at hroom
      by_cases htab : chr = 9
      · rw [if_pos htab] at hroom
        have hfree : 80 * t.cursorY + t.cursorX + (4 : Nat) < 80 * 25 := by
          have hy := h.y
          omega
        obtain ⟨t', hrun, h', henabled⟩ := h.toOnScreen.putSpaces color (Or.inr ⟨horig, hfree⟩)
        refine ⟨t', ?_, h', henabled.trans h.enabled⟩
        rw [← hrun]
        simp [htab]
      · rw [if_neg htab] at hroom
        obtain ⟨h', henabled, -⟩ := h.toOnScreen.putNormal chr color (by tauto)
        refine ⟨_, ?_, h', henabled.trans h.enabled⟩
        simp [hnew, hback, htab]

theorem putc_violates (h : Settled t) {chr color : UInt8}
    (hfits : ¬ (t.scrollY = t.scrollYOrig ∧ t.Room chr))
    (hrun : t.putcTextmode chr color = some t') : t'.Violates := by
  rw [putcTextmode] at hrun
  obtain ⟨u, hbottom, hrun⟩ := Option.bind_eq_some_iff.1 hrun
  by_cases hstill : t.scrollY = t.scrollYOrig
  · rw [toBottom_still hstill] at hbottom
    cases hbottom
    have hroom : ¬ t.Room chr := fun hroom => hfits ⟨hstill, hroom⟩
    have horig : t.scrollYOrig = 1 := by rw [← hstill, h.scrollY]
    have hx := h.x
    have hy := h.y
    simp only [Room] at hroom
    by_cases hnew : chr = 10 ∨ chr = 13
    · rw [if_pos hnew] at hroom hrun
      cases hrun
      exact newLine_violates h.enabled h.scrollY horig (by omega) chr
    · rw [if_neg hnew] at hroom hrun
      by_cases hback : chr = 8
      · rw [if_pos hback] at hroom
        exact absurd trivial hroom
      · rw [if_neg hback] at hroom hrun
        by_cases htab : chr = 9
        · rw [if_pos htab] at hroom hrun
          apply putSpaces_violates h.toOnScreen h.enabled horig _ hrun
          omega
        · rw [if_neg htab] at hroom hrun
          cases hrun
          exact putNormal_violates h.enabled h.scrollY horig (by omega) (by omega) chr color
  · have hbad := toBottom_violates h.enabled hstill hbottom
    split at hrun
    · cases hrun
      exact hbad.mono (newLine_subset chr u)
    · split at hrun
      · cases hrun
        exact hbad.mono (backspace_subset color u)
      · split at hrun
        · exact hbad.mono (putSpaces_subset hrun)
        · cases hrun
          exact hbad.mono (putNormal_subset chr color u)

theorem Settled.putcAt (h : Settled t) (x : Fin 80) (y : Fin 25) (chr color : UInt8) :
    ∃ t', t.putcAt x.val y.val chr color = some t' ∧ Settled t' := by
  have hx := x.isLt
  have hy := y.isLt
  have hat : OnScreen { t with cursorX := x.val, cursorY := y.val, cursorEnabled := false } := by
    constructor
    · exact ⟨h.scrollY, by dsimp only; omega, h.lastchar, h.accesses⟩
    · dsimp only
      omega
  have hput : ∃ u, ({ t with cursorX := x.val, cursorY := y.val, cursorEnabled := false } :
      Terminal).putcTextmode chr color = some u ∧ OnScreen u := by
    rw [putcTextmode, toBottom_disabled rfl]
    by_cases hnew : chr = 10 ∨ chr = 13
    · exact ⟨_, if_pos hnew, (hat.newLine chr (Or.inr rfl)).1⟩
    · by_cases hback : chr = 8
      · exact ⟨_, by simp [hback], (hat.backspace color (Or.inl rfl)).1⟩
      · by_cases htab : chr = 9
        · obtain ⟨u, hrun, hu, -⟩ := @OnScreen.putSpaces _ hat color 4 (Or.inl rfl)
          refine ⟨u, ?_, hu⟩
          rw [← hrun]
          simp [htab]
        · exact ⟨_, by simp [hnew, hback, htab], (hat.putNormal chr color (Or.inr (Or.inr rfl))).1⟩
  obtain ⟨u, hrun, hu⟩ := hput
  refine ⟨{ u with cursorX := t.cursorX, cursorY := t.cursorY, cursorEnabled := true }, ?_, ?_⟩
  · rw [Terminal.putcAt, hrun]
    rfl
  · exact ⟨⟨⟨hu.scrollY, h.y, hu.lastchar, hu.accesses⟩, h.x⟩, rfl⟩

theorem Settled.spill (h : Settled t) (direction : UInt8) (hd : direction ≠ 0) :
    Settled (t.spillBuff direction) := by
  refine ⟨⟨⟨h.scrollY, h.y, h.lastchar, ?_⟩, h.x⟩, h.enabled⟩
  intro a ha
  simp only [spillBuff, hd, h.scrollY, ne_eq, not_false_eq_true, if_true, List.mem_append,
    List.mem_cons, List.not_mem_nil, or_false] at ha
  rcases ha with hold | hvideo | hbuffer
  · exact h.accesses a hold
  · rw [hvideo]
    simp [Access.InBounds]
  · rw [hbuffer]
    simp [Access.InBounds]

theorem Settled.step (h : Settled t) (call : Call) :
    (t.Fits call ∧ ∃ t', t.step call = some t' ∧ Settled t') ∨
    (¬ t.Fits call ∧ ∀ t', t.step call = some t' → t'.Violates) := by
  have hclean : Settled { t with accesses := [] } :=
    ⟨⟨⟨h.scrollY, h.y, h.lastchar, by simp⟩, h.x⟩, h.enabled⟩
  by_cases hfits : t.Fits call
  · left
    refine ⟨hfits, ?_⟩
    cases call with
    | putc chr color => exact hclean.putc chr _ hfits.1 hfits.2
    | scroll direction count =>
      refine ⟨_, rfl, ?_⟩
      by_cases hd : direction = 0
      · rw [hd, scroll_up (by exact h.scrollY)]
        exact hclean
      · by_cases hcount : count ≤ 0
        · rw [scroll_none hcount]
          exact hclean
        · have hstill : t.scrollY = t.scrollYOrig := by
            rcases hfits with hzero | hnone | hstill
            · exact absurd hzero hd
            · exact absurd hnone hcount
            · exact hstill
          rw [scroll_still (by exact h.enabled) hd (by exact hstill) (by omega)]
          exact hclean.spill direction hd
    | scrollBottom =>
      refine ⟨_, ?_, hclean.spill 1 (by decide)⟩
      change scrollBottom _ = _
      rw [scrollBottom, scrollWhile, scroll_still (by exact h.enabled) (by decide)
        (by exact hfits) Int.one_pos]
      rfl
    | scrollTop =>
      refine ⟨_, rfl, ?_⟩
      rw [scrollTop, scroll_up (by exact h.scrollY)]
      exact hclean
    | putcAt x y chr color => exact hclean.putcAt x y chr _
  · right
    refine ⟨hfits, ?_⟩
    intro t' hrun
    cases call with
    | putc chr color => exact putc_violates hclean hfits hrun
    | scroll direction count =>
      simp only [Fits, not_or, Int.not_le] at hfits
      cases hrun
      exact scroll_violates (by exact h.enabled) hfits.1 (by exact hfits.2.2) hfits.2.1
    | scrollBottom => exact scrollBottom_violates (by exact h.enabled) (by exact hfits) hrun
    | scrollTop => exact absurd trivial hfits
    | putcAt x y chr color => exact absurd trivial hfits

theorem Settled.run_iff (h : Settled t) (calls : List Call) : t.RunSafe calls ↔ t.RunFits calls := by
  induction calls generalizing t with
  | nil => exact ⟨fun _ => trivial, fun _ => ⟨h.x, h.y⟩⟩
  | cons call calls ih =>
    rw [RunSafe, RunFits]
    cases h.step call with
    | inl hgood =>
      obtain ⟨hfits, t', hrun, h'⟩ := hgood
      constructor
      · intro ⟨_, t'', hrun', _, hsafe⟩
        rw [hrun] at hrun'
        cases hrun'
        refine ⟨hfits, ?_⟩
        intro t'' hrun''
        rw [hrun] at hrun''
        cases hrun''
        exact (ih h').1 hsafe
      · intro ⟨_, hrest⟩
        exact ⟨⟨h.x, h.y⟩, t', hrun, h'.accesses, (ih h').2 (hrest t' hrun)⟩
    | inr hbad =>
      constructor
      · intro ⟨_, t', hrun, hin, _⟩
        obtain ⟨a, ha, hout⟩ := hbad.2 t' hrun
        exact absurd (hin a ha) hout
      · intro ⟨hfits, _⟩
        exact absurd hfits hbad.1

theorem Cleared.settled (h : Cleared t) (hx : t.cursorX = 0) (hy : t.cursorY = 0) :
    Settled { t with accesses := [] } := by
  constructor
  · constructor
    · constructor
      · exact h.scrollY
      · dsimp only
        omega
      · intro i hi hi'
        change 0 ≤ t.lineLastchar i ∧ t.lineLastchar i < 80
        rw [h.lastchar i (by omega) (by omega)]
        omega
      · simp
    · dsimp only
      omega
  · exact h.enabled

theorem runSafe_clean (t : Terminal) (calls : List Call) :
    RunSafe { t with accesses := [] } calls ↔ t.RunSafe calls := by cases calls <;> rfl

theorem runFits_clean (t : Terminal) (calls : List Call) :
    RunFits { t with accesses := [] } calls ↔ t.RunFits calls := by cases calls <;> rfl

theorem Cleared.run_iff (h : Cleared t) (hx : t.cursorX = 0) (hy : t.cursorY = 0)
    (calls : List Call) : t.RunSafe calls ↔ t.RunFits calls := by
  rw [← runSafe_clean, ← runFits_clean]
  exact (h.settled hx hy).run_iff calls

/-- After `init` a run is safe exactly when each of its calls scrolls no line. -/
theorem runSafe_iff_runFits (vid heap : Int → UInt8) (lastchar : Int → Int) (calls : List Call) :
    ∃ t, init vid heap lastchar = some t ∧ (t.RunSafe calls ↔ t.RunFits calls) := by
  obtain ⟨t, hinit, h, hx, hy⟩ := init_cleared vid heap lastchar
  exact ⟨t, hinit, h.run_iff hx hy calls⟩

theorem putNormal_corner (hdisabled : t.cursorEnabled = false) (hx : 79 ≤ t.cursorX)
    (hy : 24 ≤ t.cursorY) (chr color : UInt8) :
    (t.putNormal chr color).scrollY = t.scrollY ∧
      (t.putNormal chr color).scrollYOrig = increment t.scrollYOrig := by
  have hwrap : t.cursorX + 1 ≥ 80 := by omega
  have hlast : (t.textmodeChar chr t.cursorX t.cursorY color).cursorY + 1 ≥ 25 := by
    change t.cursorY + 1 ≥ 25
    omega
  obtain ⟨vid, buffer, accesses, hdraw⟩ := draws_drawCursor false colorDefault
    { (t.textmodeChar chr t.cursorX t.cursorY color).nextLine t.cursorX with cursorX := 0 }
  rw [Terminal.putNormal, if_pos hwrap, hdraw, Terminal.nextLine, if_pos hlast, scrollNew,
    scroll_disabled (by exact hdisabled)]
  exact ⟨rfl, rfl⟩

theorem Cleared.corner (h : Cleared t) :
    ∃ t', t.step (.putcAt 79 24 65 7) = some t' ∧ t'.scrollY ≠ t'.scrollYOrig := by
  have hput := @putNormal_corner
    { t with cursorX := 79, cursorY := 24, cursorEnabled := false, accesses := [] } rfl (by simp)
    (by simp) 65 7
  generalize hu : ({ t with cursorX := 79, cursorY := 24, cursorEnabled := false, accesses := [] } :
    Terminal).putNormal 65 7 = u at hput
  refine ⟨{ u with cursorX := t.cursorX, cursorY := t.cursorY, cursorEnabled := true }, ?_, ?_⟩
  · rw [step, Terminal.putcAt, putcTextmode, toBottom_disabled rfl, ← hu]
    rfl
  · change u.scrollY ≠ u.scrollYOrig
    rw [hput.1, hput.2]
    change t.scrollY ≠ increment t.scrollYOrig
    rw [h.scrollY, h.orig]
    decide

theorem not_runSafe_corner : ∃ t, init (fun _ => 0) (fun _ => 0) (fun _ => 0) = some t ∧
    ¬ t.RunSafe [.putcAt 79 24 65 7, .putc 66 7] := by
  obtain ⟨t, hinit, h, hx, hy⟩ := init_cleared (fun _ => 0) (fun _ => 0) (fun _ => 0)
  refine ⟨t, hinit, ?_⟩
  rw [h.run_iff hx hy]
  intro hfits
  obtain ⟨t', hrun, hmoves⟩ := h.corner
  exact hmoves (hfits.2 t' hrun).1.1

end Runs

end KernelTest.Terminal
