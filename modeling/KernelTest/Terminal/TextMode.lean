import Mathlib.Algebra.Group.Int.Defs
import Mathlib.Logic.Function.Basic

/-!
# The terminal in text mode

The screen has 25 lines of 80 characters. Lines that leave it at the top spill into a buffer of 250
lines, and the last column of each line is kept for backspaces. Every access to the three memories is
noted, wherever it goes.
-/

namespace KernelTest

/-- An access to `VID`, to `term_buffer` (both in bytes) or to `line_lastchar`. -/
inductive Terminal.Access
  | video (start : Int) (count : Nat)
  | buffer (start : Int) (count : Nat)
  | lastchar (index : Int)
  deriving DecidableEq, Repr

/-- The access is inside the 25 lines, the allocated buffer or the allocated array. -/
def Terminal.Access.InBounds : Terminal.Access → Prop
  | .video start count => 0 ≤ start ∧ start + count ≤ 80 * 2 * 25
  | .buffer start count => 0 ≤ start ∧ start + count ≤ 80 * 2 * 25 * 10
  | .lastchar index => 0 ≤ index ∧ index < 25 * 10

/-- `Terminal` with `gfx_mode = 0`, and the memories it uses. -/
structure Terminal where
  cursorX : Int
  cursorY : Int
  scrollY : Int
  scrollYOrig : Int
  cursorEnabled : Bool
  vid : Int → UInt8
  termBuffer : Int → UInt8
  lineLastchar : Int → Int
  accesses : List Terminal.Access

namespace Terminal

/-- `n++` of an `int`. -/
def increment (n : Int) : Int := if n = 2 ^ 31 - 1 then -2 ^ 31 else n + 1

/-- `memcpy` of `count` bytes. -/
def copyBytes (dst src : Int → UInt8) (pos start : Int) (count : Nat) : Int → UInt8 :=
  fun i => if pos ≤ i ∧ i < pos + count then src (start + (i - pos)) else dst i

/-- `textmode_char`. -/
def textmodeChar (c : UInt8) (x y : Int) (color : UInt8) (t : Terminal) : Terminal :=
  let loc := (x + y * 80) * 2
  { t with
    vid := Function.update (Function.update t.vid loc c) (loc + 1) color
    accesses := t.accesses ++ [.video loc 2] }

/-- `draw_cursor`. -/
def drawCursor (redraw : Bool) (bgcolor : UInt8) (t : Terminal) : Terminal :=
  if !t.cursorEnabled then t
  else if redraw then
    (t.textmodeChar 32 t.cursorX (t.cursorY - 1) bgcolor).textmodeChar 219 0 t.cursorY bgcolor
  else t.textmodeChar 219 t.cursorX t.cursorY bgcolor

/-- `last_line_store`. -/
def lastLineStore (line lastPos : Int) (t : Terminal) : Terminal :=
  { t with
    lineLastchar := Function.update t.lineLastchar line lastPos
    accesses := t.accesses ++ [.lastchar line] }

/-- `scroll_copy_line` inside the video memory. -/
def scrollCopyLine (lineDst lineSrc : Int) (t : Terminal) : Terminal :=
  { t with
    vid := copyBytes t.vid t.vid (160 * lineDst) (160 * lineSrc) 160
    accesses := t.accesses ++ [.video (160 * lineSrc) 160, .video (160 * lineDst) 160] }

/-- `spill_buff`: the first line, or the last one, goes to the buffer. -/
def spillBuff (spillDirection : UInt8) (t : Terminal) : Terminal :=
  let lineDst := if spillDirection ≠ 0 then t.scrollY - 1 else 25 + t.scrollY - 1
  let lineSrc := if spillDirection ≠ 0 then 0 else 24
  { t with
    termBuffer := copyBytes t.termBuffer t.vid (160 * lineDst) (160 * lineSrc) 160
    accesses := t.accesses ++ [.video (160 * lineSrc) 160, .buffer (160 * lineDst) 160] }

/-- `fill_buff`: the first line, or the last one, comes from the buffer. -/
def fillBuff (fillDirection : UInt8) (t : Terminal) : Terminal :=
  let lineDst := if fillDirection = 0 then 0 else 24
  let lineSrc := if fillDirection = 0 then t.scrollY - 1 else 25 + t.scrollY - 1
  { t with
    vid := copyBytes t.vid t.termBuffer (160 * lineDst) (160 * lineSrc) 160
    accesses := t.accesses ++ [.buffer (160 * lineSrc) 160, .video (160 * lineDst) 160] }

def scrollDown (t : Terminal) : Terminal :=
  (List.range 25).foldl (fun t (line : Nat) => t.scrollCopyLine line (line + 1))
    { t with scrollY := increment t.scrollY }

def scrollUp (t : Terminal) : Terminal :=
  (List.range 25).reverse.foldl (fun t (line : Nat) => t.scrollCopyLine line (line - 1))
    { t with scrollY := t.scrollY - 1 }

/-- One round of the loop in `scroll`; `false` when it returns from there. `last_lines_shiftup` does
nothing in text mode. -/
def scrollRound (direction : UInt8) (t : Terminal) : Bool × Terminal :=
  if direction ≠ 0 then
    if (t.spillBuff direction).scrollY = (t.spillBuff direction).scrollYOrig then
      (false, t.spillBuff direction)
    else
      (true, (t.spillBuff direction).scrollDown.fillBuff direction)
  else if t.scrollY = 1 then (false, t)
  else (true, (t.spillBuff direction).scrollUp.fillBuff direction)

def scrollRounds (direction : UInt8) : Nat → Terminal → Bool × Terminal
  | 0, t => (true, t)
  | n + 1, t =>
    if (t.scrollRound direction).1 then scrollRounds direction n (t.scrollRound direction).2
    else t.scrollRound direction

/-- `scroll`. -/
def scroll (direction : UInt8) (scrollcount : Int) (t : Terminal) : Bool × Terminal :=
  if !t.cursorEnabled then (false, t) else t.scrollRounds direction scrollcount.toNat

/-- `while(scroll(1,1))`, at most `fuel` times. -/
def scrollWhile : Nat → Terminal → Option Terminal
  | 0, _ => none
  | fuel + 1, t =>
    if (t.scroll 1 1).1 then scrollWhile fuel (t.scroll 1 1).2 else some (t.scroll 1 1).2

/-- `scroll_bottom`: each round brings `scroll_y` closer to `scroll_y_orig` when it is below, and it
never ends when `scroll_y` is above. -/
def scrollBottom (t : Terminal) : Option Terminal :=
  t.scrollWhile ((t.scrollYOrig - t.scrollY).toNat + 1)

/-- `scroll_top`. -/
def scrollTop (t : Terminal) : Terminal := (t.scroll 0 t.scrollY).2

/-- `if(scroll_y != scroll_y_orig) scroll_bottom()`. -/
def toBottom (t : Terminal) : Option Terminal :=
  if t.scrollY ≠ t.scrollYOrig then t.scrollBottom else some t

/-- `scroll_y_orig++; scroll(1, 1)`. -/
def scrollNew (t : Terminal) : Terminal :=
  ({ t with scrollYOrig := increment t.scrollYOrig }.scroll 1 1).2

/-- `last_line_store(scroll_y + cursor_y++, last_pos)`; at the last line the cursor goes back and the
screen is scrolled. -/
def nextLine (lastPos : Int) (t : Terminal) : Terminal :=
  if t.cursorY + 1 ≥ 25 then (t.lastLineStore (t.scrollY + t.cursorY) lastPos).scrollNew
  else { t.lastLineStore (t.scrollY + t.cursorY) lastPos with cursorY := t.cursorY + 1 }

/-- `COLOR_DEFAULT` in text mode. -/
def colorDefault : UInt8 := 7

def newLine (chr : UInt8) (t : Terminal) : Terminal :=
  if chr = 10 then { (t.nextLine t.cursorX).drawCursor true colorDefault with cursorX := 0 }
  else (t.nextLine t.cursorX).drawCursor true colorDefault

/-- `cursor_x = last_line_get_lastpos(scroll_y + (--cursor_y))`. -/
def previousLine (t : Terminal) : Terminal :=
  { t with
    cursorX := t.lineLastchar (t.scrollY + (t.cursorY - 1))
    cursorY := t.cursorY - 1
    accesses := t.accesses ++ [.lastchar (t.scrollY + (t.cursorY - 1))] }

/-- `cursor_y = 0`, and a scroll up when lines have been scrolled away. -/
def scrollOld (t : Terminal) : Terminal :=
  if t.scrollYOrig > 1 then
    ({ t with cursorY := 1, scrollYOrig := t.scrollYOrig - 1 }.scroll 0 1).2
  else { t with cursorY := 0 }

/-- The cursor after a backspace at the start of a line, which takes it to the line before. -/
def backspaceLine (color : UInt8) (t : Terminal) : Terminal :=
  if t.scrollY + t.cursorY - 1 > 0 then
    if t.cursorY - 1 ≤ 0 then
      (t.textmodeChar 32 t.cursorX t.cursorY color).previousLine.scrollOld
    else (t.textmodeChar 32 t.cursorX t.cursorY color).previousLine
  else t

def backspaceChar (color : UInt8) (t : Terminal) : Terminal :=
  { t with cursorX := t.cursorX - 1 }.textmodeChar 32 (t.cursorX - 1 + 1) t.cursorY color

def drawBlock (color : UInt8) (t : Terminal) : Terminal :=
  t.textmodeChar 219 t.cursorX t.cursorY color

def backspace (color : UInt8) (t : Terminal) : Terminal :=
  if t.cursorX = 0 ∨ t.cursorX - 1 < 0 then (t.backspaceLine color).drawBlock color
  else (t.backspaceChar color).drawBlock color

def putNormal (chr color : UInt8) (t : Terminal) : Terminal :=
  if t.cursorX + 1 ≥ 80 then
    { (t.textmodeChar chr t.cursorX t.cursorY color).nextLine t.cursorX with
      cursorX := 0 }.drawCursor false colorDefault
  else
    { t.textmodeChar chr t.cursorX t.cursorY color with
      cursorX := t.cursorX + 1 }.drawCursor false colorDefault

/-- `putc_textmode(' ', color)`, `n` times. -/
def putSpaces (color : UInt8) : Nat → Terminal → Option Terminal
  | 0, t => some t
  | n + 1, t => do
    let t ← t.toBottom
    putSpaces color n (t.putNormal 32 color)

/-- `putc_textmode`. -/
def putcTextmode (chr color : UInt8) (t : Terminal) : Option Terminal := do
  let t ← t.toBottom
  if chr = 10 ∨ chr = 13 then some (t.newLine chr)
  else if chr = 8 then some (t.backspace color)
  else if chr = 9 then t.putSpaces color 4
  else some (t.putNormal chr color)

theorem putcTextmode_space (color : UInt8) (t : Terminal) :
    t.putcTextmode 32 color = t.putSpaces color 1 := by
  rw [putcTextmode, putSpaces]
  simp [putSpaces]

/-- `putc_at`. -/
def putcAt (x y : Int) (chr color : UInt8) (t : Terminal) : Option Terminal := do
  let t' ← { t with cursorX := x, cursorY := y, cursorEnabled := false }.putcTextmode chr color
  some { t' with cursorX := t.cursorX, cursorY := t.cursorY, cursorEnabled := true }

/-- The `n` spaces of `clear`. -/
def clearLoop : Nat → Terminal → Option Terminal
  | 0, t => some t
  | n + 1, t => do
    let t ← clearLoop n t
    t.putcTextmode 32 0

/-- `clear`. -/
def clear (t : Terminal) : Option Terminal := do
  let t ← clearLoop (80 * 25) { t with cursorX := 0, cursorY := 0 }
  some { t with cursorX := 0, cursorY := 0 }

/-- `Terminal` and `init(0)`: the new buffer is zero, the new array is not. -/
def init (vid heap : Int → UInt8) (lastchar : Int → Int) : Option Terminal :=
  clear
    { cursorX := 0
      cursorY := 0
      scrollY := 0
      scrollYOrig := 0
      cursorEnabled := true
      vid := vid
      termBuffer := fun i => if 0 ≤ i ∧ i < 80 * 2 * 25 * 10 then 0 else heap i
      lineLastchar := lastchar
      accesses := [] }

inductive Call
  | putc (chr : UInt8) (color : UInt32)
  | scroll (direction : UInt8) (count : Int)
  | scrollBottom
  | scrollTop
  | putcAt (x : Fin 80) (y : Fin 25) (chr : UInt8) (color : UInt32)

/-- A call; the accesses noted afterwards are its own. -/
def step (t : Terminal) (call : Call) : Option Terminal :=
  let t := { t with accesses := [] }
  match call with
  | .putc chr color => t.putcTextmode chr color.toUInt8
  | .scroll direction count => some (t.scroll direction count).2
  | .scrollBottom => t.scrollBottom
  | .scrollTop => some t.scrollTop
  | .putcAt x y chr color => t.putcAt x.val y.val chr color.toUInt8

end Terminal

end KernelTest
