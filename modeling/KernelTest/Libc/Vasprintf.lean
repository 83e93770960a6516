import KernelTest.Framework.Exec
import KernelTest.Libc.Hashmap
import KernelTest.Libc.NumberText

/-!
# Formatted output

`vasprintf` on a format in its block. The arguments are the words on the stack; `mem` is what a pointer
among them points to. A directive is `%`, digits of the width, and a letter.
-/

namespace KernelTest.Libc

variable (mem : UInt32 → Block)

/-- `va_arg(args, T)`, for the types of one word. -/
def vaArg : List UInt32 → Except Fault (UInt32 × List UInt32)
  | [] => throw .overrun
  | a :: args => pure (a, args)

/-- The bytes of `(null)`. -/
def nullText : List UInt8 := [40, 110, 117, 108, 108, 41]

/-- `while(*s) *b++ = *s++;` -/
def copyChars : Block → Block → Nat → Except Fault (Block × Nat)
  | [], _, _ => throw .overrun
  | c :: s, buf, b =>
    if c = 0 then pure (buf, b)
    else do
      let buf ← storeByte buf b c
      copyChars s buf (b + 1)

/-- The `switch(*f)`, where `c` is `*f`: the arguments that are left, the buffer and `b - buf`. -/
def convert (argWidth : UInt32) (c : UInt8) (args : List UInt32) (buf : Block) (b : Nat) :
    Except Fault (List UInt32 × Block × Nat) :=
  if c = 115 then do
    let (a, args) ← vaArg args
    let (buf, b) ← copyChars (if a = 0 then nullText ++ [0] else mem a) buf b
    pure (args, buf, b)
  else if c = 99 then do
    let (a, args) ← vaArg args
    let buf ← storeByte buf b a.toUInt8
    pure (args, buf, b + 1)
  else if c = 120 then do
    let (a, args) ← vaArg args
    let (buf, b) ← printHex a argWidth buf b
    pure (args, buf, b)
  else if c = 100 then do
    let (a, args) ← vaArg args
    let (buf, b) ← printDec a argWidth buf b
    pure (args, buf, b)
  else do
    -- The case `'%'` and the default write the letter itself.
    let buf ← storeByte buf b c
    pure (args, buf, b + 1)

/-- `*f >= '0' && *f <= '9'` -/
def isDigit (c : UInt8) : Bool := 48 ≤ c && c ≤ 57

/-- The loop over the format, from `f` on. Behind a `%` the width read so far is kept until the letter comes,
which is taken for one also where it is the terminator. -/
def formatLoop : Option UInt32 → Block → List UInt32 → Block → Nat → Except Fault (Block × Nat)
  | _, [], _, _, _ => throw .overrun
  | none, c :: f, args, buf, b =>
    if c = 0 then pure (buf, b)
    else if c ≠ 37 then do
      let buf ← storeByte buf b c
      formatLoop none f args buf (b + 1)
    else formatLoop (some 0) f args buf b
  | some argWidth, c :: f, args, buf, b =>
    if isDigit c then formatLoop (some (argWidth * 10 + (c - 48).toUInt32)) f args buf b
    else do
      let (args, buf, b) ← convert mem argWidth c args buf b
      formatLoop none f args buf b

/-- `vasprintf(buf, fmt, args)` -/
def vasprintf (buf fmt : Block) (args : List UInt32) : Except Fault (Block × Nat) := do
  let (buf, b) ← formatLoop mem none fmt args buf 0
  let buf ← storeByte buf b 0
  pure (buf, b)

inductive Piece
  | lit (c : UInt8)
  | conv (width : UInt32) (c : UInt8)
  deriving DecidableEq

/-- The parts of a format, and whether it ends inside a directive. -/
def pieces : Option UInt32 → List UInt8 → List Piece × Bool
  | none, [] => ([], false)
  | some _, [] => ([], true)
  | none, c :: f =>
    if c = 37 then pieces (some 0) f
    else (.lit c :: (pieces none f).1, (pieces none f).2)
  | some w, c :: f =>
    if isDigit c then pieces (some (w * 10 + (c - 48).toUInt32)) f
    else (.conv w c :: (pieces none f).1, (pieces none f).2)

/-- The letters of the conversions that take an argument: `s`, `c`, `x` and `d`. -/
def TakesArg (c : UInt8) : Prop := c = 115 ∨ c = 99 ∨ c = 120 ∨ c = 100

instance (c : UInt8) : Decidable (TakesArg c) := inferInstanceAs (Decidable (_ ∨ _ ∨ _ ∨ _))

/-- What `print_dec` appends. -/
def decText (v w : UInt32) : List UInt8 :=
  match widthLoop 10 v 32 1 9 with
  | .ok n => List.replicate (w.toNat - n) 48 ++ places 10 n v.toNat
  | .error _ => []

/-- What `print_hex` appends. -/
def hexText (v w : UInt32) : List UInt8 :=
  match widthLoop 16 v 32 1 0x0F with
  | .ok n => List.replicate ((if asInt w = 0 then 8 else asInt w) - n).toNat 48 ++ places 16 n v.toNat
  | .error _ => []

/-- The expansion of a conversion with the argument `a`. -/
def expansion (w : UInt32) (c : UInt8) (a : UInt32) : List UInt8 :=
  if c = 115 then (if a = 0 then nullText else (mem a).takeWhile (· ≠ 0))
  else if c = 99 then [a.toUInt8]
  else if c = 120 then hexText a w
  else decText a w

/-- The characters and the expansions, with the arguments in order. -/
def expand : List Piece → List UInt32 → List UInt8
  | [], _ => []
  | .lit c :: ps, args => c :: expand ps args
  | .conv w c :: ps, args =>
    if TakesArg c then
      match args with
      | [] => []
      | a :: args => expansion mem w c a ++ expand ps args
    else c :: expand ps args

/-- There is an argument for each conversion that takes one, and for `s` it is null or points to a
string. -/
def Suits : List Piece → List UInt32 → Prop
  | [], _ => True
  | .lit _ :: ps, args => Suits ps args
  | .conv _ c :: ps, args =>
    if TakesArg c then
      match args with
      | [] => False
      | a :: args => (c = 115 → a ≠ 0 → 0 ∈ mem a) ∧ Suits ps args
    else Suits ps args

/-- The format is read up to its terminator at most, and its expansion is written with a terminator behind
it, in every buffer with room for that; the result is its length. -/
def Formats (fmt : List UInt8) (args : List UInt32) : Prop :=
  ∀ buf : Block, (expand mem (pieces none fmt).1 args).length + 1 ≤ buf.length →
    vasprintf mem buf (fmt ++ [0]) args =
      .ok (written buf 0 (expand mem (pieces none fmt).1 args ++ [0]),
        (expand mem (pieces none fmt).1 args).length)

variable {mem}

section Convert

variable {v w a : UInt32} {c : UInt8} {args : List UInt32}

theorem printDec_appends_decText (v w : UInt32) : Appends (printDec v w) (decText v w) := by
  obtain ⟨n, hn⟩ := exists_counted_dec v
  have hrun : widthLoop 10 v 32 1 9 = .ok n := hn.run
  rw [decText, hrun]
  exact printDec_appends hn

theorem printHex_appends_hexText (v w : UInt32) : Appends (printHex v w) (hexText v w) := by
  obtain ⟨n, hn⟩ := exists_counted_hex v
  have hrun : widthLoop 16 v 32 1 0x0F = .ok n := hn.run
  rw [hexText, hrun]
  exact printHex_appends hn

theorem copyChars_appends {b : Block} {s : List UInt8} (h : CString b s) : Appends (copyChars b) s := by
  obtain ⟨hs, r, rfl⟩ := h
  induction s with
  | nil =>
    intro buf p _
    rw [written_nil]
    rfl
  | cons c s ih =>
    have hc : c ≠ 0 := fun he => hs (by simp [he])
    have hrest := ih fun h => hs (List.mem_cons_of_mem c h)
    intro buf p hroom
    rw [List.cons_append, copyChars, if_neg hc]
    exact hrest.cons c buf p hroom

theorem convert_appends (hc : TakesArg c) (hs : c = 115 → a ≠ 0 → 0 ∈ mem a) :
    ∃ f, Appends f (expansion mem w c a) ∧ ∀ args buf b,
      convert mem w c (a :: args) buf b = f buf b >>= fun r => pure (args, r.1, r.2) := by
  rcases hc with rfl | rfl | rfl | rfl
  · refine ⟨copyChars (if a = 0 then nullText ++ [0] else mem a), ?_, fun _ _ _ => rfl⟩
    rw [expansion, if_pos rfl]
    apply copyChars_appends
    by_cases ha : a = 0
    · rw [if_pos ha, if_pos ha]
      exact cString_terminated (by decide)
    · rw [if_neg ha, if_neg ha]
      exact cString_takeWhile (hs rfl ha)
  · have hnothing : Appends (fun buf p => pure (buf, p)) [] := by
      intro buf p _
      rw [written_nil]
      rfl
    refine ⟨_, hnothing.cons a.toUInt8, fun args buf b => ?_⟩
    rw [convert, if_neg (by decide), if_pos rfl, bind_assoc]
    rfl
  · exact ⟨printHex a w, printHex_appends_hexText a w, fun _ _ _ => rfl⟩
  · exact ⟨printDec a w, printDec_appends_decText a w, fun _ _ _ => rfl⟩

theorem convert_letter (hc : ¬ TakesArg c) (args : List UInt32) (buf : Block) (b : Nat) :
    convert mem w c args buf b = storeByte buf b c >>= fun buf => pure (args, buf, b + 1) := by
  rw [TakesArg, not_or, not_or, not_or] at hc
  rw [convert, if_neg hc.1, if_neg hc.2.1, if_neg hc.2.2.1, if_neg hc.2.2.2]

end Convert

section Loop

variable {mode : Option UInt32} {fmt : List UInt8} {args : List UInt32}

theorem formatLoop_appends (hfmt : 0 ∉ fmt) (hs : Suits mem (pieces mode fmt).1 args)
    (hend : (pieces mode fmt).2 = false) :
    Appends (formatLoop mem mode (fmt ++ [0]) args) (expand mem (pieces mode fmt).1 args) := by
  induction fmt generalizing mode args with
  | nil =>
    cases mode with
    | none =>
      intro buf p _
      rw [pieces, expand, written_nil]
      rfl
    | some w => cases hend
  | cons c f ih =>
    have hc : c ≠ 0 := fun he => hfmt (by simp [he])
    have hrest : ∀ {mode args}, Suits mem (pieces mode f).1 args → (pieces mode f).2 = false →
        Appends (formatLoop mem mode (f ++ [0]) args) (expand mem (pieces mode f).1 args) :=
      ih fun h => hfmt (List.mem_cons_of_mem c h)
    cases mode with
    | none =>
      by_cases hpercent : c = 37
      · rw [pieces, if_pos hpercent] at hs hend ⊢
        intro buf p hroom
        rw [List.cons_append, formatLoop, if_neg hc, if_neg (not_not.mpr hpercent)]
        exact hrest hs hend buf p hroom
      · rw [pieces, if_neg hpercent] at hs hend ⊢
        rw [expand]
        intro buf p hroom
        rw [List.cons_append, formatLoop, if_neg hc, if_pos hpercent]
        exact (hrest hs hend).cons c buf p hroom
    | some w =>
      by_cases hdigit : isDigit c = true
      · rw [pieces, if_pos hdigit] at hs hend ⊢
        intro buf p hroom
        rw [List.cons_append, formatLoop, if_pos hdigit]
        exact hrest hs hend buf p hroom
      · rw [pieces, if_neg hdigit] at hs hend ⊢
        intro buf p hroom
        rw [List.cons_append, formatLoop, if_neg hdigit]
        by_cases htakes : TakesArg c
        · cases args with
          | nil =>
            rw [Suits, if_pos htakes] at hs
            exact absurd hs id
          | cons a args =>
            rw [Suits, if_pos htakes] at hs
            rw [expand, if_pos htakes] at hroom ⊢
            obtain ⟨g, hg, hconvert⟩ := convert_appends htakes hs.1
            rw [hconvert, bind_assoc]
            exact hg.bind (hrest hs.2 hend) buf p hroom
        · have hs' : Suits mem (pieces none f).1 args := by
            cases args <;> rwa [Suits, if_neg htakes] at hs
          have hexpand : expand mem (.conv w c :: (pieces none f).1) args =
              c :: expand mem (pieces none f).1 args := by
            cases args <;> rw [expand, if_neg htakes]
          rw [hexpand] at hroom ⊢
          rw [convert_letter htakes, bind_assoc]
          exact (hrest hs' hend).cons c buf p hroom

theorem formatLoop_fails (hfmt : 0 ∉ fmt) (hend : (pieces mode fmt).2 = true) {buf : Block} {b : Nat}
    {r : Block × Nat} : formatLoop mem mode (fmt ++ [0]) args buf b ≠ .ok r := by
  induction fmt generalizing mode args buf b with
  | nil =>
    intro hrun
    cases mode with
    | none => cases hend
    | some w =>
      rw [List.nil_append, formatLoop, if_neg (by decide)] at hrun
      obtain ⟨_, _, hrun⟩ := Exec.of_bind_eq_ok hrun
      cases hrun
  | cons c f ih =>
    intro hrun
    have hc : c ≠ 0 := fun he => hfmt (by simp [he])
    have hfmt' : 0 ∉ f := fun h => hfmt (List.mem_cons_of_mem c h)
    cases mode with
    | none =>
      rw [List.cons_append, formatLoop, if_neg hc] at hrun
      by_cases hpercent : c = 37
      · rw [pieces, if_pos hpercent] at hend
        rw [if_neg (not_not.mpr hpercent)] at hrun
        exact ih hfmt' hend hrun
      · rw [pieces, if_neg hpercent] at hend
        rw [if_pos hpercent] at hrun
        obtain ⟨_, _, hrun⟩ := Exec.of_bind_eq_ok hrun
        exact ih hfmt' hend hrun
    | some w =>
      rw [List.cons_append, formatLoop] at hrun
      by_cases hdigit : isDigit c = true
      · rw [pieces, if_pos hdigit] at hend
        rw [if_pos hdigit] at hrun
        exact ih hfmt' hend hrun
      · rw [pieces, if_neg hdigit] at hend
        rw [if_neg hdigit] at hrun
        obtain ⟨_, _, hrun⟩ := Exec.of_bind_eq_ok hrun
        exact ih hfmt' hend hrun

end Loop

end KernelTest.Libc
