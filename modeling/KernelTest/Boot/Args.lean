import Mathlib.Data.List.Induction
import KernelTest.Libc.Hashmap
import KernelTest.Libc.Tokenize

/-!
# The kernel command line

`args_parse` splits the command line at its spaces, each token at its first `=`, and keeps the
values in a hash map.
-/

namespace KernelTest.Boot

open Libc

def space : UInt8 := 32

def equalsSign : UInt8 := 61

/-- `kernel_args_map`, with the strings its values point to: the value `v` is the null pointer for
`0`, and `texts[v - 1]` otherwise. -/
structure ArgTable where
  map : Hashmap Block
  texts : List Block

/-- The string a value of the map points to. -/
def ArgTable.textOf (table : ArgTable) (value : Nat) : Option Block :=
  if value = 0 then none else table.texts[value - 1]?

/-- The search for the first `=`, as an offset. -/
def findEquals : Block → Except Fault (Option Nat)
  | [] => .error .overrun
  | c :: s =>
    if c = 0 then .ok none
    else if c = equalsSign then .ok (some 0)
    else (findEquals s).map fun n => n.map (· + 1)

def parseToken (junk : Nat → UInt8) (table : ArgTable) (token : Block) :
    Except Fault ArgTable := do
  let c ← strdup junk token
  match ← findEquals c with
  | none =>
    let (_, map) ← hashmapSet table.map c 0
    .ok { table with map := map }
  | some n =>
    let name ← storeByte c n 0
    let texts := table.texts ++ [name.drop (n + 1)]
    let (_, map) ← hashmapSet table.map name texts.length
    .ok { map := map, texts := texts }

/-- The first `n` steps of that loop. -/
def parseTokens (junk : Nat → UInt8) (arg : Block) (argv : List (Option Nat)) (table : ArgTable) :
    Nat → Except Fault ArgTable
  | 0 => .ok table
  | n + 1 => do
    let table ← parseTokens junk arg argv table n
    match argv[n]? with
    | some (some token) => parseToken junk table (arg.drop token)
    | _ => .error .overrun

/-- `args_parse`. The array `argv` on the stack is not initialised. -/
def argsParse (junk : Nat → UInt8) (argv : List (Option Nat)) (table : Option ArgTable)
    (arg : Option Block) : Except Fault (Option ArgTable) := do
  match arg with
  | none => .ok table
  | some arg =>
    let arg ← strdup junk arg
    let (arg, argc, argv) ← tokenize arg space argv
    let table := table.getD { map := hashmapCreate junk 10, texts := [] }
    let table ← parseTokens junk arg argv table argc
    .ok (some table)

/-- `args_present`. -/
def argsPresent (table : Option ArgTable) (karg : Block) : Except Fault Bool :=
  match table with
  | none => .ok false
  | some table => hashmapHas table.map karg

/-- `args_value`. -/
def argsValue (table : Option ArgTable) (karg : Block) : Except Fault (Option Block) :=
  match table with
  | none => .ok none
  | some table => (hashmapGet table.map karg).map table.textOf

/-- What stands in front of the first `=` of a token. -/
def keyOf (token : List UInt8) : List UInt8 := token.takeWhile (· ≠ equalsSign)

/-- What stands behind the first `=` of a token that has one. -/
def valueOf (token : List UInt8) : Option (List UInt8) :=
  if equalsSign ∈ token then some (token.dropWhile (· ≠ equalsSign)).tail else none

/-- The last token with the key `k`. -/
def lastToken (ts : List (List UInt8)) (k : List UInt8) : Option (List UInt8) :=
  (ts.filter fun t => keyOf t = k).getLast?

theorem keyOf_eq_iff {t k : List UInt8} :
    keyOf t = k ↔ equalsSign ∉ k ∧ (t = k ∨ ∃ v, t = k ++ equalsSign :: v) := by
  constructor
  · rintro rfl
    constructor
    · intro h
      simpa using List.mem_takeWhile_imp h
    · have hsplit := List.takeWhile_append_dropWhile (p := (· ≠ equalsSign)) (l := t)
      cases hrest : t.dropWhile (· ≠ equalsSign) with
      | nil =>
        left
        rw [hrest, List.append_nil] at hsplit
        exact hsplit.symm
      | cons c v =>
        right
        have hhead := List.head?_dropWhile_not (· ≠ equalsSign) t
        rw [hrest] at hhead
        have hc : c = equalsSign := by simpa using hhead
        rw [hrest, hc] at hsplit
        exact ⟨v, hsplit.symm⟩
  · rintro ⟨hk, rfl | ⟨v, rfl⟩⟩
    · exact List.takeWhile_eq_self_iff.2 fun c hc => by
        have hne : c ≠ equalsSign := fun he => hk (he ▸ hc)
        simpa using hne
    · rw [keyOf, List.takeWhile_append_of_pos]
      · simp
      · intro c hc
        have hne : c ≠ equalsSign := fun he => hk (he ▸ hc)
        simpa using hne

/-- A pointer to the string `x`, or the null pointer. -/
def PointsTo (p : Option Block) (x : Option (List UInt8)) : Prop :=
  match p, x with
  | none, none => True
  | some b, some s => CString b s
  | _, _ => False

/-- What the two functions answer after the line with the tokens `ts`. -/
structure Answers (table : Option ArgTable) (ts : List (List UInt8)) : Prop where
  present : ∀ karg k, CString karg k →
    argsPresent table karg = .ok (decide (∃ t ∈ ts, keyOf t = k))
  value : ∀ karg k, CString karg k → ∃ p, argsValue table karg = .ok p ∧
    PointsTo p ((lastToken ts k).bind valueOf)

/-- `args_parse` reads the line, writing to none but the 1024 places of its array. -/
def ParsesLine (line : List UInt8) : Prop :=
  ∀ junk argv arg, argv.length = 1024 → CString arg line →
    ∃ table, argsParse junk argv none (some arg) = .ok table ∧ Answers table (tokens space line)

theorem lastToken_append (ts : List (List UInt8)) (t k : List UInt8) :
    lastToken (ts ++ [t]) k = if keyOf t = k then some t else lastToken ts k := by
  rw [lastToken, List.filter_append]
  by_cases h : keyOf t = k
  · simp [h]
  · simp [h, lastToken]

theorem lastToken_isSome (ts : List (List UInt8)) (k : List UInt8) :
    (lastToken ts k).isSome = decide (∃ t ∈ ts, keyOf t = k) := by
  induction ts using List.reverseRecOn with
  | nil => rfl
  | append_singleton ts t ih =>
    rw [lastToken_append]
    by_cases h : keyOf t = k
    · simp [h]
    · simp [h, ih]

section Token

variable {b : Block} {t : List UInt8}

theorem findEquals_eq (h : CString b t) :
    findEquals b = .ok (if equalsSign ∈ t then some (keyOf t).length else none) := by
  obtain ⟨hnul, r, rfl⟩ := h
  induction t with
  | nil => simp [findEquals]
  | cons c t ih =>
    have hc : c ≠ 0 := fun he => hnul (by simp [he])
    rw [List.cons_append, findEquals, if_neg hc, ih fun h => hnul (by simp [h])]
    by_cases heq : c = equalsSign
    · simp [heq, keyOf]
    · rw [if_neg heq]
      by_cases hmem : equalsSign ∈ t
      · simp [hmem, keyOf, heq, Except.map]
      · simp [hmem, Ne.symm heq, Except.map]

theorem cutToken_eq (hnul : 0 ∉ t) (h : equalsSign ∈ t) :
    ∃ name, storeByte (t ++ [0]) (keyOf t).length 0 = .ok name ∧ CString name (keyOf t) ∧
      CString (name.drop ((keyOf t).length + 1)) (t.dropWhile (· ≠ equalsSign)).tail := by
  have hsplit := List.takeWhile_append_dropWhile (p := (· ≠ equalsSign)) (l := t)
  change keyOf t ++ _ = t at hsplit
  cases hrest : t.dropWhile (· ≠ equalsSign) with
  | nil =>
    rw [List.dropWhile_eq_nil_iff] at hrest
    simpa using hrest equalsSign h
  | cons c v =>
    rw [hrest] at hsplit
    generalize keyOf t = key at hsplit
    subst hsplit
    have hkey : 0 ∉ key := fun hm => hnul (List.mem_append_left _ hm)
    have hv : 0 ∉ v := fun hm => hnul (by simp [hm])
    refine ⟨key ++ 0 :: (v ++ [0]), ?_, ⟨hkey, v ++ [0], rfl⟩, ?_⟩
    · rw [storeByte, if_pos (by simp)]
      simp
    · rw [List.drop_append, List.drop_eq_nil_of_le (by simp)]
      simpa using cString_terminated hv

end Token

/-- The value `v` of the map points to the string `x`, or is null when there is none. -/
def Denotes (texts : List Block) (v : Nat) (x : Option (List UInt8)) : Prop :=
  match x with
  | none => v = 0
  | some s => v ≠ 0 ∧ ∃ b, texts[v - 1]? = some b ∧ CString b s

theorem Denotes.append {texts : List Block} {v : Nat} {x : Option (List UInt8)}
    (h : Denotes texts v x) (more : List Block) : Denotes (texts ++ more) v x := by
  cases x with
  | none => exact h
  | some s =>
    obtain ⟨hv, b, hb, hs⟩ := h
    exact ⟨hv, b, by rw [List.getElem?_append_left (List.getElem?_eq_some_iff.1 hb).1, hb], hs⟩

theorem Denotes.pointsTo {map : Hashmap Block} {texts : List Block} {v : Nat}
    {x : Option (List UInt8)} (h : Denotes texts v x) :
    PointsTo ((ArgTable.mk map texts).textOf v) x := by
  cases x with
  | none =>
    have hv : v = 0 := h
    rw [ArgTable.textOf, if_pos hv]
    trivial
  | some s =>
    obtain ⟨hv, b, hb, hs⟩ := h
    rw [ArgTable.textOf, if_neg hv, hb]
    exact hs

abbrev ArgMap : Type := List (List (CText × Nat))

def textHash (a : CText) : Nat := (a.1.foldl sdbm 0).toNat

structure HoldsTokens (junk : Nat → UInt8) (table : ArgTable) (t : ArgMap)
    (ts : List (List UInt8)) : Prop where
  represents : table.map.Represents (stringFuncs junk) (fun a => a.1 ++ [0]) textHash t
  missing : ∀ k : CText, lastToken ts k.1 = none → HashTable.find textHash t k = none
  present : ∀ k : CText, ∀ token, lastToken ts k.1 = some token →
    ∃ v, HashTable.find textHash t k = some v ∧ Denotes table.texts v (valueOf token)

section Run

variable {junk : Nat → UInt8} {table : ArgTable} {t : ArgMap} {ts : List (List UInt8)}

theorem HoldsTokens.set (h : HoldsTokens junk table t ts) {token name : List UInt8} {value : Nat}
    {texts : List Block} (hname : CString name (keyOf token))
    (hvalue : Denotes texts value (valueOf token))
    (hkeep : ∀ v x, Denotes table.texts v x → Denotes texts v x) :
    ∃ out map t', hashmapSet table.map name value = .ok (out, map) ∧
      HoldsTokens junk ⟨map, texts⟩ t' (ts ++ [token]) := by
  have hdenotes : DenotesText name ⟨keyOf token, hname.1⟩ := hname
  obtain ⟨map, hset, hrep⟩ := h.represents.set (stringFuncs_lawful junk) hdenotes value
  refine ⟨_, map, _, hset, hrep, ?_, ?_⟩
  · intro k hk
    rw [lastToken_append] at hk
    split at hk
    · cases hk
    · next hne =>
      have hk' : k ≠ ⟨keyOf token, hname.1⟩ := fun he => hne (by rw [he])
      rw [HashTable.find_insert h.represents.pos, Function.update_of_ne hk']
      exact h.missing k hk
  · intro k token' hk
    rw [lastToken_append] at hk
    rw [HashTable.find_insert h.represents.pos]
    split at hk
    · next heq =>
      cases hk
      have hk' : k = ⟨keyOf token, hname.1⟩ := Subtype.ext heq.symm
      rw [hk', Function.update_self]
      exact ⟨value, rfl, hvalue⟩
    · next hne =>
      have hk' : k ≠ ⟨keyOf token, hname.1⟩ := fun he => hne (by rw [he])
      rw [Function.update_of_ne hk']
      obtain ⟨v, hfind, hv⟩ := h.present k token' hk
      exact ⟨v, hfind, hkeep _ _ hv⟩

theorem HoldsTokens.parseToken (h : HoldsTokens junk table t ts) {b : Block}
    {token : List UInt8} (hb : CString b token) :
    ∃ table' t', Boot.parseToken junk table b = .ok table' ∧
      HoldsTokens junk table' t' (ts ++ [token]) := by
  rw [Boot.parseToken, strdup_eq junk hb, Exec.ok_bind,
    findEquals_eq (cString_terminated hb.1), Exec.ok_bind]
  by_cases hmem : equalsSign ∈ token
  · obtain ⟨name, hcut, hname, hvalue⟩ := cutToken_eq hb.1 hmem
    have hv : Denotes (table.texts ++ [name.drop ((keyOf token).length + 1)])
        (table.texts ++ [name.drop ((keyOf token).length + 1)]).length (valueOf token) := by
      rw [valueOf, if_pos hmem]
      refine ⟨by simp, _, ?_, hvalue⟩
      simp
    obtain ⟨out, map, t', hset, hheld⟩ := h.set hname hv fun v x hx => hx.append _
    simp only [if_pos hmem, hcut, Exec.ok_bind, hset]
    exact ⟨_, t', rfl, hheld⟩
  · have hkey : keyOf token = token := keyOf_eq_iff.2 ⟨hmem, Or.inl rfl⟩
    have hname : CString (token ++ [0]) (keyOf token) := by
      rw [hkey]
      exact cString_terminated hb.1
    have hv : Denotes table.texts 0 (valueOf token) := by
      rw [valueOf, if_neg hmem]
      rfl
    obtain ⟨out, map, t', hset, hheld⟩ := h.set hname hv fun v x hx => hx
    simp only [if_neg hmem, hset, Exec.ok_bind]
    exact ⟨_, t', rfl, hheld⟩

theorem HoldsTokens.parseTokens (h : HoldsTokens junk table t []) {arg : Block}
    {argv : List (Option Nat)} (hat : TokensAt arg argv 0 ts) {n : Nat} (hn : n ≤ ts.length) :
    ∃ table' t', Boot.parseTokens junk arg argv table n = .ok table' ∧
      HoldsTokens junk table' t' (ts.take n) := by
  induction n with
  | zero => exact ⟨table, t, rfl, h⟩
  | succ n ih =>
    obtain ⟨table₁, t₁, hrun, hheld⟩ := ih (by omega)
    obtain ⟨q, hq, htoken⟩ := hat n (by omega)
    rw [Nat.zero_add] at hq
    obtain ⟨table₂, t₂, hstep, hheld₂⟩ := hheld.parseToken htoken
    refine ⟨table₂, t₂, ?_, ?_⟩
    · rw [Boot.parseTokens, hrun, Exec.ok_bind, hq]
      exact hstep
    · rwa [List.take_succ_eq_append_getElem (by omega)]

theorem holdsTokens_create (junk : Nat → UInt8) :
    HoldsTokens junk ⟨hashmapCreate junk 10, []⟩ (List.replicate 10 []) [] := by
  constructor
  case represents =>
    exact represents_create junk _ _ (by decide) (by decide)
  case missing =>
    intro k _
    exact HashTable.find_empty 10 k
  case present =>
    intro k token hk
    cases hk

theorem HoldsTokens.answers (h : HoldsTokens junk table t ts) : Answers (some table) ts := by
  have hlawful := stringFuncs_lawful junk
  constructor
  · intro karg k hk
    have hdenotes : DenotesText karg ⟨k, hk.1⟩ := hk
    rw [argsPresent, h.represents.has hlawful hdenotes, ← lastToken_isSome]
    congr 1
    cases hlast : lastToken ts k with
    | none =>
      rw [h.missing ⟨k, hk.1⟩ hlast]
      rfl
    | some token =>
      obtain ⟨v, hfind, _⟩ := h.present ⟨k, hk.1⟩ token hlast
      rw [hfind]
      rfl
  · intro karg k hk
    have hdenotes : DenotesText karg ⟨k, hk.1⟩ := hk
    constructor
    constructor
    · rw [argsValue, h.represents.get hlawful hdenotes]
      rfl
    · cases hlast : lastToken ts k with
      | none =>
        rw [h.missing ⟨k, hk.1⟩ hlast]
        trivial
      | some token =>
        obtain ⟨v, hfind, hv⟩ := h.present ⟨k, hk.1⟩ token hlast
        rw [hfind]
        exact hv.pointsTo

end Run

theorem space_ne_zero : space ≠ 0 := by decide

theorem not_parsesLine {line : List UInt8} (hnul : 0 ∉ line)
    (hmany : 1024 ≤ (tokens space line).length) : ¬ ParsesLine line := by
  intro h
  have hcopy : CString (line ++ [0]) line := cString_terminated hnul
  have hlen : (List.replicate 1024 (none : Option Nat)).length = 1024 := List.length_replicate
  obtain ⟨table, hrun, _⟩ := h (fun _ => 0) _ _ hlen hcopy
  simp only [argsParse, strdup_eq _ hcopy, Exec.ok_bind] at hrun
  cases htok : tokenize (line ++ [0]) space (List.replicate 1024 none) with
  | error e =>
    rw [htok] at hrun
    cases hrun
  | ok out => exact tokenize_ne_ok space_ne_zero hcopy (by omega) (by omega) out htok

/-- The command line is parsed, and the functions answer from it, exactly when it has at most 1023
tokens. -/
theorem parsesLine_iff {line : List UInt8} (hnul : 0 ∉ line) :
    ParsesLine line ↔ (tokens space line).length ≤ 1023 := by
  constructor
  · intro h
    by_contra hmany
    exact not_parsesLine hnul (by omega) h
  · intro hfew junk argv arg hargv harg
    have hcopy : CString (line ++ [0]) line := cString_terminated hnul
    obtain ⟨str, buf, htok, hat⟩ :=
      @tokenize_eq space (line ++ [0]) line argv space_ne_zero hcopy (by omega)
    obtain ⟨table, t, hrun, hheld⟩ :=
      (holdsTokens_create junk).parseTokens hat (Nat.le_refl _)
    rw [List.take_length] at hheld
    refine ⟨some table, ?_, hheld.answers⟩
    simp only [argsParse, strdup_eq junk harg, Exec.ok_bind, htok]
    change (Boot.parseTokens junk str buf ⟨hashmapCreate junk 10, []⟩ _ >>= _) = _
    rw [hrun]
    rfl

/-- The line `a=1 b a=2`. -/
theorem parsesLine_iff_three :
    ParsesLine [97, 61, 49, 32, 98, 32, 97, 61, 50] ↔
      (tokens space [97, 61, 49, 32, 98, 32, 97, 61, 50]).length ≤ 1023 :=
  parsesLine_iff (by decide)

/-- A line of 1024 tokens `a`. -/
theorem not_parsesLine_letters :
    0 ∉ joined space (List.replicate 1024 [97]) ∧
      ¬ ParsesLine (joined space (List.replicate 1024 [97])) := by
  have hnul : 0 ∉ joined space (List.replicate 1024 [97]) := by
    intro h
    obtain ⟨t, ht, h0⟩ := List.mem_flatMap.1 h
    rw [List.eq_of_mem_replicate ht] at h0
    simp [space] at h0
  have htokens : tokens space (joined space (List.replicate 1024 [97])) =
      List.replicate 1024 [97] := by
    apply tokens_joined
    intro t ht
    rw [List.eq_of_mem_replicate ht]
    decide
  constructor
  · exact hnul
  · apply not_parsesLine hnul
    rw [htokens, List.length_replicate]

end KernelTest.Boot
