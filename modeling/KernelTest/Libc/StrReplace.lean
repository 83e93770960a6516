import KernelTest.Framework.Occurrences
import KernelTest.Libc.Split

/-!
# Replacing in a string

`str_replace` counts the occurrences of a string in a first pass, allocates a block for the result, and copies
the parts between the occurrences and the replacements into it in a second pass.
-/

namespace KernelTest.Libc

/-- The first place of the text `pat` in a string. -/
def findText (pat : List UInt8) : Block → Except Fault (Option Nat)
  | [] => .error .overrun
  | c :: h =>
    if pat <+: c :: h then .ok (some 0)
    else if c = 0 then .ok none
    else (findText pat h).map (·.map (· + 1))

/-- `strstr(h, n)`, taken to find the first occurrence, as an offset from `h`. -/
def strstr (h n : Block) : Except Fault (Option Nat) := do
  let l ← strlen n
  findText (n.take l) h

/-- `strncpy(dest + p, src, n)`, which does not pad. -/
def strncpy : Nat → Block → Block → Nat → Except Fault Block
  | 0, _, dest, _ => pure dest
  | _ + 1, [], _, _ => .error .overrun
  | n + 1, c :: src, dest, p =>
    if c = 0 then pure dest
    else do
      let dest ← storeByte dest p c
      strncpy n src dest (p + 1)

/-- The first pass, from the pointer `ins` on. -/
def countOccurrences (rep : Block) (lenRep : Nat) : Nat → Block → Nat → Except Fault Nat
  | 0, _, _ => .error .diverged
  | fuel + 1, ins, count => do
    match ← strstr ins rep with
    | none => pure count
    | some n => countOccurrences rep lenRep fuel (ins.drop (n + lenRep)) (count + 1)

/-- The second pass, for `count` occurrences from the pointer `orig` on, and the copy of what is left. -/
def replaceLoop (rep subst : Block) (lenRep lenSubst : Nat) : Nat → Block → Block → Nat → Except Fault Block
  | 0, orig, result, tmp => copyString result tmp orig
  | count + 1, orig, result, tmp => do
    match ← strstr orig rep with
    | none => throw .overrun
    | some lenFront => do
      let result ← strncpy lenFront orig result tmp
      let result ← copyString result (tmp + lenFront) subst
      replaceLoop rep subst lenRep lenSubst count (orig.drop (lenFront + lenRep)) result (tmp + lenFront + lenSubst)

/-- `str_replace(orig, rep, with)`: a null pointer for `rep` or `with` is the empty string. The size is computed
in 32 bits. -/
def strReplace (junk : Nat → UInt8) (fuel : Nat) (orig rep subst : Option Block) :
    Except Fault (Option Block) :=
  match orig with
  | none => pure none
  | some orig => do
    let rep := rep.getD [0]
    let lenRep ← strlen rep
    let subst := subst.getD [0]
    let lenSubst ← strlen subst
    let count ← countOccurrences rep lenRep fuel orig 0
    let n ← strlen orig
    let size := ((n : Int) + ((lenSubst : Int) - lenRep) * count + 1) % 2 ^ 32
    let result ← replaceLoop rep subst lenRep lenSubst count orig (malloc junk size.toNat) 0
    pure (some result)

/-- What a string pointer points to, with any bytes behind the string. -/
def pointed (s : Option (List UInt8)) (r : Block) : Option Block := s.map fun s => s ++ 0 :: r

/-- `str_replace` returns, and what it returns is a block with nothing but the string with the leftmost
occurrences replaced, and its terminator. -/
def ReplacesWell (orig : List UInt8) (rep subst : Option (List UInt8)) : Prop :=
  ∀ (junk : Nat → UInt8) (r r' r'' : Block), ∃ n, ∀ fuel ≥ n,
    strReplace junk fuel (some (orig ++ 0 :: r)) (pointed rep r') (pointed subst r'') =
      .ok (some (replaceAll (rep.getD []) (subst.getD []) orig ++ [0]))

section Passes

variable {pat new s a t : List UInt8} {r r' : Block} {c : UInt8} {n k : Nat}

theorem prefix_string_iff (hpat : 0 ∉ pat) : pat <+: s ++ 0 :: r ↔ pat <+: s := by
  constructor
  · intro h
    by_cases hlen : pat.length ≤ s.length
    · exact List.prefix_of_prefix_length_le h (List.prefix_append s _) hlen
    · have hwhole : s ++ [0] <+: s ++ 0 :: r := ⟨r, by simp⟩
      have hlonger : s ++ [0] <+: pat := List.prefix_of_prefix_length_le hwhole h (by simp; omega)
      exact absurd (hlonger.subset (by simp)) hpat
  · exact fun h => h.trans (List.prefix_append s _)

theorem findText_eq (hpat : 0 ∉ pat) (hs : 0 ∉ s) (r : Block) :
    findText pat (s ++ 0 :: r) = .ok ((cutAt pat s).map (·.1.length)) := by
  induction s with
  | nil =>
    have hpre : pat <+: 0 :: r ↔ pat = [] := by
      have h := prefix_string_iff (s := []) (r := r) hpat
      rwa [List.nil_append, List.prefix_nil] at h
    rw [List.nil_append, findText, cutAt]
    simp only [hpre]
    split <;> rfl
  | cons c s ih =>
    rw [List.mem_cons, not_or] at hs
    have hpre : pat <+: c :: (s ++ 0 :: r) ↔ pat <+: c :: s := prefix_string_iff (s := c :: s) hpat
    rw [List.cons_append, findText, cutAt]
    simp only [hpre]
    split
    · rfl
    · rw [if_neg (Ne.symm hs.1), ih hs.2]
      cases cutAt pat s <;> rfl

theorem strstr_eq (hpat : 0 ∉ pat) (hs : 0 ∉ s) (r r' : Block) :
    strstr (s ++ 0 :: r) (pat ++ 0 :: r') = .ok ((cutAt pat s).map (·.1.length)) := by
  rw [strstr, strlen_eq ⟨hpat, r', rfl⟩, Exec.ok_bind, List.take_left, findText_eq hpat hs]

theorem strncpy_eq (ha : 0 ∉ a) (x y t : Block) : strncpy a.length (a ++ t) (x ++ y) x.length =
    if a.length ≤ y.length then .ok (x ++ (a ++ y.drop a.length)) else .error .overrun := by
  induction a generalizing x y with
  | nil => simp [strncpy]; rfl
  | cons c a ih =>
    rw [List.mem_cons, not_or] at ha
    rw [List.length_cons, List.cons_append, strncpy, if_neg (Ne.symm ha.1)]
    cases y with
    | nil => simp [storeByte]; rfl
    | cons d y =>
      have h := ih ha.2 (x ++ [c]) y
      rw [List.append_assoc, List.length_append, List.append_assoc] at h
      rw [storeByte_append, Exec.ok_bind]
      simpa using h

theorem countOccurrences_nil (hs : 0 ∉ s) (fuel k : Nat) :
    countOccurrences (0 :: r') 0 fuel (s ++ 0 :: r) k = .error .diverged := by
  induction fuel generalizing k with
  | zero => rfl
  | succ fuel ih =>
    have hfound : strstr (s ++ 0 :: r) (0 :: r') = .ok (some 0) := by
      have h : strstr (s ++ 0 :: r) ([] ++ 0 :: r') = _ := strstr_eq (by simp) hs r r'
      rwa [cutAt_nil_left] at h
    rw [countOccurrences, hfound]
    exact ih (k + 1)

theorem drop_cut (hcut : cutAt pat s = some (a, t)) (r : Block) :
    (s ++ 0 :: r).drop (a.length + pat.length) = t ++ 0 :: r := by
  rw [eq_of_cutAt hcut, ← List.length_append, ← List.append_assoc, List.append_assoc, List.drop_left]

theorem countOccurrences_eq (hpat : pat ≠ []) (hnul : 0 ∉ pat) (hs : 0 ∉ s) (hn : occurrences pat s < n) (k : Nat) :
    countOccurrences (pat ++ 0 :: r') pat.length n (s ++ 0 :: r) k = .ok (k + occurrences pat s) := by
  induction s using occurrences_induction hpat generalizing n k with
  | last s hcut =>
    obtain ⟨n, rfl⟩ := Nat.exists_eq_succ_of_ne_zero (Nat.ne_of_gt (Nat.lt_of_le_of_lt (Nat.zero_le _) hn))
    rw [countOccurrences, strstr_eq hnul hs, hcut, occurrences_none hcut]
    rfl
  | next s a t hcut ih =>
    obtain ⟨n, rfl⟩ := Nat.exists_eq_succ_of_ne_zero (Nat.ne_of_gt (Nat.lt_of_le_of_lt (Nat.zero_le _) hn))
    have ht : 0 ∉ t := fun h => hs (by simp [eq_of_cutAt hcut, h])
    rw [occurrences_some hpat hcut] at hn
    rw [countOccurrences, strstr_eq hnul hs, hcut, occurrences_some hpat hcut]
    change countOccurrences _ _ n ((s ++ 0 :: r).drop (a.length + pat.length)) (k + 1) = _
    rw [drop_cut hcut, ih ht (by omega), Nat.add_right_comm, Nat.add_assoc]

theorem replaceLoop_eq (hpat : pat ≠ []) (hnul : 0 ∉ pat) (hnew : 0 ∉ new) (hs : 0 ∉ s) (x y r r' r'' : Block) :
    replaceLoop (pat ++ 0 :: r') (new ++ 0 :: r'') pat.length new.length (occurrences pat s) (s ++ 0 :: r)
        (x ++ y) x.length =
      if (replaceAll pat new s).length + 1 ≤ y.length then
        .ok (x ++ (replaceAll pat new s ++ 0 :: y.drop ((replaceAll pat new s).length + 1)))
      else .error .overrun := by
  induction s using occurrences_induction hpat generalizing x y with
  | last s hcut =>
    rw [occurrences_none hcut, replaceLoop, replaceAll_none hcut]
    exact copyString_eq hs x y r
  | next s a t hcut ih =>
    have hsplit := eq_of_cutAt hcut
    have ha : 0 ∉ a := fun h => hs (by simp [hsplit, h])
    have ht : 0 ∉ t := fun h => hs (by simp [hsplit, h])
    rw [occurrences_some hpat hcut, replaceLoop, strstr_eq hnul hs, hcut, replaceAll_some hpat hcut]
    have hfront : strncpy a.length (s ++ 0 :: r) (x ++ y) x.length =
        if a.length ≤ y.length then .ok (x ++ (a ++ y.drop a.length)) else .error .overrun := by
      rw [hsplit, List.append_assoc]
      exact strncpy_eq ha x y _
    have hsubst : ∀ z : Block, copyString (x ++ (a ++ z)) (x.length + a.length) (new ++ 0 :: r'') =
        if new.length + 1 ≤ z.length then .ok (x ++ a ++ (new ++ 0 :: z.drop (new.length + 1)))
        else .error .overrun := by
      intro z
      rw [← List.append_assoc, ← List.length_append]
      exact copyString_eq hnew (x ++ a) z r''
    have hlen : (a ++ (new ++ replaceAll pat new t)).length =
        a.length + (new.length + (replaceAll pat new t).length) := by
      rw [List.length_append, List.length_append]
    change (strncpy a.length (s ++ 0 :: r) (x ++ y) x.length >>= _) = _
    rw [hfront, hlen]
    by_cases hroom : a.length ≤ y.length
    · rw [if_pos hroom, Exec.ok_bind, hsubst, List.length_drop]
      by_cases hroom' : new.length + 1 ≤ y.length - a.length
      · have hrest := ih ht (x ++ a ++ new) (0 :: (y.drop a.length).drop (new.length + 1))
        have hx : (x ++ a ++ new).length = x.length + a.length + new.length := by
          rw [List.length_append, List.length_append]
        have hy : (0 :: (y.drop a.length).drop (new.length + 1)).length = y.length - a.length - new.length := by
          rw [List.length_cons, List.length_drop, List.length_drop]
          omega
        rw [List.append_assoc (x ++ a), hx, hy] at hrest
        rw [if_pos hroom', Exec.ok_bind, drop_cut hcut, hrest]
        by_cases hfit : (replaceAll pat new t).length + 1 ≤ y.length - a.length - new.length
        · rw [if_pos hfit, if_pos (by omega), List.drop_succ_cons, List.drop_drop, List.drop_drop]
          have hskip : a.length + (new.length + 1) + (replaceAll pat new t).length =
              a.length + (new.length + (replaceAll pat new t).length) + 1 := by omega
          rw [← Nat.add_assoc] at hskip
          simp [hskip, ← Nat.add_assoc]
        · rw [if_neg hfit, if_neg (by omega)]
      · rw [if_neg hroom', if_neg (by omega)]
        rfl
    · rw [if_neg hroom, if_neg (by omega)]
      rfl

theorem size_eq (pat new s : List UInt8) :
    (((s.length : Int) + ((new.length : Int) - pat.length) * occurrences pat s + 1) % 2 ^ 32).toNat =
      ((replaceAll pat new s).length + 1) % 2 ^ 32 := by
  have hlen : ((replaceAll pat new s).length : Int) + occurrences pat s * pat.length =
      s.length + occurrences pat s * new.length := by exact_mod_cast length_replaceAll pat new s
  have hsize : (s.length : Int) + ((new.length : Int) - pat.length) * occurrences pat s + 1 =
      ((replaceAll pat new s).length + 1 : Nat) := by
    push_cast
    rw [Int.sub_mul, Int.mul_comm (new.length : Int), Int.mul_comm (pat.length : Int)]
    omega
  rw [hsize]
  omega

end Passes

section Result

variable {pat new s : List UInt8} {r : Block} {n : Nat}

theorem pointed_getD (s : Option (List UInt8)) (r : Block) :
    ∃ r', (pointed s r).getD [0] = s.getD [] ++ 0 :: r' := by
  cases s with
  | none => exact ⟨[], rfl⟩
  | some s => exact ⟨r, rfl⟩

theorem strReplace_nil (junk : Nat → UInt8) (fuel : Nat) (hs : 0 ∉ s) {rep subst : Option (List UInt8)}
    (hrep : rep.getD [] = []) (hsubst : 0 ∉ subst.getD []) (r r' r'' : Block) :
    strReplace junk fuel (some (s ++ 0 :: r)) (pointed rep r') (pointed subst r'') = .error .diverged := by
  obtain ⟨q, hq⟩ := pointed_getD rep r'
  obtain ⟨q', hq'⟩ := pointed_getD subst r''
  rw [hrep, List.nil_append] at hq
  have hlen : strlen (0 :: q) = .ok 0 := rfl
  rw [strReplace, hq, hq']
  dsimp only
  rw [hlen, Exec.ok_bind, strlen_eq ⟨hsubst, q', rfl⟩, Exec.ok_bind, countOccurrences_nil hs]
  rfl

theorem strReplace_eq (junk : Nat → UInt8) (hs : 0 ∉ s) {rep subst : Option (List UInt8)} (hpat : rep.getD [] ≠ [])
    (hrep : 0 ∉ rep.getD []) (hsubst : 0 ∉ subst.getD []) (hn : occurrences (rep.getD []) s < n) (r r' r'' : Block) :
    strReplace junk n (some (s ++ 0 :: r)) (pointed rep r') (pointed subst r'') =
      if (replaceAll (rep.getD []) (subst.getD []) s).length + 1 < 2 ^ 32 then
        .ok (some (replaceAll (rep.getD []) (subst.getD []) s ++ [0]))
      else .error .overrun := by
  obtain ⟨q, hq⟩ := pointed_getD rep r'
  obtain ⟨q', hq'⟩ := pointed_getD subst r''
  generalize rep.getD [] = pat at *
  generalize subst.getD [] = new at *
  rw [strReplace, hq, hq']
  dsimp only
  rw [strlen_eq ⟨hrep, q, rfl⟩, Exec.ok_bind, strlen_eq ⟨hsubst, q', rfl⟩, Exec.ok_bind,
    countOccurrences_eq hpat hrep hs hn, Exec.ok_bind, strlen_eq ⟨hs, r, rfl⟩, Exec.ok_bind, Nat.zero_add, size_eq]
  have hloop := replaceLoop_eq hpat hrep hsubst hs [] (malloc junk (((replaceAll pat new s).length + 1) % 2 ^ 32)) r q q'
  rw [List.nil_append, List.length_nil, length_malloc] at hloop
  rw [hloop]
  by_cases hlt : (replaceAll pat new s).length + 1 < 2 ^ 32
  · have hdrop : (malloc junk ((replaceAll pat new s).length + 1)).drop ((replaceAll pat new s).length + 1) = [] :=
      List.drop_of_length_le (length_malloc _ _).le
    rw [if_pos hlt, Nat.mod_eq_of_lt hlt, if_pos (Nat.le_refl _), hdrop]
    rfl
  · rw [if_neg hlt, if_neg (by omega)]
    rfl

/-- `str_replace` works exactly if the pattern is neither null nor empty, and the length of the result with its
terminator can be represented. -/
theorem replacesWell_iff (s : MemText) (rep subst : Option MemText) :
    ReplacesWell s.1 (rep.map (·.1)) (subst.map (·.1)) ↔ (rep.map (·.1)).getD [] ≠ [] ∧
      (replaceAll ((rep.map (·.1)).getD []) ((subst.map (·.1)).getD []) s.1).length + 1 < 2 ^ 32 := by
  have hnul : ∀ t : Option MemText, 0 ∉ (t.map (·.1)).getD [] := by
    intro t
    cases t with
    | none => simp
    | some t => exact t.2.1
  constructor
  · intro h
    obtain ⟨n, hn⟩ := h (fun _ => 0) [] [] []
    have hpat : (rep.map (·.1)).getD [] ≠ [] := by
      intro hpat
      have hrun := hn n (Nat.le_refl n)
      rw [strReplace_nil _ n s.2.1 hpat (hnul subst)] at hrun
      cases hrun
    refine ⟨hpat, ?_⟩
    by_contra hlong
    have hrun := hn (n + occurrences ((rep.map (·.1)).getD []) s.1 + 1) (by omega)
    rw [strReplace_eq _ s.2.1 hpat (hnul rep) (hnul subst) (by omega), if_neg hlong] at hrun
    cases hrun
  · intro ⟨hpat, hlong⟩ junk r r' r''
    refine ⟨occurrences ((rep.map (·.1)).getD []) s.1 + 1, fun fuel hfuel => ?_⟩
    rw [strReplace_eq junk s.2.1 hpat (hnul rep) (hnul subst) hfuel, if_pos hlong]

/-- Replacing a null pointer in an empty string goes on for ever. -/
theorem not_replacesWell_null : ¬ ReplacesWell [] none none := by
  intro h
  obtain ⟨n, hn⟩ := h (fun _ => 0) [] [] []
  have hrun := hn n (Nat.le_refl n)
  rw [strReplace_nil _ n (by simp) rfl (by simp)] at hrun
  cases hrun

end Result

end KernelTest.Libc
