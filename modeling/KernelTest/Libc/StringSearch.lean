import KernelTest.Libc.StrReplace
import KernelTest.Libc.TwoWay

/-!
# Searching for a string

`strstr` with its searches for needles of two, three and four bytes, which shift the haystack through a
register, and the two-way search for longer ones. It finds what the `strstr` that `str_replace` is modelled
with finds.
-/

namespace KernelTest.Libc.Raw

open Words

/-- `len` bytes from the address on. -/
def loadBytes (mem : Memory) : Nat → Nat → Except Fault (List UInt8)
  | _, 0 => .ok []
  | a, len + 1 => do
    let b ← load mem a
    let bs ← loadBytes mem (a + 1) len
    return b :: bs

/-- `for (; *h && hw != nw; hw = push(hw, *++h))`. -/
def shiftLoop (push : Nat → UInt8 → Nat) (mem : Memory) (nw : Nat) : Nat → Nat → Nat → Except Fault Nat
  | 0, _, _ => .error .diverged
  | fuel + 1, h, hw => do
    let c ← load mem h
    if c ≠ 0 ∧ hw ≠ nw then
      let d ← load mem (h + 1)
      shiftLoop push mem nw fuel (h + 1) (push hw d)
    else return h

/-- The searches for `d + 1` bytes, which differ in how these are packed into a register. -/
def strstrShort (d : Nat) (pack : List UInt8 → Nat) (push : Nat → UInt8 → Nat) (fuel : Nat) (mem : Memory)
    (h n : Nat) : Except Fault (Option Nat) := do
  let nw ← loadBytes mem n (d + 1)
  let hw ← loadBytes mem h (d + 1)
  let r ← shiftLoop push mem (pack nw) fuel (h + d) (pack hw)
  let c ← load mem r
  return if c ≠ 0 then some (r - d) else none

/-- `n[0] << 8 | n[1]` in `uint16_t`, and the like with four bytes. -/
def pack2b : List UInt8 → Nat
  | [a, b] => a.toNat <<< 8 ||| b.toNat
  | _ => 0

def pack3b : List UInt8 → Nat
  | [a, b, c] => a.toNat <<< 24 ||| b.toNat <<< 16 ||| c.toNat <<< 8
  | _ => 0

def pack4b : List UInt8 → Nat
  | [a, b, c, d] => a.toNat <<< 24 ||| b.toNat <<< 16 ||| c.toNat <<< 8 ||| d.toNat
  | _ => 0

/-- `strstr_2b(h, n)`. -/
def strstr2b := strstrShort 1 pack2b fun hw b => (hw <<< 8 ||| b.toNat) % 2 ^ 16

/-- `strstr_3b(h, n)`. -/
def strstr3b := strstrShort 2 pack3b fun hw b => (hw ||| b.toNat) <<< 8 % 2 ^ 32

/-- `strstr_4b(h, n)`. -/
def strstr4b := strstrShort 3 pack4b fun hw b => (hw <<< 8 ||| b.toNat) % 2 ^ 32

/-- `strstr(h, n)`. -/
def strstr (fuel : Nat) (mem : Memory) (shift : UInt8 → Nat) (h n : Nat) : Except Fault (Option Nat) := do
  let n₀ ← load mem n
  if n₀ = 0 then return some h
  else
    match ← strchr fuel mem h n₀ with
    | none => return none
    | some h =>
      let n₁ ← load mem (n + 1)
      if n₁ = 0 then return some h
      else
        let h₁ ← load mem (h + 1)
        if h₁ = 0 then return none
        else
          let n₂ ← load mem (n + 2)
          if n₂ = 0 then strstr2b fuel mem h n
          else
            let h₂ ← load mem (h + 2)
            if h₂ = 0 then return none
            else
              let n₃ ← load mem (n + 3)
              if n₃ = 0 then strstr3b fuel mem h n
              else
                let h₃ ← load mem (h + 3)
                if h₃ = 0 then return none
                else
                  let n₄ ← load mem (n + 4)
                  if n₄ = 0 then strstr4b fuel mem h n
                  else strstrTwoway fuel mem shift h n

section Short

variable {mem : Memory} {push : Nat → UInt8 → Nat} {pack : List UInt8 → Nat} {d e n h h₀ a fuel : Nat}

def bytesAt (mem : Memory) : Nat → Nat → List UInt8
  | _, 0 => []
  | a, len + 1 => byteAt mem a :: bytesAt mem (a + 1) len

theorem loadBytes_eq {len : Nat} (hm : ∀ i < len, mem (a + i) ≠ none) :
    loadBytes mem a len = .ok (bytesAt mem a len) := by
  induction len generalizing a with
  | zero => rfl
  | succ len ih =>
    have hfirst : mem a ≠ none := hm 0 (Nat.succ_pos len)
    have hrest : ∀ i < len, mem (a + 1 + i) ≠ none := by
      intro i hi
      have := hm (i + 1) (by omega)
      rwa [show a + (i + 1) = a + 1 + i by omega] at this
    rw [loadBytes, load_eq hfirst, Exec.ok_bind, ih hrest]
    rfl

/-- The word stands at `a` if the bytes there are those of the needle. -/
theorem bytesAt_eq_iff {len : Nat} :
    bytesAt mem a len = bytesAt mem n len ↔ Occurs (fun x => byteAt mem (n + x)) len (byteAt mem) a := by
  induction len generalizing a n with
  | zero => exact iff_of_true rfl fun x hx => absurd hx (Nat.not_lt_zero x)
  | succ len ih =>
    rw [bytesAt, bytesAt, List.cons.injEq, ih]
    constructor
    · rintro ⟨hfirst, hrest⟩ x hx
      cases x with
      | zero => exact hfirst
      | succ x =>
        have hlater : byteAt mem (a + 1 + x) = byteAt mem (n + 1 + x) := hrest x (by omega)
        rwa [show a + 1 + x = a + (x + 1) by omega, show n + 1 + x = n + (x + 1) by omega] at hlater
    · intro hocc
      refine ⟨hocc 0 (Nat.succ_pos len), fun x hx => ?_⟩
      have hlater : byteAt mem (a + (x + 1)) = byteAt mem (n + (x + 1)) := hocc (x + 1) (by omega)
      rwa [show a + (x + 1) = a + 1 + x by omega, show n + (x + 1) = n + 1 + x by omega] at hlater

theorem shiftLoop_eq {V : Nat → Nat} (nw : Nat) (hpush : ∀ a, push (V a) (byteAt mem (a + d + 1)) = V (a + 1))
    (hh : StringAt mem h₀ e) (ha : h₀ ≤ a + d) (hae : a + d ≤ e) (hfuel : e - (a + d) < fuel) :
    ∃ b, shiftLoop push mem nw fuel (a + d) (V a) = .ok (b + d) ∧ a ≤ b ∧ b + d ≤ e ∧
      (∀ x, a ≤ x → x < b → V x ≠ nw) ∧ (b + d = e ∨ V b = nw) := by
  induction fuel generalizing a with
  | zero => omega
  | succ fuel ih =>
    have hend : byteAt mem (a + d) ≠ 0 ↔ a + d ≠ e := not_congr (hh.zero_iff ha hae)
    rw [shiftLoop, hh.load_eq ha hae, Exec.ok_bind]
    simp only [hend]
    by_cases hgo : a + d ≠ e ∧ V a ≠ nw
    · rw [if_pos hgo, hh.load_eq (by omega) (by omega), Exec.ok_bind, hpush, Nat.add_right_comm]
      obtain ⟨b, hrun, hab, hbe, hnone, hend⟩ := ih (a := a + 1) (by omega) (by omega) (by omega)
      refine ⟨b, hrun, by omega, hbe, fun x hax hxb => ?_, hend⟩
      by_cases hx : x = a
      · rw [hx]
        exact hgo.2
      · exact hnone x (by omega) hxb
    · rw [if_neg hgo]
      exact ⟨a, rfl, Nat.le_refl a, hae, fun x hax hxa => absurd hax (by omega), by tauto⟩

theorem strstrShort_first (hpush : ∀ a, push (pack (bytesAt mem a (d + 1))) (byteAt mem (a + d + 1)) =
      pack (bytesAt mem (a + 1) (d + 1)))
    (hinj : ∀ a, pack (bytesAt mem a (d + 1)) = pack (bytesAt mem n (d + 1)) →
      bytesAt mem a (d + 1) = bytesAt mem n (d + 1))
    (hh : StringAt mem h₀ e) (hn : StringAt mem n (n + (d + 1))) (hstart : h₀ ≤ h) (hend : h + d ≤ e)
    (hfuel : e - h < fuel) : ∃ r, strstrShort d pack push fuel mem h n = .ok r ∧
      FirstPlace mem e (fun x => byteAt mem (n + x)) (d + 1) h r := by
  obtain ⟨b, hrun, hhb, hbe, hnone, hlast⟩ := shiftLoop_eq (pack (bytesAt mem n (d + 1))) hpush hh
    (by omega : h₀ ≤ h + d) hend (by omega : e - (h + d) < fuel)
  have hmissed : NoneIn mem e (fun x => byteAt mem (n + x)) (d + 1) h b := by
    intro a hha hab _ hocc
    rw [← bytesAt_eq_iff] at hocc
    exact hnone a hha hab (congrArg pack hocc)
  rw [strstrShort, loadBytes_eq fun i hi => hn.mapped _ (by omega) (by omega), Exec.ok_bind,
    loadBytes_eq fun i hi => hh.mapped _ (by omega) (by omega), Exec.ok_bind, hrun, Exec.ok_bind,
    hh.load_eq (by omega) hbe, Exec.ok_bind]
  by_cases he : b + d = e
  · rw [if_neg (not_not.mpr ((hh.zero_iff (by omega) hbe).mpr he))]
    exact ⟨none, rfl, fun a hha _ hal => hmissed a hha (by omega) hal⟩
  · rw [if_pos ((hh.zero_iff (by omega) hbe).not.mpr he), Nat.add_sub_cancel]
    exact ⟨some b, rfl, hhb, by omega, bytesAt_eq_iff.mp (hinj b (hlast.resolve_left he)), hmissed⟩

/-- Bits and bytes that do not meet are added. -/
theorem or_eq_add {k x y : Nat} (hx : x % 2 ^ k = 0) (hy : y < 2 ^ k) : x ||| y = x + y := by
  obtain ⟨q, rfl⟩ := Nat.dvd_of_mod_eq_zero hx
  exact (Nat.two_pow_add_eq_or_of_lt hy q).symm

theorem pack2b_eq (a b : UInt8) : pack2b [a, b] = a.toNat * 256 + b.toNat := by
  have hb := b.toNat_lt
  rw [pack2b, Nat.shiftLeft_eq, or_eq_add (k := 8) (by omega) hb]

theorem pack3b_eq (a b c : UInt8) :
    pack3b [a, b, c] = a.toNat * 16777216 + b.toNat * 65536 + c.toNat * 256 := by
  have hb := b.toNat_lt
  have hc := c.toNat_lt
  have hab := or_eq_add (k := 24) (by omega) (by omega : b.toNat * 2 ^ 16 < _) (x := a.toNat * 2 ^ 24)
  rw [pack3b, Nat.shiftLeft_eq, Nat.shiftLeft_eq, Nat.shiftLeft_eq, hab, or_eq_add (k := 16) (by omega) (by omega)]
  omega

theorem pack4b_eq (a b c d : UInt8) :
    pack4b [a, b, c, d] = a.toNat * 16777216 + b.toNat * 65536 + c.toNat * 256 + d.toNat := by
  have hd := d.toNat_lt
  have habc := pack3b_eq a b c
  rw [pack3b] at habc
  rw [pack4b, habc, or_eq_add (k := 8) (by omega) hd]

variable (hh : StringAt mem h₀ e) (hstart : h₀ ≤ h) (hfuel : e - h < fuel)
include hh hstart hfuel

theorem strstr2b_first (hn : StringAt mem n (n + 2)) (hend : h + 1 ≤ e) :
    ∃ r, strstr2b fuel mem h n = .ok r ∧ FirstPlace mem e (fun x => byteAt mem (n + x)) 2 h r := by
  refine strstrShort_first (fun a => ?_) (fun a heq => ?_) hh hn hstart hend hfuel
  · have h₁ := (byteAt mem (a + 1)).toNat_lt
    have h₂ := (byteAt mem (a + 1 + 1)).toNat_lt
    simp only [bytesAt, pack2b_eq, Nat.shiftLeft_eq]
    rw [or_eq_add (k := 8) (by omega) h₂]
    omega
  · have h₁ := (byteAt mem (a + 1)).toNat_lt
    have h₂ := (byteAt mem (n + 1)).toNat_lt
    simp only [bytesAt, pack2b_eq, List.cons.injEq, ← UInt8.toNat_inj, and_true] at heq ⊢
    omega

theorem strstr3b_first (hn : StringAt mem n (n + 3)) (hend : h + 2 ≤ e) :
    ∃ r, strstr3b fuel mem h n = .ok r ∧ FirstPlace mem e (fun x => byteAt mem (n + x)) 3 h r := by
  refine strstrShort_first (fun a => ?_) (fun a heq => ?_) hh hn hstart hend hfuel
  · have h₁ := (byteAt mem a).toNat_lt
    have h₂ := (byteAt mem (a + 1)).toNat_lt
    have h₃ := (byteAt mem (a + 1 + 1)).toNat_lt
    have h₄ := (byteAt mem (a + 1 + 1 + 1)).toNat_lt
    simp only [bytesAt, pack3b_eq, Nat.shiftLeft_eq, show a + 2 + 1 = a + 1 + 1 + 1 by omega]
    rw [or_eq_add (k := 8) (by omega) h₄]
    omega
  · have h₁ := (byteAt mem (a + 1)).toNat_lt
    have h₂ := (byteAt mem (n + 1)).toNat_lt
    have h₃ := (byteAt mem (a + 1 + 1)).toNat_lt
    have h₄ := (byteAt mem (n + 1 + 1)).toNat_lt
    simp only [bytesAt, pack3b_eq, List.cons.injEq, ← UInt8.toNat_inj, and_true] at heq ⊢
    omega

theorem strstr4b_first (hn : StringAt mem n (n + 4)) (hend : h + 3 ≤ e) :
    ∃ r, strstr4b fuel mem h n = .ok r ∧ FirstPlace mem e (fun x => byteAt mem (n + x)) 4 h r := by
  refine strstrShort_first (fun a => ?_) (fun a heq => ?_) hh hn hstart hend hfuel
  · have h₁ := (byteAt mem a).toNat_lt
    have h₂ := (byteAt mem (a + 1)).toNat_lt
    have h₃ := (byteAt mem (a + 1 + 1)).toNat_lt
    have h₄ := (byteAt mem (a + 1 + 1 + 1)).toNat_lt
    have h₅ := (byteAt mem (a + 1 + 1 + 1 + 1)).toNat_lt
    simp only [bytesAt, pack4b_eq, Nat.shiftLeft_eq, show a + 3 + 1 = a + 1 + 1 + 1 + 1 by omega]
    rw [or_eq_add (k := 8) (by omega) h₅]
    omega
  · have h₁ := (byteAt mem (a + 1)).toNat_lt
    have h₂ := (byteAt mem (n + 1)).toNat_lt
    have h₃ := (byteAt mem (a + 1 + 1)).toNat_lt
    have h₄ := (byteAt mem (n + 1 + 1)).toNat_lt
    have h₅ := (byteAt mem (a + 1 + 1 + 1)).toNat_lt
    have h₆ := (byteAt mem (n + 1 + 1 + 1)).toNat_lt
    simp only [bytesAt, pack4b_eq, List.cons.injEq, ← UInt8.toNat_inj, and_true] at heq ⊢
    omega

end Short

section All

variable {mem : Memory} {w : Nat → UInt8} {e n h h' l fuel : Nat} {r : Option Nat} {s pat : List UInt8}

theorem FirstPlace.after (hr : FirstPlace mem e w l h' r) (hle : h ≤ h') (hmissed : NoneIn mem e w l h h') :
    FirstPlace mem e w l h r := by
  cases r with
  | none => exact hmissed.append hr
  | some a => exact ⟨Nat.le_trans hle hr.1, hr.2.1, hr.2.2.1, hmissed.append hr.2.2.2⟩

/-- `strstr` returns the first place of the needle. -/
theorem strstr_first (halign : AlignedMapping mem) (hh : StringAt mem h e) (hn : StringAt mem n (n + l))
    (shift : UInt8 → Nat) (hfuel : 2 * l + (e - h) + 1 < fuel) :
    ∃ r, strstr fuel mem shift h n = .ok r ∧ FirstPlace mem e (fun x => byteAt mem (n + x)) l h r := by
  have hzero : ∀ i, i ≤ l → (byteAt mem (n + i) = 0 ↔ i = l) := by
    intro i hi
    rw [hn.zero_iff (by omega) (by omega)]
    omega
  have hload : ∀ i, i ≤ l → load mem (n + i) = .ok (byteAt mem (n + i)) :=
    fun i hi => hn.load_eq (by omega) (by omega)
  have hload0 : load mem n = .ok (byteAt mem n) := hload 0 (Nat.zero_le l)
  have hzero0 : byteAt mem n = 0 ↔ 0 = l := hzero 0 (Nat.zero_le l)
  rw [strstr, hload0, Exec.ok_bind]
  by_cases hl : 0 = l
  · rw [if_pos (hzero0.mpr hl)]
    subst hl
    exact ⟨_, rfl, Nat.le_refl h, hh.le, fun x hx => absurd hx (Nat.not_lt_zero x),
      fun a hha hah => absurd hah (by omega)⟩
  · obtain ⟨h', hchr, hfirst⟩ := strchrnul_scan halign hh (by omega : e - h + 1 < fuel) (byteAt mem n)
    have hmissed : NoneIn mem e (fun x => byteAt mem (n + x)) l h h' :=
      fun a hha hah _ hocc => hfirst.before a hha hah (hocc 0 (by omega))
    rw [if_neg (hzero0.not.mpr hl), strchr, hchr, Exec.ok_bind, hh.load_eq hfirst.le.1 hfirst.le.2, Exec.ok_bind]
    by_cases hc : byteAt mem h' = byteAt mem n
    · have hh' : StringAt mem h' e := hh.later hfirst.le.1 hfirst.le.2
      have hlt : h' ≠ e := by
        rw [Ne, ← hh'.zero_iff (Nat.le_refl h') hfirst.le.2, hc]
        exact hzero0.not.mpr hl
      suffices hrest : ∃ r, _ = Except.ok r ∧ FirstPlace mem e (fun x => byteAt mem (n + x)) l h' r by
        obtain ⟨r, hrun, hr⟩ := hrest
        exact ⟨r, hrun, hr.after hfirst.le.1 hmissed⟩
      have hnext : ∀ i, h' + i ≤ e → load mem (h' + i) = .ok (byteAt mem (h' + i)) :=
        fun i hi => hh'.load_eq (by omega) hi
      have hend : ∀ i, h' + i ≤ e → (byteAt mem (h' + i) = 0 ↔ h' + i = e) :=
        fun i hi => hh'.zero_iff (by omega) hi
      -- a haystack that ends in front of the needle's length
      have hshort : ∀ i, i < l → h' + i = e → ∃ r, Except.ok none = (Except.ok r : Except Fault _) ∧
          FirstPlace mem e (fun x => byteAt mem (n + x)) l h' r :=
        fun i hi he => ⟨none, rfl, fun a hha _ hal => by omega⟩
      have hle := hfirst.le
      rw [if_pos hc]
      change ∃ r, (load mem (n + 1) >>= _) = _ ∧ _
      rw [hload 1 (by omega), Exec.ok_bind]
      by_cases h1 : 1 = l
      · subst h1
        rw [if_pos ((hzero 1 (by omega)).mpr rfl)]
        refine ⟨_, rfl, Nat.le_refl h', by omega, fun x hx => ?_, fun a hha hah => absurd hah (by omega)⟩
        obtain rfl : x = 0 := by omega
        exact hc
      · rw [if_neg ((hzero 1 (by omega)).not.mpr h1), hnext 1 (by omega), Exec.ok_bind]
        by_cases he1 : h' + 1 = e
        · rw [if_pos ((hend 1 (by omega)).mpr he1)]
          exact hshort 1 (by omega) he1
        · rw [if_neg ((hend 1 (by omega)).not.mpr he1), hload 2 (by omega), Exec.ok_bind]
          by_cases h2 : 2 = l
          · subst h2
            rw [if_pos ((hzero 2 (by omega)).mpr rfl)]
            exact strstr2b_first hh' (Nat.le_refl h') (by omega) hn (by omega)
          · rw [if_neg ((hzero 2 (by omega)).not.mpr h2), hnext 2 (by omega), Exec.ok_bind]
            by_cases he2 : h' + 2 = e
            · rw [if_pos ((hend 2 (by omega)).mpr he2)]
              exact hshort 2 (by omega) he2
            · rw [if_neg ((hend 2 (by omega)).not.mpr he2), hload 3 (by omega), Exec.ok_bind]
              by_cases h3 : 3 = l
              · subst h3
                rw [if_pos ((hzero 3 (by omega)).mpr rfl)]
                exact strstr3b_first hh' (Nat.le_refl h') (by omega) hn (by omega)
              · rw [if_neg ((hzero 3 (by omega)).not.mpr h3), hnext 3 (by omega), Exec.ok_bind]
                by_cases he3 : h' + 3 = e
                · rw [if_pos ((hend 3 (by omega)).mpr he3)]
                  exact hshort 3 (by omega) he3
                · rw [if_neg ((hend 3 (by omega)).not.mpr he3), hload 4 (by omega), Exec.ok_bind]
                  by_cases h4 : 4 = l
                  · subst h4
                    rw [if_pos ((hzero 4 (by omega)).mpr rfl)]
                    exact strstr4b_first hh' (Nat.le_refl h') (by omega) hn (by omega)
                  · rw [if_neg ((hzero 4 (by omega)).not.mpr h4)]
                    exact strstrTwoway_first halign hh' hn (by omega) shift (by omega) (by omega)
    · have hre : h' = e := hfirst.hit.resolve_left hc
      rw [if_neg hc]
      exact ⟨none, rfl, fun a hha _ hal => hmissed a hha (by omega) hal⟩

theorem occurs_iff_starts {i : Nat} (hs : HoldsString mem h s) (hpat : HoldsString mem n pat)
    (hi : i + pat.length ≤ s.length) :
    Occurs (fun x => byteAt mem (n + x)) pat.length (byteAt mem) (h + i) ↔ pat <+: s.drop i := by
  rw [List.prefix_iff_getElem]
  have hlen : pat.length ≤ (s.drop i).length := by
    rw [List.length_drop]
    omega
  constructor
  · refine fun hocc => ⟨hlen, fun x hx => ?_⟩
    have hat := hocc x hx
    simp only [Nat.add_assoc] at hat
    rw [hs.byteAt_eq (by omega), hpat.byteAt_eq (by omega), List.getD_eq_getElem _ _ hx,
      List.getD_eq_getElem _ _ (by omega)] at hat
    rw [List.getElem_drop, hat]
  · rintro ⟨_, hsame⟩ x hx
    have hat := hsame x hx
    rw [List.getElem_drop] at hat
    simp only [Nat.add_assoc]
    rw [hs.byteAt_eq (by omega), hpat.byteAt_eq (by omega), List.getD_eq_getElem _ _ hx,
      List.getD_eq_getElem _ _ (by omega), hat]

/-- The place that is found is the one where the string is cut. -/
theorem FirstPlace.eq_cutAt (hs : HoldsString mem h s) (hpat : HoldsString mem n pat)
    (hr : FirstPlace mem (h + s.length) (fun x => byteAt mem (n + x)) pat.length h r) :
    r = (cutAt pat s).map fun cut => h + cut.1.length := by
  have hplace : ∀ {x t}, cutAt pat s = some (x, t) → h + x.length + pat.length ≤ h + s.length ∧
      Occurs (fun y => byteAt mem (n + y)) pat.length (byteAt mem) (h + x.length) := by
    intro x t hcut
    have heq := eq_of_cutAt hcut
    have hlen : x.length + pat.length ≤ s.length := by
      rw [heq, List.length_append, List.length_append]
      omega
    refine ⟨by omega, (occurs_iff_starts hs hpat hlen).mpr ?_⟩
    rw [heq, List.drop_left]
    exact List.prefix_append pat t
  cases r with
  | none =>
    cases hcut : cutAt pat s with
    | none => rfl
    | some cut =>
      obtain ⟨x, t⟩ := cut
      obtain ⟨hfits, hocc⟩ := hplace hcut
      exact absurd hocc (hr _ (Nat.le_add_right h _) (by omega) hfits)
  | some a =>
    obtain ⟨hle, hend, hocc, hnone⟩ := hr
    obtain ⟨i, rfl⟩ := Nat.exists_eq_add_of_le hle
    obtain ⟨x, t, hcut, hxi⟩ := cutAt_of_starts ((occurs_iff_starts hs hpat (by omega)).mp hocc)
    obtain ⟨hfits, hocc'⟩ := hplace hcut
    rw [hcut, Option.map_some, Option.some.injEq]
    change h + i = h + x.length
    by_contra hdiff
    exact hnone _ (Nat.le_add_right h _) (by omega) hfits hocc'

/-- The two-way search cuts the string around the first occurrence. -/
theorem strstrTwoway_cutAt (halign : AlignedMapping mem) (hs : HoldsString mem h s) (hpat : HoldsString mem n pat)
    (hne : pat ≠ []) (shift : UInt8 → Nat) (hfuel : 2 * pat.length + s.length < fuel) :
    strstrTwoway fuel mem shift h n = .ok ((cutAt pat s).map fun cut => h + cut.1.length) := by
  obtain ⟨r, hrun, hr⟩ := strstrTwoway_first halign hs.stringAt hpat.stringAt (List.length_pos_iff.mpr hne) shift
    (by omega : 2 * pat.length ≤ fuel) (by omega)
  rw [hrun, hr.eq_cutAt hs hpat]

theorem strstrTwoway_examplePage : strstrTwoway 40 examplePage (fun _ => 0) 0 12 =
    .ok ((cutAt exampleNeedle exampleText).map fun cut => 0 + cut.1.length) :=
  strstrTwoway_cutAt examplePage_aligned exampleText_holds exampleNeedle_holds (by decide) (fun _ => 0) (by decide)

/-- `strstr` on memory finds what the one that `str_replace` is modelled with finds. -/
theorem strstr_agrees (halign : AlignedMapping mem) (hs : HoldsString mem h s) (hpat : HoldsString mem n pat)
    (shift : UInt8 → Nat) (hfuel : 2 * pat.length + s.length + 1 < fuel) (behind behind' : Block) :
    strstr fuel mem shift h n = (Libc.strstr (s ++ 0 :: behind) (pat ++ 0 :: behind')).map (·.map (h + ·)) := by
  have hfuel' : 2 * pat.length + (h + s.length - h) + 1 < fuel := by omega
  obtain ⟨r, hrun, hr⟩ := strstr_first halign hs.stringAt hpat.stringAt shift hfuel'
  rw [Libc.strstr_eq hpat.nul hs.nul, hrun, hr.eq_cutAt hs hpat]
  change _ = Except.ok (((cutAt pat s).map (·.1.length)).map (h + ·))
  rw [Option.map_map]
  rfl

theorem strstr_examplePage : strstr 40 examplePage (fun _ => 0) 0 12 =
    (Libc.strstr (exampleText ++ [0]) (exampleNeedle ++ [0])).map (·.map (0 + ·)) :=
  strstr_agrees examplePage_aligned exampleText_holds exampleNeedle_holds (fun _ => 0) (by decide) [] []

end All

end KernelTest.Libc.Raw
