import Mathlib.Tactic.NormNum
import KernelTest.Framework.Numerals
import KernelTest.Libc.Strings

/-!
# Numbers in formatted output

`print_dec` and `print_hex` count the digits of a number with a bound that grows by a digit each round, in
32-bit arithmetic, and then put zeros and digits behind the text so far. The bound of `print_dec` wraps
around beyond 999999999.
-/

namespace KernelTest.Libc

/-- The buffer with a text written at the place `p`. -/
def written (buf : Block) (p : Nat) (text : List UInt8) : Block :=
  buf.take p ++ text ++ buf.drop (p + text.length)

/-- The buffer and the place to write at are left behind the text, in every buffer with room for it. -/
def Appends (f : Block → Nat → Except Fault (Block × Nat)) (text : List UInt8) : Prop :=
  ∀ buf p, p + text.length ≤ buf.length → f buf p = .ok (written buf p text, p + text.length)

section Written

variable {buf : Block} {p : Nat} {s t : List UInt8} {f : Block → Nat → Except Fault (Block × Nat)}

@[simp] theorem written_nil (buf : Block) (p : Nat) : written buf p [] = buf := by
  simp [written]

@[simp] theorem length_written (h : p + s.length ≤ buf.length) :
    (written buf p s).length = buf.length := by
  simp only [written, List.length_append, List.length_take, List.length_drop]
  omega

theorem written_written (h : p + s.length ≤ buf.length) (t : List UInt8) :
    written (written buf p s) (p + s.length) t = written buf p (s ++ t) := by
  have hfront : (buf.take p ++ s).length = p + s.length := by
    rw [List.length_append, List.length_take]
    omega
  have htake : (written buf p s).take (p + s.length) = buf.take p ++ s := by
    rw [written, ← hfront, List.take_left]
  have hdrop : (written buf p s).drop (p + s.length + t.length) =
      buf.drop (p + (s.length + t.length)) := by
    rw [← List.drop_drop, written, ← hfront, List.drop_left, List.drop_drop, hfront, Nat.add_assoc]
  rw [written, htake, hdrop, written, List.length_append, List.append_assoc _ s t]

theorem written_before (h : p + s.length ≤ buf.length) (t : List UInt8) :
    written (written buf (p + s.length) t) p s = written buf p (s ++ t) := by
  have hfront : (buf.take (p + s.length)).length = p + s.length := List.length_take_of_le h
  have htake : (written buf (p + s.length) t).take p = buf.take p := by
    rw [written, List.append_assoc, List.take_append_of_le_length (by omega), List.take_take]
    congr 1
    omega
  have hdrop : (written buf (p + s.length) t).drop (p + s.length) =
      t ++ buf.drop (p + s.length + t.length) := by
    rw [written, List.append_assoc, List.drop_left' hfront]
  rw [written, htake, hdrop, written, List.length_append, List.append_assoc, List.append_assoc,
    List.append_assoc, Nat.add_assoc]

theorem storeByte_written (h : p < buf.length) (c : UInt8) :
    storeByte buf p c = .ok (written buf p [c]) := by
  rw [storeByte, if_pos h, written, List.set_eq_take_append_cons_drop, if_pos h, List.append_assoc]
  rfl

theorem Appends.unique (hs : Appends f s) (ht : Appends f t) : s = t := by
  let buf : Block := List.replicate (s.length + t.length) 0
  have hlen : buf.length = s.length + t.length := List.length_replicate
  have hsame := (hs buf 0 (by omega)).symm.trans (ht buf 0 (by omega))
  rw [Except.ok.injEq, Prod.mk.injEq] at hsame
  obtain ⟨hbuf, hend⟩ := hsame
  have hlength : s.length = t.length := by omega
  have htake := congrArg (List.take s.length) hbuf
  rw [written, written, List.take_zero, List.nil_append, List.nil_append, List.take_left, hlength,
    List.take_left] at htake
  exact htake

theorem Appends.bind {g : Block → Nat → Except Fault (Block × Nat)} (hf : Appends f s) (hg : Appends g t) :
    Appends (fun buf p => f buf p >>= fun r => g r.1 r.2) (s ++ t) := by
  intro buf p hroom
  rw [List.length_append] at hroom
  have hfirst : p + s.length ≤ buf.length := by omega
  have hlen := length_written hfirst
  change (f buf p >>= fun r => g r.1 r.2) = _
  rw [hf buf p hfirst]
  change g (written buf p s) (p + s.length) = _
  rw [hg _ _ (by omega), written_written hfirst, List.length_append, Nat.add_assoc]

theorem Appends.cons (hf : Appends f t) (c : UInt8) :
    Appends (fun buf p => storeByte buf p c >>= fun buf => f buf (p + 1)) (c :: t) := by
  intro buf p hroom
  rw [List.length_cons] at hroom
  have hfirst : p + [c].length ≤ buf.length := by
    rw [List.length_singleton]
    omega
  have hlen := length_written hfirst
  change (storeByte buf p c >>= fun buf => f buf (p + 1)) = _
  rw [storeByte_written (by omega)]
  change f (written buf p [c]) (p + 1) = _
  rw [hf _ _ (by omega), List.length_cons, Nat.add_comm t.length, ← Nat.add_assoc]
  exact congrArg (fun b => Except.ok (b, p + 1 + t.length)) (written_written hfirst t)

end Written

/-- The loop that counts digits: `i` is the greatest number of `nWidth` digits. -/
def widthLoop (base value : UInt32) : Nat → Nat → UInt32 → Except Fault Nat
  | 0, _, _ => throw .diverged
  | fuel + 1, nWidth, i =>
    if value > i ∧ i < 0xFFFFFFFF then
      widthLoop base value fuel (nWidth + 1) (i * base + (base - 1))
    else pure nWidth

/-- The loop that pads with zeros, with `k` to go. -/
def putZeros : Nat → Block → Nat → Except Fault (Block × Nat)
  | 0, buf, ptr => pure (buf, ptr)
  | k + 1, buf, ptr => do
    let buf ← storeByte buf ptr 48
    putZeros k buf (ptr + 1)

/-- The loop of `print_dec` that puts the digits, from the last one on. -/
def putDigits : Nat → UInt32 → Block → Nat → Except Fault Block
  | 0, _, buf, _ => pure buf
  | i + 1, value, buf, ptr => do
    let buf ← storeByte buf (ptr + i) (digitByte (value % 10).toNat)
    putDigits i (value / 10) buf ptr

/-- `print_dec(value, width, buf, ptr)` -/
def printDec (value width : UInt32) (buf : Block) (ptr : Nat) : Except Fault (Block × Nat) := do
  let nWidth ← widthLoop 10 value 32 1 9
  let (buf, ptr) ← putZeros (width.toNat - nWidth) buf ptr
  let buf ← putDigits nWidth value buf ptr
  pure (buf, ptr + nWidth)

/-- The loop of `print_hex` that puts the digits, from the first one on. -/
def putNibbles (value : UInt32) : Nat → Block → Nat → Except Fault (Block × Nat)
  | 0, buf, ptr => pure (buf, ptr)
  | i + 1, buf, ptr => do
    let buf ← storeByte buf ptr (digitByte ((value.toNat >>> (i * 4)) &&& 0xF))
    putNibbles value i buf (ptr + 1)

/-- An `unsigned int` as an `int`. -/
def asInt (n : UInt32) : Int := if n.toNat < 2 ^ 31 then n.toNat else n.toNat - 2 ^ 32

/-- `print_hex(value, width, buf, ptr)` -/
def printHex (value width : UInt32) (buf : Block) (ptr : Nat) : Except Fault (Block × Nat) := do
  let i := if asInt width = 0 then 8 else asInt width
  let nWidth ← widthLoop 16 value 32 1 0x0F
  let (buf, ptr) ← putZeros (i - nWidth).toNat buf ptr
  putNibbles value nWidth buf ptr

/-- The numeral of `v` is appended with zeros in front of it up to the width `w`, and is read as `v`. -/
structure PrintsNumeral (f : Block → Nat → Except Fault (Block × Nat)) (b w v : Nat) : Prop where
  appends : Appends f (padded b w v)
  length : (padded b w v).length = max w (numeral b v).length
  reads : readNumeral b (padded b w v) = v

def boundAfter (b k : Nat) : Nat := (b ^ k - 1) % 2 ^ 32

section Width

variable {base value : UInt32} {fuel n k : Nat} {i : UInt32}

private theorem bound_step (hb : 0 < base.toNat) (hi : i.toNat = boundAfter base.toNat n) :
    (i * base + (base - 1)).toNat = boundAfter base.toNat (n + 1) := by
  have hle : (1 : UInt32) ≤ base := hb
  obtain ⟨c, hc⟩ := Nat.exists_eq_add_of_lt (Nat.pow_pos (n := n) hb)
  have hpow : base.toNat ^ (n + 1) - 1 = (base.toNat ^ n - 1) * base.toNat + (base.toNat - 1) := by
    rw [Nat.pow_succ, hc]
    simp only [Nat.zero_add, Nat.add_sub_cancel, Nat.add_mul, Nat.one_mul]
    omega
  have hsub : (base - 1).toNat = base.toNat - 1 := UInt32.toNat_sub_of_le base 1 hle
  rw [UInt32.toNat_add, UInt32.toNat_mul, hi, hsub, boundAfter, boundAfter, hpow, Nat.mod_add_mod,
    ← Nat.mod_add_mod (((base.toNat ^ n - 1) % 2 ^ 32) * base.toNat), Nat.mod_mul_mod, Nat.mod_add_mod]

theorem widthLoop_eq (hb : 0 < base.toNat) (hi : i.toNat = boundAfter base.toNat n)
    (hend : ∃ k, n ≤ k ∧ k < n + fuel ∧ value.toNat ≤ boundAfter base.toNat k) :
    ∃ k, widthLoop base value fuel n i = .ok k ∧ n ≤ k ∧ value.toNat ≤ boundAfter base.toNat k ∧
      ∀ m, n ≤ m → m < k → boundAfter base.toNat m < value.toNat := by
  induction fuel generalizing n i with
  | zero =>
    obtain ⟨k, hle, hlt, -⟩ := hend
    omega
  | succ fuel ih =>
    rw [widthLoop]
    split
    · next hgo =>
      have hbelow : boundAfter base.toNat n < value.toNat := by
        rw [← hi]
        exact hgo.1
      obtain ⟨k, hle, hlt, hbound⟩ := hend
      have hne : k ≠ n := by
        rintro rfl
        omega
      obtain ⟨j, hrun, hj, hstop, hfirst⟩ := ih (bound_step hb hi) ⟨k, by omega, by omega, hbound⟩
      refine ⟨j, hrun, by omega, hstop, fun m hm hmj => ?_⟩
      by_cases hmn : m = n
      · exact hmn ▸ hbelow
      · exact hfirst m (by omega) hmj
    · next hstop =>
      refine ⟨n, rfl, Nat.le_refl n, ?_, fun m hm hmn => absurd hm (by omega)⟩
      rw [← hi]
      by_contra hlt
      have hgt : i < value := Nat.lt_of_not_le hlt
      have hmax : value ≤ 0xFFFFFFFF := Nat.le_of_lt_succ value.toNat_lt
      exact hstop ⟨hgt, Nat.lt_of_lt_of_le hgt hmax⟩

structure Counted (base value : UInt32) (n : Nat) : Prop where
  run : widthLoop base value 32 1 (base - 1) = .ok n
  pos : 1 ≤ n
  bound : value.toNat ≤ boundAfter base.toNat n
  first : ∀ m, 1 ≤ m → m < n → boundAfter base.toNat m < value.toNat

theorem exists_counted (hb : 0 < base.toNat)
    (hend : ∃ k, 1 ≤ k ∧ k < 33 ∧ boundAfter base.toNat k = 2 ^ 32 - 1) : ∃ n, Counted base value n := by
  obtain ⟨k, hle, hlt, hbound⟩ := hend
  have hi : (base - 1).toNat = boundAfter base.toNat 1 := by
    rw [UInt32.toNat_sub_of_le base 1 hb, boundAfter, Nat.pow_one]
    have hlt := base.toNat_lt
    exact (Nat.mod_eq_of_lt (by omega)).symm
  have hmax : value.toNat ≤ 2 ^ 32 - 1 := Nat.le_of_lt_succ value.toNat_lt
  have hstops : ∃ k, 1 ≤ k ∧ k < 1 + 32 ∧ value.toNat ≤ boundAfter base.toNat k :=
    ⟨k, hle, by omega, hbound ▸ hmax⟩
  obtain ⟨n, hrun, hn, hstop, hfirst⟩ := widthLoop_eq hb hi hstops
  exact ⟨n, hrun, hn, hstop, hfirst⟩

theorem boundAfter_of_le {b : Nat} (hb : 0 < b) (h : b ^ k ≤ 2 ^ 32) : boundAfter b k = b ^ k - 1 := by
  have hpos := Nat.pow_pos (n := k) hb
  exact Nat.mod_eq_of_lt (by omega)

theorem Counted.length_le (h : Counted base value n) (hb : 1 < base.toNat) :
    (numeral base.toNat value.toNat).length ≤ n := by
  rw [length_numeral_le hb h.pos]
  have hbound := h.bound
  have hle := Nat.mod_le (base.toNat ^ n - 1) (2 ^ 32)
  have hpos := Nat.pow_pos (n := n) (Nat.lt_of_succ_lt hb)
  rw [boundAfter] at hbound
  omega

theorem Counted.le_iff (h : Counted base value n) :
    n ≤ k ↔ ∃ m, 1 ≤ m ∧ m ≤ k ∧ value.toNat ≤ boundAfter base.toNat m := by
  constructor
  · intro hle
    exact ⟨n, h.pos, hle, h.bound⟩
  · intro ⟨m, hm, hmk, hbound⟩
    by_contra hlt
    have hbelow := h.first m hm (by omega)
    omega

end Width

section Print

variable {v w : UInt32} {n k : Nat} {buf : Block} {p : Nat}

theorem putZeros_eq (h : p + k ≤ buf.length) :
    putZeros k buf p = .ok (written buf p (List.replicate k 48), p + k) := by
  induction k generalizing buf p with
  | zero => rw [List.replicate_zero, written_nil, putZeros, Nat.add_zero]; rfl
  | succ k ih =>
    have hroom : p + [(48 : UInt8)].length ≤ buf.length := by
      rw [List.length_singleton]
      omega
    have hlen := length_written hroom
    rw [putZeros, storeByte_written (by omega)]
    change putZeros k (written buf p [48]) (p + 1) = _
    rw [ih (by omega), List.replicate_succ]
    change Except.ok (written (written buf p [48]) (p + [(48 : UInt8)].length) _, _) = _
    rw [written_written hroom, Nat.add_right_comm]
    rfl

theorem putDigits_eq (h : p + k ≤ buf.length) :
    putDigits k v buf p = .ok (written buf p (places 10 k v.toNat)) := by
  induction k generalizing buf v with
  | zero => rw [places, written_nil, putDigits]; rfl
  | succ k ih =>
    have hlen : (written buf (p + k) [digitByte (v % 10).toNat]).length = buf.length :=
      length_written (by rw [List.length_singleton]; omega)
    rw [putDigits, storeByte_written (by omega)]
    change putDigits k (v / 10) (written buf (p + k) [digitByte (v % 10).toNat]) p = _
    have hlength : (places 10 k (v / 10).toNat).length = k := length_places _ _ _
    have hroom : p + (places 10 k (v / 10).toNat).length ≤ buf.length := by omega
    have hbefore := written_before hroom [digitByte (v % 10).toNat]
    rw [hlength] at hbefore
    rw [ih (by omega), hbefore, places, UInt32.toNat_div, UInt32.toNat_mod]
    rfl

theorem putNibbles_eq (h : p + k ≤ buf.length) :
    putNibbles v k buf p = .ok (written buf p (places 16 k v.toNat), p + k) := by
  induction k generalizing buf p with
  | zero => rw [places, written_nil, putNibbles, Nat.add_zero]; rfl
  | succ k ih =>
    have hdigit : (v.toNat >>> (k * 4)) &&& 0xF = v.toNat / 16 ^ k % 16 := by
      rw [Nat.shiftRight_eq_div_pow, Nat.mul_comm, Nat.pow_mul]
      exact Nat.and_two_pow_sub_one_eq_mod _ 4
    have hroom : p + [digitByte (v.toNat / 16 ^ k % 16)].length ≤ buf.length := by
      rw [List.length_singleton]
      omega
    have hlen := length_written hroom
    rw [putNibbles, hdigit, storeByte_written (by omega)]
    change putNibbles v k (written buf p [digitByte (v.toNat / 16 ^ k % 16)]) (p + 1) = _
    rw [ih (by omega), places_succ]
    change Except.ok (written (written buf p _) (p + [digitByte (v.toNat / 16 ^ k % 16)].length) _, _) = _
    rw [written_written hroom, Nat.add_right_comm]
    rfl

theorem appends_places {b z n : Nat} {f : Block → Nat → Except Fault (Block × Nat)}
    (hf : ∀ buf p, p + (z + n) ≤ buf.length → f buf p =
      .ok (written (written buf p (List.replicate z 48)) (p + z) (places b n v.toNat), p + z + n)) :
    Appends f (List.replicate z 48 ++ places b n v.toNat) := by
  intro buf p hroom
  rw [List.length_append, List.length_replicate, length_places] at hroom
  have hzeros : p + (List.replicate z (48 : UInt8)).length ≤ buf.length := by
    rw [List.length_replicate]
    omega
  have hwritten := written_written hzeros (places b n v.toNat)
  rw [List.length_replicate] at hwritten
  rw [hf buf p hroom, hwritten, List.length_append, List.length_replicate, length_places, Nat.add_assoc]

theorem printDec_appends (h : Counted 10 v n) :
    Appends (printDec v w) (List.replicate (w.toNat - n) 48 ++ places 10 n v.toNat) := by
  apply appends_places
  intro buf p hroom
  have hzeros := putZeros_eq (show p + (w.toNat - n) ≤ buf.length by omega)
  have hlen : (written buf p (List.replicate (w.toNat - n) 48)).length = buf.length :=
    length_written (by rw [List.length_replicate]; omega)
  have hrun : widthLoop 10 v 32 1 9 = .ok n := h.run
  rw [printDec, hrun]
  change (putZeros (w.toNat - n) buf p >>= _) = _
  rw [hzeros]
  change (putDigits n v _ _ >>= _) = _
  rw [putDigits_eq (by omega)]
  rfl

theorem printHex_appends (h : Counted 16 v n) :
    Appends (printHex v w)
      (List.replicate ((if asInt w = 0 then 8 else asInt w) - n).toNat 48 ++ places 16 n v.toNat) := by
  apply appends_places
  intro buf p hroom
  let z := ((if asInt w = 0 then 8 else asInt w) - n).toNat
  have hzeros := putZeros_eq (show p + z ≤ buf.length by omega)
  have hlen : (written buf p (List.replicate z 48)).length = buf.length :=
    length_written (by rw [List.length_replicate]; omega)
  have hrun : widthLoop 16 v 32 1 0x0F = .ok n := h.run
  rw [printHex]
  dsimp only
  rw [hrun]
  change (putZeros z buf p >>= _) = _
  rw [hzeros]
  have hroom' : p + z + n ≤ (written buf p (List.replicate z 48)).length := by omega
  exact putNibbles_eq hroom'

theorem Counted.places_eq {base : UInt32} (h : Counted base v n) (hb : 1 < base.toNat) (z : Nat) :
    List.replicate (z - n) 48 ++ places base.toNat n v.toNat = padded base.toNat (max z n) v.toNat := by
  have hlen := h.length_le hb
  have hlt := (length_numeral_le hb h.pos).mp hlen
  rw [KernelTest.places_eq hb h.pos hlt, ← padded_append (Nat.le_max_right z n) hlen]
  congr 2
  omega

theorem printsNumeral_of_appends {b w v : Nat} {f : Block → Nat → Except Fault (Block × Nat)} (hb : 1 < b)
    (hb' : b ≤ 16) (h : Appends f (padded b w v)) : PrintsNumeral f b w v :=
  ⟨h, length_padded b w v, readNumeral_padded hb hb' w v⟩

theorem printsNumeral_iff {b z w v : Nat} {f : Block → Nat → Except Fault (Block × Nat)} (hb : 1 < b)
    (hb' : b ≤ 16) (h : Appends f (padded b z v)) :
    PrintsNumeral f b w v ↔ max z (numeral b v).length = max w (numeral b v).length := by
  constructor
  · intro hprints
    have hsame := congrArg List.length (h.unique hprints.appends)
    rwa [length_padded, length_padded] at hsame
  · intro hwidth
    have hsame : padded b z v = padded b w v := by
      rw [padded, padded]
      congr 2
      omega
    exact printsNumeral_of_appends hb hb' (hsame ▸ h)

theorem exists_counted_dec (v : UInt32) : ∃ n, Counted 10 v n :=
  exists_counted (by decide) ⟨32, by decide, by decide, by decide⟩

theorem exists_counted_hex (v : UInt32) : ∃ n, Counted 16 v n :=
  exists_counted (by decide) ⟨8, by decide, by decide, by decide⟩

theorem Counted.hex (h : Counted 16 v n) : n = (numeral 16 v.toNat).length := by
  have hle : (numeral 16 v.toNat).length ≤ n := h.length_le (by decide)
  have hpos : 0 < (numeral 16 v.toNat).length := length_numeral_pos
  have hlt : v.toNat < 16 ^ (numeral 16 v.toNat).length :=
    (length_numeral_le (by decide) hpos).mp (Nat.le_refl _)
  have hfew : (numeral 16 v.toNat).length ≤ 8 := (length_numeral_le (by decide) (by decide)).mpr v.toNat_lt
  have hpow : 16 ^ (numeral 16 v.toNat).length ≤ 2 ^ 32 := by
    rw [show 2 ^ 32 = 16 ^ 8 by decide]
    exact Nat.pow_le_pow_right (by decide) hfew
  have hbound : boundAfter 16 (numeral 16 v.toNat).length = 16 ^ (numeral 16 v.toNat).length - 1 :=
    boundAfter_of_le (by decide) hpow
  have hcount : n ≤ (numeral 16 v.toNat).length :=
    h.le_iff.mpr ⟨_, hpos, Nat.le_refl _, by change v.toNat ≤ boundAfter 16 _; omega⟩
  omega

theorem Counted.dec_iff (h : Counted 10 v n) :
    n = (numeral 10 v.toNat).length ↔ v.toNat ≤ 1410065407 := by
  have hle : (numeral 10 v.toNat).length ≤ n := h.length_le (by decide)
  have hpos : 0 < (numeral 10 v.toNat).length := length_numeral_pos
  have hlt : v.toNat < 10 ^ (numeral 10 v.toNat).length :=
    (length_numeral_le (by decide) hpos).mp (Nat.le_refl _)
  have hfew : (numeral 10 v.toNat).length ≤ 10 :=
    (length_numeral_le (by decide) (by decide)).mpr (Nat.lt_trans v.toNat_lt (by decide))
  have hmany : ∀ k, 0 < k → ((numeral 10 v.toNat).length ≤ k ↔ v.toNat < 10 ^ k) :=
    fun k hk => length_numeral_le (by decide) hk
  have hwrapped : boundAfter 10 10 = 1410065407 := by decide
  constructor
  · intro hn
    have hbound : v.toNat ≤ boundAfter 10 n := h.bound
    by_cases hten : (numeral 10 v.toNat).length = 10
    · rw [hn, hten] at hbound
      omega
    · have hnine := (hmany 9 (by decide)).mp (by omega)
      omega
  · intro hv
    have hcount : n ≤ (numeral 10 v.toNat).length := by
      apply h.le_iff.mpr
      refine ⟨_, hpos, Nat.le_refl _, ?_⟩
      change v.toNat ≤ boundAfter 10 _
      by_cases hten : (numeral 10 v.toNat).length = 10
      · rw [hten, hwrapped]
        exact hv
      · have hpow : 10 ^ (numeral 10 v.toNat).length ≤ 10 ^ 9 :=
          Nat.pow_le_pow_right (by decide) (by omega)
        rw [boundAfter_of_le (by decide) (by omega)]
        omega
    omega

theorem printDec_prints_iff (v w : UInt32) : PrintsNumeral (printDec v w) 10 w.toNat v.toNat ↔
    v.toNat ≤ 1410065407 ∨ ∃ k ≤ w.toNat, v.toNat ≤ boundAfter 10 k := by
  obtain ⟨n, hn⟩ := exists_counted_dec v
  have happends : Appends (printDec v w) (padded 10 (max w.toNat n) v.toNat) :=
    hn.places_eq (by decide) w.toNat ▸ printDec_appends hn
  have hle : (numeral 10 v.toNat).length ≤ n := hn.length_le (by decide)
  have hwidth : n ≤ w.toNat ↔ ∃ k, 1 ≤ k ∧ k ≤ w.toNat ∧ v.toNat ≤ boundAfter 10 k := hn.le_iff
  have hzero : boundAfter 10 0 = 0 := by decide
  rw [printsNumeral_iff (by decide) (by decide) happends, ← hn.dec_iff]
  constructor
  · intro hsame
    by_cases hcount : n = (numeral 10 v.toNat).length
    · exact .inl hcount
    · obtain ⟨k, -, hk, hbound⟩ := hwidth.mp (by omega)
      exact .inr ⟨k, hk, hbound⟩
  · intro hcase
    rcases hcase with hcount | ⟨k, hk, hbound⟩
    · omega
    · rcases Nat.eq_zero_or_pos k with rfl | hpos
      · have hcount := hn.dec_iff.mpr (by omega)
        omega
      · have hn' := hwidth.mpr ⟨k, hpos, hk, hbound⟩
        omega

theorem printHex_prints_iff (v w : UInt32) :
    PrintsNumeral (printHex v w) 16 (if w = 0 then 8 else w.toNat) v.toNat ↔ w.toNat < 2 ^ 31 := by
  obtain ⟨n, hn⟩ := exists_counted_hex v
  have hcount := hn.hex
  have happends := printHex_appends (w := w) hn
  have hfew : (numeral 16 v.toNat).length ≤ 8 := (length_numeral_le (by decide) (by decide)).mpr v.toNat_lt
  let z : Nat := (if asInt w = 0 then 8 else asInt w).toNat
  have hz : ((if asInt w = 0 then 8 else asInt w) - n).toNat = z - n := by
    change _ = (if asInt w = 0 then 8 else asInt w).toNat - n
    omega
  have hlt := w.toNat_lt
  have hzero : w = 0 ↔ w.toNat = 0 := by
    rw [← UInt32.toNat_inj]
    rfl
  have hwidth : z = if w.toNat = 0 then 8 else if w.toNat < 2 ^ 31 then w.toNat else 0 := by
    change (if asInt w = 0 then 8 else asInt w).toNat = _
    rw [asInt]
    split_ifs <;> omega
  rw [hz] at happends
  have hpadded : Appends (printHex v w) (padded 16 (max z n) v.toNat) :=
    hn.places_eq (by decide) z ▸ happends
  rw [printsNumeral_iff (by decide) (by decide) hpadded, ← hcount]
  simp only [hzero]
  split_ifs at hwidth ⊢ <;> omega

/-- `print_dec` prints the numeral up to 1410065407, and beyond it where the width is not below the first
bound that has not been passed; `print_hex` does for widths that are positive as an `int`, or 0. -/
theorem print_prints_iff (v w : UInt32) :
    (PrintsNumeral (printDec v w) 10 w.toNat v.toNat ↔
        v.toNat ≤ 1410065407 ∨ ∃ k ≤ w.toNat, v.toNat ≤ (10 ^ k - 1) % 2 ^ 32) ∧
      (PrintsNumeral (printHex v w) 16 (if w = 0 then 8 else w.toNat) v.toNat ↔ w.toNat < 2 ^ 31) :=
  ⟨printDec_prints_iff v w, printHex_prints_iff v w⟩

/-- The number 4294967295 is printed with 32 digits. -/
theorem printDec_greatest :
    printDec 0xFFFFFFFF 0 (List.replicate 40 1) 0 =
        .ok (padded 10 32 0xFFFFFFFF ++ List.replicate 8 1, 32) ∧
      ¬ PrintsNumeral (printDec 0xFFFFFFFF 0) 10 0 0xFFFFFFFF := by
  have hrun : printDec 0xFFFFFFFF 0 (List.replicate 40 1) 0 =
      .ok (padded 10 32 0xFFFFFFFF ++ List.replicate 8 1, 32) := by decide +kernel
  refine ⟨hrun, fun h => ?_⟩
  have hprinted := h.appends (List.replicate 40 1) 0 (by decide)
  rw [show (0xFFFFFFFF : Nat) = (0xFFFFFFFF : UInt32).toNat from rfl] at hprinted
  rw [hrun, Except.ok.injEq, Prod.mk.injEq] at hprinted
  have hlength : 32 = 0 + (padded 10 0 (0xFFFFFFFF : UInt32).toNat).length := hprinted.2
  rw [length_padded] at hlength
  revert hlength
  decide

end Print

end KernelTest.Libc
