import Mathlib.Order.RelClasses
import KernelTest.Framework.MaximalSuffix
import KernelTest.Libc.StringScan

/-!
# Two-way string matching

`strstr_twoway`: the needle is cut in front of the larger of its two maximal suffixes. At each place of the
haystack the last byte is looked at first, then the part behind the cut from the left, then the part in front
of it from the right; how far the needle is moved depends on where they differ.
-/

namespace KernelTest.Libc.Raw

/-! ## Sets of bytes -/

/-- `size_t byteset[32 / sizeof(size_t)]`. -/
abbrev Byteset := Nat → BitVec 32

/-- `BITOP(byteset, c, |=)`. -/
def Byteset.add (set : Byteset) (c : UInt8) : Byteset :=
  Function.update set (c.toNat / 32) (set (c.toNat / 32) ||| 1#32 <<< (c.toNat % 32))

/-- `BITOP(byteset, c, &)`. -/
def Byteset.has (set : Byteset) (c : UInt8) : Bool := set (c.toNat / 32) &&& 1#32 <<< (c.toNat % 32) ≠ 0#32

theorem Byteset.has_eq (set : Byteset) (c : UInt8) : set.has c = (set (c.toNat / 32)).getLsbD (c.toNat % 32) := by
  have hlt : c.toNat % 32 < 32 := Nat.mod_lt _ (by decide)
  have hbit : ∀ i < 32, (1#32 <<< (c.toNat % 32)).getLsbD i = decide (i = c.toNat % 32) := by
    intro i hi
    simp only [BitVec.getLsbD_shiftLeft, BitVec.getLsbD_one]
    grind
  rw [has]
  cases hc : (set (c.toNat / 32)).getLsbD (c.toNat % 32) with
  | true =>
    refine decide_eq_true fun heq => ?_
    have := congrArg (BitVec.getLsbD · (c.toNat % 32)) heq
    simp [BitVec.getLsbD_and, hbit _ hlt, hc] at this
  | false =>
    refine decide_eq_false (not_not.mpr (BitVec.eq_of_getLsbD_eq fun i hi => ?_))
    rw [BitVec.getLsbD_and, hbit i hi, BitVec.getLsbD_zero]
    by_cases hi' : i = c.toNat % 32
    · rw [hi', hc]
      rfl
    · simp [hi']

theorem Byteset.has_add (set : Byteset) (c d : UInt8) : (set.add c).has d = (d == c || set.has d) := by
  have hlt : d.toNat % 32 < 32 := Nat.mod_lt _ (by decide)
  have hsame : d = c ↔ d.toNat / 32 = c.toNat / 32 ∧ d.toNat % 32 = c.toNat % 32 := by
    rw [← UInt8.toNat_inj]
    omega
  rw [has_eq, has_eq, add]
  by_cases hword : d.toNat / 32 = c.toNat / 32
  · rw [hword, Function.update_self, BitVec.getLsbD_or]
    simp only [BitVec.getLsbD_shiftLeft, BitVec.getLsbD_one]
    grind
  · rw [Function.update_of_ne hword]
    grind

/-! ## The code -/

/-- `memcmp(l, r, n)`. -/
def memcmp (mem : Memory) : Nat → Nat → Nat → Except Fault Int
  | _, _, 0 => .ok 0
  | l, r, n + 1 => do
    let a ← load mem l
    let b ← load mem r
    if a = b then memcmp mem (l + 1) (r + 1) n
    else return (a.toNat : Int) - b.toNat

/-- The length of the needle, the bytes in it and one more than the place of each one's last occurrence;
`l` stays short of the length where the haystack is shorter. -/
def fillTables (mem : Memory) (h n : Nat) :
    Nat → Nat → Byteset → (UInt8 → Nat) → Except Fault (Nat × Byteset × (UInt8 → Nat))
  | 0, _, _, _ => .error .diverged
  | fuel + 1, l, byteset, shift => do
    let b ← load mem (n + l)
    if b = 0 then return (l, byteset, shift)
    else
      let c ← load mem (h + l)
      if c = 0 then return (l, byteset, shift)
      else fillTables mem h n fuel (l + 1) (byteset.add b) (Function.update shift b (l + 1))

/-- The loop that computes a maximal suffix, for one of the two comparisons; `ip` is kept one up, as it starts
at -1. -/
def suffixLoop (greater : UInt8 → UInt8 → Bool) (mem : Memory) (n l : Nat) :
    Nat → Nat → Nat → Nat → Nat → Except Fault (Nat × Nat)
  | 0, _, _, _, _ => .error .diverged
  | fuel + 1, ip, jp, k, p =>
    if jp + k < l then do
      let a ← load mem (n + (ip + k - 1))
      let b ← load mem (n + (jp + k))
      if a = b then
        if k = p then suffixLoop greater mem n l fuel ip (jp + p) 1 p
        else suffixLoop greater mem n l fuel ip jp (k + 1) p
      else if greater a b then suffixLoop greater mem n l fuel ip (jp + k) 1 (jp + k + 1 - ip)
      else suffixLoop greater mem n l fuel (jp + 1) (jp + 1) 1 1
    else return (ip, p)

/-- What the search loop does not change; `ms` is kept one up. -/
structure Needle where
  l : Nat
  byteset : Byteset
  shift : UInt8 → Nat
  ms : Nat
  p : Nat
  mem0 : Nat

/-- The preparation up to the search loop. -/
def prepare (fuel : Nat) (mem : Memory) (n l : Nat) (byteset : Byteset) (shift : UInt8 → Nat) :
    Except Fault Needle := do
  let (ip, p0) ← suffixLoop (fun a b => b < a) mem n l fuel 0 0 1 1
  let (ip', p') ← suffixLoop (fun a b => a < b) mem n l fuel 0 0 1 1
  let ms := if ip' > ip then ip' else ip
  let p := if ip' > ip then p' else p0
  let differs ← memcmp mem n (n + p) ms
  if differs ≠ 0 then return ⟨l, byteset, shift, ms, max ms (l - ms + 1), 0⟩
  else return ⟨l, byteset, shift, ms, p, l - p⟩

/-- The incremental end of the haystack; nothing if the haystack ends before the needle would. -/
def haystackEnd (mem : Memory) (l h z : Nat) : Except Fault (Option Nat) :=
  if z - h < l then do
    match ← memchr 0 mem z (l ||| 63) with
    | some z2 => return if z2 - h < l then none else some z2
    | none => return some (z + (l ||| 63))
  else return some z

/-- `for (k = MAX(ms + 1, mem); n[k] && n[k] == h[k]; k++)`. -/
def matchRight (mem : Memory) (h n : Nat) : Nat → Nat → Except Fault Nat
  | 0, _ => .error .diverged
  | fuel + 1, k => do
    let b ← load mem (n + k)
    if b = 0 then return k
    else
      let c ← load mem (h + k)
      if b = c then matchRight mem h n fuel (k + 1)
      else return k

/-- `for (k = ms + 1; k > mem && n[k - 1] == h[k - 1]; k--)`. -/
def matchLeft (mem : Memory) (h n m : Nat) : Nat → Except Fault Nat
  | 0 => .ok 0
  | k + 1 =>
    if m < k + 1 then do
      let b ← load mem (n + k)
      let c ← load mem (h + k)
      if b = c then matchLeft mem h n m k
      else return k + 1
    else .ok (k + 1)

/-- A round of the search loop returns, or goes on with other `h`, `z` and `mem`. -/
inductive Round
  | done (r : Option Nat)
  | next (h z m : Nat)

/-- The two comparisons of a round. -/
def compareHalves (fuel : Nat) (mem : Memory) (n : Nat) (t : Needle) (h z m : Nat) : Except Fault Round := do
  let k ← matchRight mem h n fuel (max t.ms m)
  let b ← load mem (n + k)
  if b ≠ 0 then return .next (h + (k + 1 - t.ms)) z 0
  else
    let k ← matchLeft mem h n m t.ms
    if k ≤ m then return .done (some h)
    else return .next (h + t.p) z t.mem0

def searchRound (fuel : Nat) (mem : Memory) (n : Nat) (t : Needle) (h z m : Nat) : Except Fault Round := do
  match ← haystackEnd mem t.l h z with
  | none => return .done none
  | some z =>
    let c ← load mem (h + (t.l - 1))
    if t.byteset.has c then
      let k := t.l - t.shift c
      if k ≠ 0 then
        return .next (h + if t.mem0 ≠ 0 ∧ m ≠ 0 ∧ k < t.p then t.l - t.p else k) z 0
      else compareHalves fuel mem n t h z m
    else return .next (h + t.l) z 0

def searchLoop (fuel : Nat) (mem : Memory) (n : Nat) (t : Needle) :
    Nat → Nat → Nat → Nat → Except Fault (Option Nat)
  | 0, _, _, _ => .error .diverged
  | rounds + 1, h, z, m => do
    match ← searchRound fuel mem n t h z m with
    | .done r => return r
    | .next h z m => searchLoop fuel mem n t rounds h z m

/-- `strstr_twoway(h, n)`; `shift` starts with what the stack happens to hold. -/
def strstrTwoway (fuel : Nat) (mem : Memory) (shift : UInt8 → Nat) (h n : Nat) : Except Fault (Option Nat) := do
  let (l, byteset, shift) ← fillTables mem h n fuel 0 (fun _ => 0) shift
  let b ← load mem (n + l)
  if b ≠ 0 then return none
  else
    let t ← prepare fuel mem n l byteset shift
    searchLoop fuel mem n t fuel h h 0

/-! ## Preparing the needle -/

section Needle

open Words

variable {mem : Memory} {s e a n l h fuel : Nat} {w : Nat → UInt8} {byteset : Byteset} {shift : UInt8 → Nat}

theorem StringAt.load_eq (hs : StringAt mem s e) (hsa : s ≤ a) (hae : a ≤ e) :
    load mem a = .ok (byteAt mem a) :=
  Raw.load_eq (hs.mapped a hsa hae)

theorem StringAt.zero_iff (hs : StringAt mem s e) (hsa : s ≤ a) (hae : a ≤ e) : byteAt mem a = 0 ↔ a = e := by
  constructor
  · intro hzero
    by_contra hne
    have := hs.before a hsa (by omega)
    simp [hzero] at this
  · rintro rfl
    simpa using hs.hit

theorem memcmp_eq {r : Nat} (hs : ∀ i < n, mem (s + i) ≠ none ∧ mem (r + i) ≠ none) :
    ∃ v, memcmp mem s r n = .ok v ∧ (v = 0 ↔ ∀ i < n, byteAt mem (s + i) = byteAt mem (r + i)) := by
  induction n generalizing s r with
  | zero => exact ⟨0, rfl, by simp⟩
  | succ n ih =>
    have hfirst : mem s ≠ none ∧ mem r ≠ none := hs 0 (Nat.succ_pos n)
    rw [memcmp, Raw.load_eq hfirst.1, Exec.ok_bind, Raw.load_eq hfirst.2, Exec.ok_bind]
    by_cases heq : byteAt mem s = byteAt mem r
    · obtain ⟨v, hrun, hv⟩ := ih (s := s + 1) (r := r + 1) fun i hi => by
        have := hs (i + 1) (by omega)
        rwa [← Nat.add_assoc, ← Nat.add_assoc, Nat.add_right_comm s, Nat.add_right_comm r] at this
      rw [if_pos heq]
      refine ⟨v, hrun, hv.trans ⟨fun hall i hi => ?_, fun hall i hi => ?_⟩⟩
      · cases i with
        | zero => exact heq
        | succ i =>
          have := hall i (by omega)
          rwa [Nat.add_right_comm s, Nat.add_right_comm r] at this
      · have := hall (i + 1) (by omega)
        rwa [← Nat.add_assoc, ← Nat.add_assoc, Nat.add_right_comm s, Nat.add_right_comm r] at this
    · rw [if_neg heq]
      refine ⟨_, rfl, fun hzero => absurd ?_ heq, fun hall => absurd (hall 0 (Nat.succ_pos n)) heq⟩
      rw [← UInt8.toNat_inj]
      omega

/-- The tables of the first `l` bytes of the needle. -/
structure Tables (w : Nat → UInt8) (l : Nat) (byteset : Byteset) (shift : UInt8 → Nat) : Prop where
  has : ∀ c, byteset.has c = true ↔ ∃ x < l, w x = c
  last : ∀ x < l, x < shift (w x)
  le : ∀ x < l, shift (w x) ≤ l

theorem Tables.start (w : Nat → UInt8) (shift : UInt8 → Nat) : Tables w 0 (fun _ => 0) shift :=
  ⟨fun c => by simp [Byteset.has], by simp, by simp⟩

theorem Tables.add (ht : Tables w l byteset shift) :
    Tables w (l + 1) (byteset.add (w l)) (Function.update shift (w l) (l + 1)) := by
  refine ⟨fun c => ?_, fun x hx => ?_, fun x hx => ?_⟩
  · rw [Byteset.has_add, Bool.or_eq_true, ht.has, beq_iff_eq]
    constructor
    · rintro (rfl | ⟨x, hx, rfl⟩)
      · exact ⟨l, Nat.lt_succ_self l, rfl⟩
      · exact ⟨x, Nat.lt_succ_of_lt hx, rfl⟩
    · rintro ⟨x, hx, rfl⟩
      rcases Nat.lt_succ_iff_lt_or_eq.mp hx with hlt | rfl
      · exact Or.inr ⟨x, hlt, rfl⟩
      · exact Or.inl rfl
  · rw [Function.update_apply]
    split
    · exact hx
    · next hne => exact ht.last x (Nat.lt_of_le_of_ne (Nat.le_of_lt_succ hx) fun heq => hne (heq ▸ rfl))
  · rw [Function.update_apply]
    split
    · exact Nat.le_refl _
    · next hne =>
      exact Nat.le_succ_of_le (ht.le x (Nat.lt_of_le_of_ne (Nat.le_of_lt_succ hx) fun heq => hne (heq ▸ rfl)))

theorem fillTables_eq {k : Nat} (hn : StringAt mem n (n + l)) (hh : StringAt mem h e)
    (ht : Tables (fun x => byteAt mem (n + x)) k byteset shift) (hk : k ≤ l) (hke : h + k ≤ e) (hfuel : l - k < fuel) :
    ∃ k' byteset' shift', fillTables mem h n fuel k byteset shift = .ok (k', byteset', shift') ∧
      Tables (fun x => byteAt mem (n + x)) k' byteset' shift' ∧
      (k' = l ∧ h + l ≤ e ∨ k' < l ∧ h + k' = e) := by
  induction fuel generalizing k byteset shift with
  | zero => omega
  | succ fuel ih =>
    rw [fillTables, hn.load_eq (by omega) (by omega), Exec.ok_bind]
    by_cases hkl : k = l
    · subst hkl
      rw [if_pos ((hn.zero_iff (by omega) (by omega)).mpr rfl)]
      exact ⟨k, byteset, shift, rfl, ht, Or.inl ⟨rfl, hke⟩⟩
    · rw [if_neg (by rw [hn.zero_iff (by omega) (by omega)]; omega), hh.load_eq (by omega) hke, Exec.ok_bind]
      by_cases hend : h + k = e
      · rw [if_pos ((hh.zero_iff (by omega) hke).mpr hend)]
        exact ⟨k, byteset, shift, rfl, ht, Or.inr ⟨by omega, hend⟩⟩
      · rw [if_neg (by rwa [hh.zero_iff (by omega) hke])]
        exact ih ht.add (by omega) (by omega) (by omega)

theorem suffixLoop_eq {r : UInt8 → UInt8 → Prop} [IsStrictTotalOrder UInt8 r] {greater : UInt8 → UInt8 → Bool}
    (hgreater : ∀ a b, greater a b = true ↔ r b a) (hn : StringAt mem n (n + l)) {ip jp k p : Nat}
    (hscan : SuffixScan r (fun x => byteAt mem (n + x)) l ip jp k p) (hfuel : 2 * l < fuel + (ip + (jp + k))) :
    ∃ c p', suffixLoop greater mem n l fuel ip jp k p = .ok (c, p') ∧
      MaxSuffix r (fun x => byteAt mem (n + x)) l c ∧ LeastPeriod (fun x => byteAt mem (n + x)) l c p' := by
  induction fuel generalizing ip jp k p with
  | zero =>
    have := hscan.first_le
    have := hscan.inWord
    omega
  | succ fuel ih =>
    have hfirst := hscan.first_le
    have hpos := hscan.pos
    have hle := hscan.le
    rw [suffixLoop]
    by_cases hjk : jp + k < l
    · rw [if_pos hjk, hn.load_eq (by omega) (by omega), Exec.ok_bind, hn.load_eq (by omega) (by omega), Exec.ok_bind]
      split
      · next heq =>
        split
        · next hkp => exact ih (hscan.whole hkp hjk heq) (by omega)
        · next hkp => exact ih (hscan.same (by omega) hjk heq) (by omega)
      · next hne =>
        split
        · next hgt => exact ih (hscan.smaller hjk ((hgreater _ _).mp hgt)) (by omega)
        · next hgt =>
          rw [hgreater] at hgt
          have hlt := (trichotomous_of r _ _).resolve_left hgt
          exact ih (hscan.larger hjk (hlt.resolve_left (Ne.symm hne))) (by omega)
    · rw [if_neg hjk]
      exact ⟨ip, p, rfl, hscan.finish (by omega)⟩

/-- What the search needs to know of the needle. -/
structure Prepared (w : Nat → UInt8) (l : Nat) (t : Needle) : Prop where
  length : t.l = l
  tables : Tables w l t.byteset t.shift
  lt : t.ms < l
  right : ∀ (mem : Memory) (i j k : Nat), (∀ x, t.ms ≤ x → x < k → byteAt mem (i + x) = w x) → k < l →
    byteAt mem (i + k) ≠ w k → j + t.ms ≤ k → ¬ Occurs w l (byteAt mem) (i + j)
  pos : 0 < t.p
  le : t.p ≤ l
  shift_le : ∀ j, 0 < j → Repeats w l t.ms j → t.p ≤ j
  memory : t.mem0 = 0 ∨ t.mem0 = l - t.p ∧ HasPeriod w l 0 t.p ∧ t.ms < t.p

theorem cut_prepared {r : UInt8 → UInt8 → Prop} [IsStrictTotalOrder UInt8 r] {c c' p : Nat} {v : Int}
    (ht : Tables w l byteset shift) (hc : MaxSuffix r w l c) (hc' : MaxSuffix (Function.swap r) w l c')
    (hcc : c' ≤ c) (hp : LeastPeriod w l c p) (hv : v = 0 ↔ ∀ i < c, w i = w (i + p)) :
    Prepared w l (if v ≠ 0 then ⟨l, byteset, shift, c, max c (l - c + 1), 0⟩ else ⟨l, byteset, shift, c, p, l - p⟩) := by
  have hlt := hc.lt
  have hplen := hp.le_length hlt
  have hppos := hp.pos
  have hright : ∀ (mem : Memory) (i j k : Nat), (∀ x, c ≤ x → x < k → byteAt mem (i + x) = w x) → k < l →
      byteAt mem (i + k) ≠ w k → j + c ≤ k → ¬ Occurs w l (byteAt mem) (i + j) :=
    fun mem i j k hk hkl hne hj => hc.not_occurs_of_ne hc' hcc hk hkl hne hj
  split
  · next hne =>
    rw [Ne, hv] at hne
    have hcpos : 0 < c := by
      by_contra hzero
      exact hne fun i hi => absurd hi (by omega)
    refine ⟨rfl, ht, hlt, hright, ?_, ?_, fun j hj hrep => ?_, Or.inl rfl⟩
    · change 0 < max c (l - c + 1)
      omega
    · change max c (l - c + 1) ≤ l
      omega
    · have hcj := hc.lt_of_repeats hj hrep
      have hjl : l < c + j := by
        by_contra hle
        have hper := hc.repeats_leastPeriod hc' hcc hp hj (by omega) hrep
        have hcp := hc.lt_of_repeats hppos hper
        exact hne fun i hi => hper i hi (by omega) (by omega)
      change max c (l - c + 1) ≤ j
      omega
  · next hzero =>
    have hrep : Repeats w l c p := fun i hi _ _ => hv.mp (not_not.mp hzero) i hi
    have hcp : c + p ≤ l := by omega
    exact ⟨rfl, ht, hlt, hright, hppos, Nat.le_trans hplen (Nat.sub_le l c),
      fun j hj => hc.le_of_repeats hc' hcc hp hj,
      Or.inr ⟨rfl, hc.hasPeriod_of_repeats hc' hcc hppos hcp hrep, hc.lt_of_repeats hppos hrep⟩⟩

theorem isStrictTotalOrder_byte : IsStrictTotalOrder UInt8 (· < ·) where
  trichotomous a b hab hba := by
    rw [UInt8.lt_iff_toNat_lt] at hab hba
    rw [← UInt8.toNat_inj]
    omega
  irrefl a h := Nat.lt_irrefl _ (UInt8.lt_iff_toNat_lt.mp h)
  trans a b c hab hbc := by
    rw [UInt8.lt_iff_toNat_lt] at hab hbc ⊢
    omega

theorem prepare_eq (hn : StringAt mem n (n + l)) (hl : 0 < l)
    (ht : Tables (fun x => byteAt mem (n + x)) l byteset shift) (hfuel : 2 * l ≤ fuel) :
    ∃ t, prepare fuel mem n l byteset shift = .ok t ∧ Prepared (fun x => byteAt mem (n + x)) l t := by
  have := isStrictTotalOrder_byte
  have : IsStrictTotalOrder UInt8 (Function.swap (· < ·)) := inferInstance
  have hstart : 2 * l < fuel + (0 + (0 + 1)) := by omega
  obtain ⟨c, p, hrun, hc, hp⟩ := @suffixLoop_eq _ _ _ _ (· < ·) _ (fun a b => b < a) (fun a b => decide_eq_true_iff)
    hn _ _ _ _ (SuffixScan.start hl) hstart
  obtain ⟨c', p', hrun', hc', hp'⟩ := @suffixLoop_eq _ _ _ _ (Function.swap (· < ·)) _ (fun a b => a < b)
    (fun a b => decide_eq_true_iff) hn _ _ _ _ (SuffixScan.start hl) hstart
  have hmapped : ∀ {c p : Nat}, c < l → p ≤ l - c → ∀ i < c, mem (n + i) ≠ none ∧ mem (n + p + i) ≠ none :=
    fun hcl hpl i hi => ⟨hn.mapped _ (by omega) (by omega), hn.mapped _ (by omega) (by omega)⟩
  rw [prepare, hrun, Exec.ok_bind]
  dsimp only
  rw [hrun', Exec.ok_bind]
  by_cases hgt : c' > c
  · obtain ⟨v, hcmp, hv⟩ := memcmp_eq (hmapped hc'.lt (hp'.le_length hc'.lt))
    simp only [if_pos hgt]
    rw [hcmp, Exec.ok_bind]
    refine ⟨_, (apply_ite Except.ok _ _ _).symm, cut_prepared ht hc' hc (Nat.le_of_lt hgt) hp' ?_⟩
    simpa only [Nat.add_assoc, Nat.add_comm p'] using hv
  · obtain ⟨v, hcmp, hv⟩ := memcmp_eq (hmapped hc.lt (hp.le_length hc.lt))
    simp only [if_neg hgt]
    rw [hcmp, Exec.ok_bind]
    refine ⟨_, (apply_ite Except.ok _ _ _).symm, cut_prepared ht hc hc' (Nat.le_of_not_lt hgt) hp ?_⟩
    simpa only [Nat.add_assoc, Nat.add_comm p] using hv

end Needle

/-! ## The search -/

section Search

open Words

variable {mem : Memory} {e a n l h₀ h z m fuel : Nat} {t : Needle} {w : Nat → UInt8}

/-- The needle `w` stands at no place of the haystack from `h` up to, but not including, `h'`. -/
def NoneIn (mem : Memory) (e : Nat) (w : Nat → UInt8) (l h h' : Nat) : Prop :=
  ∀ a, h ≤ a → a < h' → a + l ≤ e → ¬ Occurs w l (byteAt mem) a

/-- The first place of the needle in the haystack from `h` to `e`. -/
def FirstPlace (mem : Memory) (e : Nat) (w : Nat → UInt8) (l h : Nat) : Option Nat → Prop
  | some a => h ≤ a ∧ a + l ≤ e ∧ Occurs w l (byteAt mem) a ∧ NoneIn mem e w l h a
  | none => NoneIn mem e w l h (e + 1)

/-- What holds at the start of a round: no place in front of `h` has been missed, the haystack goes on up to
`z`, and `m` bytes of the needle are known to agree. -/
structure Searching (mem : Memory) (e : Nat) (w : Nat → UInt8) (l : Nat) (t : Needle) (h₀ h z m : Nat) : Prop where
  start : h₀ ≤ h
  le : h ≤ z
  inside : z ≤ e
  missed : NoneIn mem e w l h₀ h
  memory : m = 0 ∨ m = l - t.p ∧ HasPeriod w l 0 t.p
  known : ∀ x < m, byteAt mem (h + x) = w x

/-- The round has gone well: it returns the first place, or the needle moves on. -/
def RoundRight (mem : Memory) (e : Nat) (w : Nat → UInt8) (l : Nat) (t : Needle) (h₀ h : Nat) : Round → Prop
  | .done r => FirstPlace mem e w l h₀ r
  | .next h' z' m' => h < h' ∧ Searching mem e w l t h₀ h' z' m'

theorem NoneIn.append {h' h'' : Nat} (hn : NoneIn mem e w l h h') (hn' : NoneIn mem e w l h' h'') :
    NoneIn mem e w l h h'' := by
  intro a hha hah
  by_cases ha : a < h'
  · exact hn a hha ha
  · exact hn' a (by omega) hah

theorem haystackEnd_eq (halign : AlignedMapping mem) (hh : StringAt mem h₀ e) (hstart : h₀ ≤ h) (hhz : h ≤ z)
    (hze : z ≤ e) : haystackEnd mem l h z = .ok none ∧ e < h + l ∨
      ∃ z', haystackEnd mem l h z = .ok (some z') ∧ z ≤ z' ∧ z' ≤ e ∧ h + l ≤ z' := by
  have hgrow : l ≤ l ||| 63 := Nat.left_le_or
  have hz0 : h₀ ≤ z := Nat.le_trans hstart hhz
  rw [haystackEnd]
  by_cases hnear : z - h < l
  · have hread : Readable mem 0 z (l ||| 63) := by
      intro a hza _ hbefore
      refine hh.mapped a (by omega) (Nat.le_of_not_lt fun hea => ?_)
      exact hbefore e hze hea ((hh.zero_iff hh.le (Nat.le_refl e)).mpr rfl)
    rw [if_pos hnear]
    rcases memchr_scan halign hread with ⟨z', hrun, -, hfound⟩ | ⟨hrun, hnone⟩
    · obtain rfl : z' = e := by
        have hzero : byteAt mem z' = 0 := by simpa using hfound.hit
        by_cases hle : z' ≤ e
        · exact (hh.zero_iff (Nat.le_trans hz0 hfound.le) hle).mp hzero
        · have hin := hfound.before e hze (by omega)
          rw [(hh.zero_iff hh.le (Nat.le_refl e)).mpr rfl] at hin
          exact absurd hin (by decide)
      rw [hrun, Exec.ok_bind]
      by_cases hfar : z' - h < l
      · exact Or.inl ⟨by simp only [if_pos hfar]; rfl, by omega⟩
      · exact Or.inr ⟨z', by simp only [if_neg hfar]; rfl, hfound.le, Nat.le_refl z', by omega⟩
    · have hze' : z + (l ||| 63) ≤ e := by
        by_contra hlt
        exact hnone e hze (by omega) ((hh.zero_iff hh.le (Nat.le_refl e)).mpr rfl)
      rw [hrun, Exec.ok_bind]
      exact Or.inr ⟨_, rfl, Nat.le_add_right _ _, hze', by omega⟩
  · rw [if_neg hnear]
    exact Or.inr ⟨z, rfl, Nat.le_refl z, hze, by omega⟩

theorem matchRight_eq {k : Nat} (hn : StringAt mem n (n + l)) (hh : StringAt mem h₀ e) (hstart : h₀ ≤ h)
    (hend : h + l ≤ e) (hk : k ≤ l) (hfuel : l - k < fuel) :
    ∃ k', matchRight mem h n fuel k = .ok k' ∧ k ≤ k' ∧ k' ≤ l ∧
      (∀ x, k ≤ x → x < k' → byteAt mem (h + x) = byteAt mem (n + x)) ∧
      (k' < l → byteAt mem (h + k') ≠ byteAt mem (n + k')) := by
  induction fuel generalizing k with
  | zero => omega
  | succ fuel ih =>
    rw [matchRight, hn.load_eq (by omega) (by omega), Exec.ok_bind]
    by_cases hkl : k = l
    · subst hkl
      rw [if_pos ((hn.zero_iff (by omega) (by omega)).mpr rfl)]
      exact ⟨k, rfl, Nat.le_refl k, Nat.le_refl k, fun x _ _ => by omega, fun hlt => absurd hlt (Nat.lt_irrefl k)⟩
    · rw [if_neg (by rw [hn.zero_iff (by omega) (by omega)]; omega), hh.load_eq (by omega) (by omega), Exec.ok_bind]
      by_cases heq : byteAt mem (n + k) = byteAt mem (h + k)
      · obtain ⟨k', hrun, hkk, hkl', hsame, hdiff⟩ := ih (k := k + 1) (by omega) (by omega)
        rw [if_pos heq]
        refine ⟨k', hrun, by omega, hkl', fun x hkx hxk => ?_, hdiff⟩
        by_cases hx : x = k
        · rw [hx, heq]
        · exact hsame x (by omega) hxk
      · rw [if_neg heq]
        exact ⟨k, rfl, Nat.le_refl k, hk, fun x _ _ => by omega, fun _ => Ne.symm heq⟩

theorem matchLeft_eq {k : Nat} (hread : ∀ x < k, mem (n + x) ≠ none ∧ mem (h + x) ≠ none) :
    ∃ k', matchLeft mem h n m k = .ok k' ∧ k' ≤ k ∧
      (∀ x, k' ≤ x → x < k → byteAt mem (h + x) = byteAt mem (n + x)) ∧
      (m < k' → byteAt mem (h + (k' - 1)) ≠ byteAt mem (n + (k' - 1))) := by
  induction k with
  | zero => exact ⟨0, rfl, Nat.le_refl 0, fun x _ hx => absurd hx (Nat.not_lt_zero x), fun hm => absurd hm (Nat.not_lt_zero m)⟩
  | succ k ih =>
    rw [matchLeft]
    by_cases hm : m < k + 1
    · have hfirst := hread k (Nat.lt_succ_self k)
      rw [if_pos hm, load_eq hfirst.1, Exec.ok_bind, load_eq hfirst.2, Exec.ok_bind]
      by_cases heq : byteAt mem (n + k) = byteAt mem (h + k)
      · obtain ⟨k', hrun, hle, hsame, hdiff⟩ := ih fun x hx => hread x (by omega)
        rw [if_pos heq]
        refine ⟨k', hrun, by omega, fun x hkx hxk => ?_, hdiff⟩
        by_cases hx : x = k
        · rw [hx, heq]
        · exact hsame x hkx (by omega)
      · rw [if_neg heq]
        exact ⟨k + 1, rfl, Nat.le_refl _, fun x hkx hxk => by omega, fun _ => Ne.symm heq⟩
    · rw [if_neg hm]
      exact ⟨k + 1, rfl, Nat.le_refl _, fun x hkx hxk => by omega, fun hlt => absurd hlt hm⟩

/-- The last byte is not in the needle, or its last place there is `k` from the end. -/
theorem noneIn_last_byte {k : Nat} (hk : k ≤ l)
    (hlast : ∀ x < l, byteAt mem (h + (l - 1)) = w x → x + k < l) : NoneIn mem e w l h (h + k) := by
  intro a hha hak _ hocc
  have hat := hocc (l - 1 - (a - h)) (by omega)
  rw [show a + (l - 1 - (a - h)) = h + (l - 1) by omega] at hat
  have := hlast _ (by omega) hat
  omega

/-- With bytes known from the round before, the needle can be moved behind all of them. -/
theorem Prepared.known_bytes (ht : Prepared w l t) (hs : Searching mem e w l t h₀ h z m) (hm : 0 < m)
    (hlast : byteAt mem (h + (l - 1)) ≠ w (l - 1)) : NoneIn mem e w l h (h + m) := by
  obtain ⟨hml, hper⟩ := hs.memory.resolve_left (by omega)
  have hp := ht.pos
  have hple := ht.le
  intro a hha ham _ hocc
  have hend := hocc (l - 1 - (a - h)) (by omega)
  rw [show a + (l - 1 - (a - h)) = h + (l - 1) by omega] at hend
  have hat := hocc (m - 1 - (a - h)) (by omega)
  rw [show a + (m - 1 - (a - h)) = h + (m - 1) by omega, hs.known (m - 1) (by omega),
    hper (m - 1) (Nat.zero_le _) (by omega), hper (m - 1 - (a - h)) (Nat.zero_le _) (by omega),
    show m - 1 + t.p = l - 1 by omega, show m - 1 - (a - h) + t.p = l - 1 - (a - h) by omega, ← hend] at hat
  exact hlast hat.symm

/-- The needle is moved, and nothing of the haystack is remembered. -/
theorem Searching.move {k z' : Nat} (hs : Searching mem e w l t h₀ h z m) (hk : 0 < k) (hkz : h + k ≤ z')
    (hz : z' ≤ e) (hmissed : NoneIn mem e w l h (h + k)) :
    RoundRight mem e w l t h₀ h (.next (h + k) z' 0) :=
  ⟨by omega, Nat.le_trans hs.start (Nat.le_add_right h k), hkz, hz, hs.missed.append hmissed, Or.inl rfl,
    fun x hx => absurd hx (Nat.not_lt_zero x)⟩

section Round

variable (hn : StringAt mem n (n + l)) (hh : StringAt mem h₀ e)
  (ht : Prepared (fun x => byteAt mem (n + x)) l t)
include hn hh ht

theorem compareHalves_right {z' : Nat} (hs : Searching mem e (fun x => byteAt mem (n + x)) l t h₀ h z m)
    (hz : h + l ≤ z') (hze : z' ≤ e) (hfuel : l < fuel) : ∃ r, compareHalves fuel mem n t h z' m = .ok r ∧
      RoundRight mem e (fun x => byteAt mem (n + x)) l t h₀ h r := by
  have hstart := hs.start
  have hlt := ht.lt
  have hpos := ht.pos
  have hle := ht.le
  have hml : m ≤ l := by
    rcases hs.memory with rfl | ⟨rfl, -⟩ <;> omega
  obtain ⟨k, hright, hk, hkl, hsame, hdiff⟩ :=
    @matchRight_eq mem e n l h₀ h fuel (max t.ms m) hn hh hstart (by omega) (by omega) (by omega)
  have hfromCut : ∀ x, t.ms ≤ x → x < k → byteAt mem (h + x) = byteAt mem (n + x) := by
    intro x hmsx hxk
    by_cases hxm : x < m
    · exact hs.known x hxm
    · exact hsame x (by omega) hxk
  rw [compareHalves, hright, Exec.ok_bind, hn.load_eq (by omega) (by omega), Exec.ok_bind]
  by_cases hend : k = l
  · subst hend
    rw [if_neg (not_not.mpr ((hn.zero_iff (by omega) (by omega)).mpr rfl))]
    obtain ⟨k', hleft, hk', hsame', hdiff'⟩ := @matchLeft_eq mem n h m t.ms fun x hx =>
      ⟨hn.mapped _ (by omega) (by omega), hh.mapped _ (by omega) (by omega)⟩
    rw [hleft, Exec.ok_bind]
    by_cases hkm : k' ≤ m
    · rw [if_pos hkm]
      refine ⟨_, rfl, hstart, by omega, fun x hx => ?_, hs.missed⟩
      by_cases hxm : x < m
      · exact hs.known x hxm
      · by_cases hxms : x < t.ms
        · exact hsame' x (by omega) hxms
        · exact hfromCut x (by omega) hx
    · rw [if_neg hkm]
      refine ⟨_, rfl, by omega, by omega, by omega, hze, hs.missed.append ?_, ?_, fun x hx => ?_⟩
      · intro a hha hap _ hocc
        by_cases hah : a = h
        · subst hah
          exact hdiff' (by omega) (hocc (k' - 1) (by omega))
        · rw [show a = h + (a - h) by omega] at hocc
          have := ht.shift_le _ (by omega) (hocc.repeats_of_right hfromCut)
          omega
      · exact ht.memory.imp id fun hmem => ⟨hmem.1, hmem.2.1⟩
      · rcases ht.memory with hmem | ⟨hmem, hper, hcut⟩
        · rw [hmem] at hx
          exact absurd hx (Nat.not_lt_zero x)
        · rw [show h + t.p + x = h + (x + t.p) by omega, hfromCut (x + t.p) (by omega) (by omega)]
          exact (hper x (Nat.zero_le x) (by omega)).symm
  · rw [if_pos (by rw [Ne, hn.zero_iff (by omega) (by omega)]; omega)]
    refine ⟨_, rfl, hs.move (by omega) (by omega) hze fun a hha hak _ hocc => ?_⟩
    rw [show a = h + (a - h) by omega] at hocc
    exact ht.right mem h (a - h) k hfromCut (by omega) (hdiff (by omega)) (by omega) hocc

theorem searchRound_right (halign : AlignedMapping mem) (hl : 0 < l)
    (hs : Searching mem e (fun x => byteAt mem (n + x)) l t h₀ h z m) (hfuel : l < fuel) :
    ∃ r, searchRound fuel mem n t h z m = .ok r ∧
      RoundRight mem e (fun x => byteAt mem (n + x)) l t h₀ h r := by
  have hstart := hs.start
  rw [searchRound, ht.length]
  rcases @haystackEnd_eq mem e l h₀ h z halign hh hstart hs.le hs.inside with ⟨hrun, hshort⟩ | ⟨z', hrun, hzz, hze, hhl⟩
  · rw [hrun, Exec.ok_bind]
    refine ⟨_, rfl, hs.missed.append fun a hha hae hal => by omega⟩
  · rw [hrun, Exec.ok_bind]
    dsimp only
    rw [hh.load_eq (by omega) (by omega), Exec.ok_bind]
    by_cases hhas : t.byteset.has (byteAt mem (h + (l - 1))) = true
    · rw [if_pos hhas]
      obtain ⟨x, hx, hat⟩ := (ht.tables.has _).mp hhas
      have hlast := ht.tables.last
      have hshift := ht.tables.le x hx
      have hpos := ht.tables.last x hx
      rw [hat] at hshift hpos
      by_cases hk : l - t.shift (byteAt mem (h + (l - 1))) = 0
      · rw [if_neg (not_not.mpr hk)]
        exact compareHalves_right hn hh ht hs hhl hze hfuel
      · rw [if_pos hk]
        refine ⟨_, rfl, ?_⟩
        split
        · next hmem =>
          have hml := (hs.memory.resolve_left hmem.2.1).1
          rw [← hml]
          refine hs.move (Nat.pos_of_ne_zero hmem.2.1) (by omega) hze
            (ht.known_bytes hs (Nat.pos_of_ne_zero hmem.2.1) fun heq => ?_)
          have := hlast (l - 1) (by omega)
          rw [← heq] at this
          omega
        · refine hs.move (Nat.pos_of_ne_zero hk) (by omega) hze (noneIn_last_byte (by omega) fun y hy heq => ?_)
          have := hlast y hy
          rw [← heq] at this
          omega
    · rw [if_neg hhas]
      refine ⟨_, rfl, hs.move hl (by omega) hze (noneIn_last_byte (Nat.le_refl l) fun x hx heq => ?_)⟩
      exact absurd ((ht.tables.has _).mpr ⟨x, hx, heq.symm⟩) hhas

theorem searchLoop_first (halign : AlignedMapping mem) (hl : 0 < l) {rounds : Nat}
    (hs : Searching mem e (fun x => byteAt mem (n + x)) l t h₀ h z m) (hfuel : l < fuel) (hrounds : e - h < rounds) :
    ∃ r, searchLoop fuel mem n t rounds h z m = .ok r ∧ FirstPlace mem e (fun x => byteAt mem (n + x)) l h₀ r := by
  induction rounds generalizing h z m with
  | zero => omega
  | succ rounds ih =>
    obtain ⟨r, hround, hright⟩ := searchRound_right hn hh ht halign hl hs hfuel
    rw [searchLoop, hround, Exec.ok_bind]
    cases r with
    | done r => exact ⟨r, rfl, hright⟩
    | next h' z' m' =>
      have hlt := hright.1
      have hle := hright.2.le
      have hin := hright.2.inside
      exact ih hright.2 (by omega)

end Round

/-- The first place of the needle is found, whatever the two strings and the stack hold. -/
theorem strstrTwoway_first (halign : AlignedMapping mem) (hh : StringAt mem h e) (hn : StringAt mem n (n + l))
    (hl : 0 < l) (shift : UInt8 → Nat) (hfuel : 2 * l ≤ fuel) (hfuel' : e - h < fuel) :
    ∃ r, strstrTwoway fuel mem shift h n = .ok r ∧ FirstPlace mem e (fun x => byteAt mem (n + x)) l h r := by
  obtain ⟨k, byteset, shift', htables, ht, hcases⟩ :=
    fillTables_eq hn hh (Tables.start _ shift) (Nat.zero_le l) hh.le (by omega : l - 0 < fuel)
  rw [strstrTwoway, htables, Exec.ok_bind]
  dsimp only
  rcases hcases with ⟨rfl, hfits⟩ | ⟨hshort, hend⟩
  · obtain ⟨t, hprepare, hprepared⟩ := prepare_eq hn hl ht hfuel
    rw [hn.load_eq (by omega) (by omega), Exec.ok_bind,
      if_neg (not_not.mpr ((hn.zero_iff (by omega) (by omega)).mpr rfl)), hprepare, Exec.ok_bind]
    refine searchLoop_first hn hh hprepared halign hl ⟨Nat.le_refl h, Nat.le_refl h, hh.le, ?_, Or.inl rfl, ?_⟩
      (by omega) hfuel'
    · exact fun a hha hah => absurd hah (by omega)
    · exact fun x hx => absurd hx (Nat.not_lt_zero x)
  · rw [hn.load_eq (by omega) (by omega), Exec.ok_bind, if_pos (by rw [Ne, hn.zero_iff (by omega) (by omega)]; omega)]
    exact ⟨none, rfl, fun a hha _ hal => by omega⟩

end Search

end KernelTest.Libc.Raw
