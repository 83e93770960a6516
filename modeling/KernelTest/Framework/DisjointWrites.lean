import KernelTest.Framework.Bytes

/-!
# Sequences of writes to disjoint places

A list of steps, each of which writes only the bytes it touches, no byte being touched twice. Such a
list can be judged step by step: it ends as another one does exactly when every step does what
the other's does.
-/

namespace KernelTest

theorem getLE_inj {w o : Nat} {a b : Buf} (h : getLE w a o = getLE w b o) {i : Nat} (hi : o ≤ i)
    (hi' : i < o + w) : a i = b i := by
  induction w generalizing o with
  | zero => omega
  | succ w ih =>
    rw [getLE, getLE] at h
    have ha := (a o).toNat_lt
    have hb := (b o).toNat_lt
    by_cases hio : i = o
    · rw [hio]
      exact UInt8.toNat_inj.1 (by omega)
    · have htail : getLE w a (o + 1) = getLE w b (o + 1) := by omega
      exact ih htail (by omega) (by omega)

theorem eq_of_get32_eq {o : Nat} {a b : Buf} (h : get32 a o = get32 b o)
    (hout : ∀ i, i < o ∨ o + 4 ≤ i → a i = b i) : a = b := by
  funext i
  by_cases hi : o ≤ i ∧ i < o + 4
  · exact getLE_inj h hi.1 hi.2
  · exact hout i (by omega)

theorem put32_eq_iff (b : Buf) (o v w : Nat) : put32 b o v = put32 b o w ↔ u32 v = u32 w := by
  constructor
  · intro h
    rw [← get32_put32 b o v, h, get32_put32]
  · intro h
    apply eq_of_get32_eq (o := o)
    · rw [get32_put32, get32_put32, h]
    · intro i hi
      rw [put32_outside b hi, put32_outside b hi]

theorem eq_put32_iff (b : Buf) (o v : Nat) : b = put32 b o v ↔ get32 b o = u32 v := by
  constructor
  · intro h
    rw [← get32_put32 b o v, ← h]
  · intro h
    apply eq_of_get32_eq (o := o)
    · rw [get32_put32, h]
    · intro i hi
      rw [put32_outside b hi]

namespace DisjointWrites

variable {ι : Type} {touches : ι → Nat → Prop}

def Local (touches : ι → Nat → Prop) (step : Buf → ι → Buf) : Prop :=
  ∀ b r i, ¬ touches r i → step b r i = b i

/-- No byte is touched by two of the steps. -/
def Disjoint (touches : ι → Nat → Prop) (rs : List ι) : Prop :=
  rs.Pairwise fun r r' => ∀ i, touches r i → ¬ touches r' i

variable {step step' : Buf → ι → Buf}

theorem foldl_outside (h : Local touches step) {rs : List ι} {i : Nat}
    (hi : ∀ r ∈ rs, ¬ touches r i) (b : Buf) : rs.foldl step b i = b i := by
  induction rs generalizing b with
  | nil => rfl
  | cons r rs ih =>
    rw [List.foldl_cons, ih (fun r' hr' => hi r' (by simp [hr'])), h b r i (hi r (by simp))]

theorem foldl_inside (h : Local touches step) {pre post : List ι} {r : ι} {i : Nat}
    (hd : Disjoint touches (pre ++ r :: post)) (hi : touches r i) (b : Buf) :
    (pre ++ r :: post).foldl step b i = step (pre.foldl step b) r i ∧ pre.foldl step b i = b i := by
  rw [Disjoint, List.pairwise_append, List.pairwise_cons] at hd
  constructor
  · rw [List.foldl_append, List.foldl_cons]
    exact foldl_outside h (fun r' hr' => hd.2.1.1 r' hr' i hi) _
  · exact foldl_outside h (fun r' hr' hi' => hd.2.2 r' hr' r (by simp) i hi' hi) b

theorem foldl_eq_iff (h : Local touches step) (h' : Local touches step') {rs : List ι}
    (hd : Disjoint touches rs) (b : Buf) :
    rs.foldl step b = rs.foldl step' b ↔
      ∀ pre r post, rs = pre ++ r :: post →
        step (pre.foldl step' b) r = step' (pre.foldl step' b) r := by
  induction rs generalizing b with
  | nil => simp
  | cons r rs ih =>
    rw [List.foldl_cons, List.foldl_cons]
    have hrest : Disjoint touches rs := (List.pairwise_cons.1 hd).2
    have hfirst : ∀ r' ∈ rs, ∀ i, touches r i → ¬ touches r' i := (List.pairwise_cons.1 hd).1
    constructor
    · intro heq
      have hstep : step b r = step' b r := by
        funext i
        by_cases hi : touches r i
        · have hbyte := congrFun heq i
          rwa [foldl_outside h fun r' hr' => hfirst r' hr' i hi,
            foldl_outside h' fun r' hr' => hfirst r' hr' i hi] at hbyte
        · rw [h b r i hi, h' b r i hi]
      rw [hstep, ih hrest] at heq
      intro pre s post hsplit
      cases pre with
      | nil =>
        cases hsplit
        exact hstep
      | cons p pre =>
        cases hsplit
        exact heq pre s post rfl
    · intro hsteps
      have hstep : step b r = step' b r := hsteps [] r rs rfl
      rw [hstep, ih hrest]
      intro pre s post hsplit
      exact hsteps (r :: pre) s post (by rw [hsplit, List.cons_append])

end DisjointWrites

end KernelTest
