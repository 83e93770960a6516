import Mathlib.Tactic.Ring
import Mathlib.Tactic.NormNum

/-!
# Byte buffers and little-endian words

Memory seen from a pointer, with the copies and the fixed-width loads and stores that C code
performs on packed structures. Nothing here depends on a particular program.
-/

namespace KernelTest

/-- Memory seen from a pointer: `b i` is the byte `i` places past it. -/
abbrev Buf := Nat → UInt8

/-- Value of an `n` stored in an unsigned 8-, 16- or 32-bit variable. -/
def u8 (n : Nat) : Nat := n % 256

def u16 (n : Nat) : Nat := n % 65536

def u32 (n : Nat) : Nat := n % 4294967296

/-- Unsigned 32-bit subtraction of two 32-bit values. -/
def sub32 (a b : Nat) : Nat := u32 (a + 4294967296 - b)

theorem u32_lt (n : Nat) : u32 n < 4294967296 := Nat.mod_lt _ (by decide)

theorem u32_of_lt {n : Nat} (h : n < 4294967296) : u32 n = n := Nat.mod_eq_of_lt h

theorem u16_of_lt {n : Nat} (h : n < 65536) : u16 n = n := Nat.mod_eq_of_lt h

theorem u8_of_lt {n : Nat} (h : n < 256) : u8 n = n := Nat.mod_eq_of_lt h

theorem sub32_of_le {a b : Nat} (ha : a < 4294967296) (h : b ≤ a) : sub32 a b = a - b := by
  unfold sub32 u32
  omega

/-- `memcpy(dst + pos, src + start, n)`. -/
def blit (dst : Buf) (pos : Nat) (src : Buf) (start n : Nat) : Buf :=
  fun i => if pos ≤ i ∧ i < pos + n then src (start + (i - pos)) else dst i

/-- `memset(dst + pos, v, n)`. -/
def fill (dst : Buf) (pos : Nat) (v : UInt8) (n : Nat) : Buf :=
  fun i => if pos ≤ i ∧ i < pos + n then v else dst i

/-- The first `n` bytes, followed by zeros. -/
def clip (n : Nat) (b : Buf) : Buf := fun i => if i < n then b i else 0

/-- Two buffers hold the same first `n` bytes. -/
def SameBytes (n : Nat) (a b : Buf) : Prop := ∀ i, i < n → a i = b i

theorem blit_inside {dst : Buf} {pos : Nat} {src : Buf} {start n i : Nat}
    (h : pos ≤ i) (h' : i < pos + n) : blit dst pos src start n i = src (start + (i - pos)) :=
  if_pos ⟨h, h'⟩

theorem blit_outside {dst : Buf} {pos : Nat} {src : Buf} {start n i : Nat}
    (h : i < pos ∨ pos + n ≤ i) : blit dst pos src start n i = dst i := by
  apply if_neg
  omega

theorem blit_whole {dst src : Buf} {n i : Nat} (h : i < n) : blit dst 0 src 0 n i = src i := by
  rw [blit_inside (Nat.zero_le i) (by omega)]
  simp

theorem fill_inside {dst : Buf} {pos n i : Nat} {v : UInt8} (h : pos ≤ i) (h' : i < pos + n) :
    fill dst pos v n i = v :=
  if_pos ⟨h, h'⟩

theorem fill_outside {dst : Buf} {pos n i : Nat} {v : UInt8} (h : i < pos ∨ pos + n ≤ i) :
    fill dst pos v n i = dst i := by
  apply if_neg
  omega

theorem clip_of_lt {n i : Nat} (b : Buf) (h : i < n) : clip n b i = b i := if_pos h

theorem clip_congr {n : Nat} {a b : Buf} (h : SameBytes n a b) : clip n a = clip n b := by
  funext i
  by_cases hi : i < n
  · rw [clip_of_lt a hi, clip_of_lt b hi, h i hi]
  · rw [clip, clip, if_neg hi, if_neg hi]

theorem sameBytes_clip (n : Nat) (b : Buf) : SameBytes n (clip n b) b :=
  fun _ hi => clip_of_lt b hi

theorem SameBytes.symm {n : Nat} {a b : Buf} (h : SameBytes n a b) : SameBytes n b a :=
  fun i hi => (h i hi).symm

/-- The `w`-byte little-endian word stored at `o`. -/
def getLE : Nat → Buf → Nat → Nat
  | 0, _, _ => 0
  | w + 1, b, o => (b o).toNat + 256 * getLE w b (o + 1)

/-- Store `v` as a `w`-byte little-endian word at `o`; higher bytes of `v` are dropped. -/
def putLE : Nat → Buf → Nat → Nat → Buf
  | 0, b, _, _ => b
  | w + 1, b, o, v => fun i => if i = o then UInt8.ofNat v else putLE w b (o + 1) (v / 256) i

def get16 (b : Buf) (o : Nat) : Nat := getLE 2 b o

def get32 (b : Buf) (o : Nat) : Nat := getLE 4 b o

def put16 (b : Buf) (o v : Nat) : Buf := putLE 2 b o v

def put32 (b : Buf) (o v : Nat) : Buf := putLE 4 b o v

def put8 (b : Buf) (o v : Nat) : Buf := putLE 1 b o v

theorem getLE_congr {w o : Nat} {a b : Buf} (h : ∀ i, o ≤ i → i < o + w → a i = b i) :
    getLE w a o = getLE w b o := by
  induction w generalizing o with
  | zero => rfl
  | succ w ih =>
    rw [getLE, getLE, h o (le_refl o) (by omega),
      ih fun i hi hi' => h i (by omega) (by omega)]

theorem getLE_shift {w o o' : Nat} {a b : Buf} (h : ∀ i, i < w → a (o + i) = b (o' + i)) :
    getLE w a o = getLE w b o' := by
  induction w generalizing o o' with
  | zero => rfl
  | succ w ih =>
    have hhead : a o = b o' := by simpa using h 0 (by omega)
    have htail : getLE w a (o + 1) = getLE w b (o' + 1) := by
      apply ih
      intro i hi
      have hstep := h (i + 1) (by omega)
      rwa [← Nat.add_assoc, Nat.add_right_comm, ← Nat.add_assoc, Nat.add_right_comm o'] at hstep
    rw [getLE, getLE, hhead, htail]

theorem getLE_lt (w : Nat) (b : Buf) (o : Nat) : getLE w b o < 256 ^ w := by
  induction w generalizing o with
  | zero => simp [getLE]
  | succ w ih =>
    have hb : (b o).toNat < 256 := (b o).toNat_lt
    have hw := ih (o + 1)
    rw [getLE, pow_succ]
    omega

theorem putLE_outside {w o : Nat} (b : Buf) {v i : Nat} (h : i < o ∨ o + w ≤ i) :
    putLE w b o v i = b i := by
  induction w generalizing o v with
  | zero => rfl
  | succ w ih =>
    have hne : i ≠ o := by omega
    simp only [putLE, hne, if_false]
    exact ih (by omega)

theorem getLE_putLE_same (w : Nat) (b : Buf) (o v : Nat) :
    getLE w (putLE w b o v) o = v % 256 ^ w := by
  induction w generalizing b o v with
  | zero => simp [getLE, Nat.mod_one]
  | succ w ih =>
    have htail : getLE w (putLE (w + 1) b o v) (o + 1) =
        getLE w (putLE w b (o + 1) (v / 256)) (o + 1) := by
      apply getLE_congr
      intro i hi _
      have hne : i ≠ o := by omega
      simp only [putLE, hne, if_false]
    have hhead : putLE (w + 1) b o v o = UInt8.ofNat v := if_pos rfl
    have hbyte : (UInt8.ofNat v).toNat = v % 256 := by
      simp
    rw [getLE, htail, hhead, ih, hbyte, pow_succ', Nat.mod_mul]

theorem getLE_putLE_disjoint {w w' o o' : Nat} (b : Buf) (v : Nat)
    (h : o' + w' ≤ o ∨ o + w ≤ o') : getLE w' (putLE w b o v) o' = getLE w' b o' :=
  getLE_congr fun _ _ _ => putLE_outside b (by omega)

theorem get32_lt (b : Buf) (o : Nat) : get32 b o < 4294967296 := getLE_lt 4 b o

theorem get16_lt (b : Buf) (o : Nat) : get16 b o < 65536 := getLE_lt 2 b o

theorem get32_put32 (b : Buf) (o v : Nat) : get32 (put32 b o v) o = u32 v :=
  getLE_putLE_same 4 b o v

theorem put32_outside (b : Buf) {o v i : Nat} (h : i < o ∨ o + 4 ≤ i) : put32 b o v i = b i :=
  putLE_outside b h

theorem get32_put32_disjoint (b : Buf) {o o' : Nat} (v : Nat) (h : o' + 4 ≤ o ∨ o + 4 ≤ o') :
    get32 (put32 b o v) o' = get32 b o' :=
  getLE_putLE_disjoint b v h

theorem get16_put16 (b : Buf) (o v : Nat) : get16 (put16 b o v) o = u16 v :=
  getLE_putLE_same 2 b o v

theorem put8_same (b : Buf) (o v : Nat) : put8 b o v o = UInt8.ofNat v := if_pos rfl

theorem get32_congr {o : Nat} {a b : Buf} (h : ∀ i, o ≤ i → i < o + 4 → a i = b i) :
    get32 a o = get32 b o :=
  getLE_congr h

theorem get16_congr {o : Nat} {a b : Buf} (h : ∀ i, o ≤ i → i < o + 2 → a i = b i) :
    get16 a o = get16 b o :=
  getLE_congr h

theorem get32_of_sameBytes {n o : Nat} {a b : Buf} (h : SameBytes n a b) (ho : o + 4 ≤ n) :
    get32 a o = get32 b o :=
  get32_congr fun i _ hi => h i (by omega)

theorem get32_put32_index (b : Buf) (i j v : Nat) :
    get32 (put32 b (4 * i) v) (4 * j) = if j = i then u32 v else get32 b (4 * j) := by
  split
  · next h => rw [h, get32_put32]
  · exact getLE_putLE_disjoint b v (by omega)

theorem get32_zero {b : Buf} {o : Nat} (h : ∀ i, o ≤ i → i < o + 4 → b i = 0) : get32 b o = 0 := by
  have hz : get32 b o = get32 (fun _ => 0) o := get32_congr fun i hi hi' => h i hi hi'
  rw [hz]
  rfl

example : get32 (put32 (fun _ => 255) 8 0x1020304) 8 = 0x1020304 := by decide

end KernelTest
