import KernelTest.Task.FileTables

/-!
# Descriptors

`task_append_fd` and `process_move_fd` with every access to the array `entries`, which has `capacity`
slots. The table of `spawn_rootproc` has four of them.

`process_move_fd` compares with `>` where `>=` is meant, so that the slot behind the last one can be
moved and overwritten. If the table is full, that slot is not in the array.
-/

namespace KernelTest.Task

inductive TableFault
  /-- An access behind the array `entries`. -/
  | outside
  /-- `realloc` of an array that is as large as the address space. -/
  | memory
  deriving DecidableEq, Repr

namespace FdTable

/-- `entries[i]` -/
def load (t : FdTable) (i : Nat) : Except TableFault (Option Nat) :=
  if i < t.capacity then .ok (t.entries i) else .error .outside

/-- `entries[i] = node` -/
def store (t : FdTable) (i : Nat) (node : Option Nat) : Except TableFault FdTable :=
  if i < t.capacity then .ok { t with entries := Function.update t.entries i node }
  else .error .outside

/-- The loop of `task_append_fd` that fills a gap, with `k` slots to go. -/
def fillGap (t : FdTable) (node : Option Nat) : Nat → Nat → Except TableFault (Option (Nat × FdTable))
  | 0, _ => return none
  | k + 1, i => do
    if (← t.load i).isNone then
      return some (i, ← t.store i node)
    else
      fillGap t node k (i + 1)

/-- `capacity *= 2` and `realloc(entries, sizeof(FILE *) * capacity)` -/
def expand (t : FdTable) (junk : Nat → Option Nat) : Except TableFault FdTable :=
  if 4 * (t.capacity * 2) < 4294967296 then .ok (growTable t junk) else .error .memory

/-- The end of `task_append_fd`: no gaps, expand. -/
def appendLast (t : FdTable) (node : Option Nat) (junk : Nat → Option Nat) :
    Except TableFault (Nat × FdTable) := do
  let t ← if t.length = t.capacity then t.expand junk else pure t
  let t ← t.store t.length node
  return (t.length, { t with length := t.length + 1 })

/-- `task_append_fd(task, node)`, which returns the descriptor. -/
def append (t : FdTable) (node : Option Nat) (junk : Nat → Option Nat) :
    Except TableFault (Nat × FdTable) := do
  match ← t.fillGap node t.length 0 with
  | some r => return r
  | none => t.appendLast node junk

/-- `process_move_fd` behind the comparison of the descriptors with the length. -/
def moveEntry (c : RefCounts Nat) (t : FdTable) (src dest : Nat) :
    Except TableFault (Nat × RefCounts Nat × FdTable) := do
  let old ← t.load dest
  let new ← t.load src
  if old ≠ new then do
    let t ← t.store dest new
    return (dest, fopen (fclose c old) new, t)
  else
    return (dest, c, t)

/-- `process_move_fd(task, src, dest)`, which returns a `uint32_t`. -/
def move (c : RefCounts Nat) (t : FdTable) (src dest : Int) :
    Except TableFault (Nat × RefCounts Nat × FdTable) :=
  if sizeT src > t.length ∨ sizeT dest > t.length then .ok (sizeT (-1), c, t)
  else moveEntry c t (sizeT src) (sizeT dest)

/-- The table that `spawn_proc` copies; the memory of the new array held `junk`. -/
def copy (t : FdTable) (junk : Nat → Option Nat) : FdTable where
  entries := fun i => if i < t.length then t.entries i else junk i
  length := t.length
  capacity := t.capacity
  refs := 1

/-- The tables that come from the one of `spawn_rootproc`. -/
inductive Built : FdTable → Prop
  | root (junk : Nat → Option Nat) : Built ⟨junk, 0, 4, 1⟩
  | append {t t' : FdTable} {i : Nat} (node : Option Nat) (junk : Nat → Option Nat) (ht : Built t)
      (hrun : t.append node junk = .ok (i, t')) : Built t'
  /-- A slot is closed. -/
  | close {t : FdTable} {i : Nat} (ht : Built t) (hi : i < t.length) :
      Built { t with entries := Function.update t.entries i none }
  | copy {t : FdTable} (junk : Nat → Option Nat) (ht : Built t) : Built (t.copy junk)

/-- The least index that is free, or the one behind the last. -/
def LeastFree (t : FdTable) (i : Nat) : Prop :=
  (∀ j, j < i → t.entries j ≠ none) ∧ (i < t.length ∧ t.entries i = none ∨ i = t.length)

/-- `task_append_fd` returns the least free index and stores the node there, and nothing else changes.
It stops only if there is no memory for a larger array. -/
def AppendRight (t : FdTable) (node : Option Nat) (junk : Nat → Option Nat) : Prop :=
  match t.append node junk with
  | .error e => e = .memory ∧ (∀ j, j < t.length → t.entries j ≠ none) ∧ t.length = t.capacity
  | .ok (i, t') => t.LeastFree i ∧ t'.entries i = node ∧
      (∀ j, j < t.length → j ≠ i → t'.entries j = t.entries j) ∧
      t'.length = max t.length (i + 1) ∧
      t'.capacity = (if i = t.capacity then 2 * t.capacity else t.capacity)

def InRange (t : FdTable) (i : Int) : Prop := 0 ≤ i ∧ i < t.length

/-- The count of `f` after the file `new` has replaced `old`. A count of -1 is not adjusted. -/
def adjusted (c : RefCounts Nat) (old new : Option Nat) (f : Nat) : Int :=
  if old = new then c.count f
  else if old = some f ∧ c.count f ≠ -1 then c.count f - 1
  else if new = some f ∧ 0 ≤ c.count f then c.count f + 1
  else c.count f

/-- `process_move_fd` changes nothing if one of the indices is not in the table, and otherwise puts the
file of `src` into `dest` and adjusts the counts. -/
def MoveRight (c : RefCounts Nat) (t : FdTable) (src dest : Int) : Prop :=
  (¬ (t.InRange src ∧ t.InRange dest) → move c t src dest = .ok (sizeT (-1), c, t)) ∧
  (t.InRange src → t.InRange dest → ∃ c' t', move c t src dest = .ok (dest.toNat, c', t') ∧
    t'.entries dest.toNat = t.entries src.toNat ∧
    (∀ j, j ≠ dest.toNat → t'.entries j = t.entries j) ∧
    t'.length = t.length ∧ t'.capacity = t.capacity ∧
    ∀ f, c'.count f = adjusted c (t.entries dest.toNat) (t.entries src.toNat) f)

variable {t t' : FdTable} {node : Option Nat} {junk : Nat → Option Nat} {i k n : Nat}
  {c : RefCounts Nat} {src dest : Int}

theorem load_of_lt (hi : i < t.capacity) : t.load i = .ok (t.entries i) := if_pos hi

theorem store_of_lt (hi : i < t.capacity) :
    t.store i node = .ok { t with entries := Function.update t.entries i node } := if_pos hi

theorem fillGap_eq (node : Option Nat) (hk : i + k ≤ t.capacity) :
    (t.fillGap node k i = .ok none ∧ ∀ j, i ≤ j → j < i + k → t.entries j ≠ none) ∨
      ∃ j, t.fillGap node k i =
          .ok (some (j, { t with entries := Function.update t.entries j node })) ∧
        i ≤ j ∧ j < i + k ∧ t.entries j = none ∧ ∀ j', i ≤ j' → j' < j → t.entries j' ≠ none := by
  induction k generalizing i with
  | zero => exact .inl ⟨rfl, fun j hlo hhi => absurd hhi (by omega)⟩
  | succ k ih =>
    have hi : i < t.capacity := by omega
    cases hentry : t.entries i with
    | none =>
      refine .inr ⟨i, ?_, Nat.le_refl i, by omega, hentry, fun j hlo hhi => absurd hhi (by omega)⟩
      rw [fillGap, load_of_lt hi, hentry, store_of_lt hi]
      rfl
    | some f =>
      have hnext : t.fillGap node (k + 1) i = t.fillGap node k (i + 1) := by
        rw [fillGap, load_of_lt hi, hentry]
        rfl
      have hnot : t.entries i ≠ none := by simp [hentry]
      rw [hnext]
      rcases ih (by omega : i + 1 + k ≤ t.capacity) with ⟨hrun, hfull⟩ | ⟨j, hrun, hlo, hhi, hgap, hleast⟩
      · refine .inl ⟨hrun, fun j hlo hhi => ?_⟩
        by_cases hj : j = i
        · exact hj ▸ hnot
        · exact hfull j (by omega) (by omega)
      · refine .inr ⟨j, hrun, by omega, by omega, hgap, fun j' hlo' hhi' => ?_⟩
        by_cases hj : j' = i
        · exact hj ▸ hnot
        · exact hleast j' (by omega) hhi'

structure Sized (t : FdTable) : Prop where
  pos : 0 < t.capacity
  le : t.length ≤ t.capacity
  memory : 4 * t.capacity < 4294967296

def withRoom (t : FdTable) (junk : Nat → Option Nat) : FdTable :=
  if t.length = t.capacity then growTable t junk else t

theorem withRoom_entries (hs : t.Sized) {j : Nat} (hj : j < t.length) :
    (t.withRoom junk).entries j = t.entries j := by
  have hle := hs.le
  rw [withRoom]
  split
  · exact if_pos (by omega)
  · rfl

theorem withRoom_capacity : (t.withRoom junk).capacity =
    if t.length = t.capacity then 2 * t.capacity else t.capacity := by
  rw [withRoom]
  split
  · exact Nat.mul_comm _ _
  · rfl

def withLast (t : FdTable) (node : Option Nat) (junk : Nat → Option Nat) : FdTable :=
  { t.withRoom junk with
    entries := Function.update (t.withRoom junk).entries t.length node
    length := t.length + 1 }

theorem appendLast_eq (hs : t.Sized) : t.appendLast node junk =
    if t.length = t.capacity ∧ ¬ 4 * (t.capacity * 2) < 4294967296 then .error .memory
    else .ok (t.length, t.withLast node junk) := by
  have hpos := hs.pos
  have hle := hs.le
  by_cases hfull : t.length = t.capacity
  · by_cases hmem : 4 * (t.capacity * 2) < 4294967296
    · have hlt : (growTable t junk).length < (growTable t junk).capacity := by
        show t.length < t.capacity * 2
        omega
      have hroom : t.withRoom junk = growTable t junk := if_pos hfull
      rw [appendLast, if_pos hfull, expand, if_pos hmem, if_neg fun hno => hno.2 hmem, withLast,
        hroom]
      show (do
        let t' ← (growTable t junk).store (growTable t junk).length node
        return (t'.length, { t' with length := t'.length + 1 })) = _
      rw [store_of_lt hlt]
      rfl
    · rw [appendLast, if_pos hfull, expand, if_neg hmem, if_pos ⟨hfull, hmem⟩]
      rfl
  · have hroom : t.withRoom junk = t := if_neg hfull
    rw [appendLast, if_neg hfull, if_neg fun hno => hfull hno.1, withLast, hroom]
    show (do
      let t' ← t.store t.length node
      return (t'.length, { t' with length := t'.length + 1 })) = _
    rw [store_of_lt (by omega)]
    rfl

theorem append_cases (hs : t.Sized) (node : Option Nat) (junk : Nat → Option Nat) :
    (∃ i, t.append node junk = .ok (i, { t with entries := Function.update t.entries i node }) ∧
      i < t.length ∧ t.entries i = none ∧ ∀ j, j < i → t.entries j ≠ none) ∨
    (∀ j, j < t.length → t.entries j ≠ none) ∧ t.append node junk = t.appendLast node junk := by
  have hle := hs.le
  rcases fillGap_eq node (by omega : 0 + t.length ≤ t.capacity) with
    ⟨hrun, hfull⟩ | ⟨i, hrun, _, hlt, hgap, hleast⟩
  · refine .inr ⟨fun j hj => hfull j (Nat.zero_le j) (by omega), ?_⟩
    rw [append, hrun]
    rfl
  · refine .inl ⟨i, ?_, by omega, hgap, fun j hj => hleast j (Nat.zero_le j) hj⟩
    rw [append, hrun]
    rfl

theorem Sized.append (hs : t.Sized) (hrun : t.append node junk = .ok (i, t')) : t'.Sized := by
  have hpos := hs.pos
  have hle := hs.le
  have hmem := hs.memory
  rcases append_cases hs node junk with ⟨j, hfill, hlt, _⟩ | ⟨_, hlast⟩
  · rw [hfill] at hrun
    cases hrun
    exact ⟨hpos, hle, hmem⟩
  · rw [hlast, appendLast_eq hs] at hrun
    split at hrun
    · cases hrun
    · next hroom =>
      cases hrun
      have hcap : (t.withLast node junk).capacity =
          if t.length = t.capacity then 2 * t.capacity else t.capacity := withRoom_capacity
      have hlen : (t.withLast node junk).length = t.length + 1 := rfl
      constructor <;> rw [hcap] <;> split <;> omega

theorem Built.sized (ht : t.Built) : t.Sized := by
  induction ht with
  | root junk =>
    refine ⟨Nat.succ_pos 3, Nat.zero_le 4, ?_⟩
    show 4 * 4 < 4294967296
    decide
  | append node junk _ hrun ih => exact ih.append hrun
  | close _ _ ih => exact ⟨ih.pos, ih.le, ih.memory⟩
  | copy junk _ ih => exact ⟨ih.pos, ih.le, ih.memory⟩

theorem Sized.appendRight (hs : t.Sized) : t.AppendRight node junk := by
  have hle := hs.le
  rw [AppendRight]
  rcases append_cases hs node junk with ⟨i, hfill, hlt, hgap, hleast⟩ | ⟨hfull, hlast⟩
  · rw [hfill]
    refine ⟨⟨hleast, .inl ⟨hlt, hgap⟩⟩, Function.update_self .., ?_, ?_, ?_⟩
    · exact fun j _ hne => Function.update_of_ne hne ..
    · exact (Nat.max_eq_left hlt).symm
    · exact (if_neg (by omega)).symm
  · rw [hlast, appendLast_eq hs]
    split
    · next hroom =>
      split at hroom
      · cases hroom
        next hno => exact ⟨rfl, hfull, hno.1⟩
      · cases hroom
    · next hroom =>
      split at hroom
      · cases hroom
      · cases hroom
        refine ⟨⟨hfull, .inr rfl⟩, Function.update_self .., ?_, ?_, withRoom_capacity⟩
        · intro j hj hne
          exact (Function.update_of_ne hne ..).trans (withRoom_entries hs hj)
        · exact (Nat.max_eq_right (Nat.le_succ _)).symm

theorem sizeT_of_nonneg (h : 0 ≤ src) (hlt : src < 2147483648) : sizeT src = src.toNat := by
  rw [sizeT, Int.emod_eq_of_lt h (by omega)]

theorem fclose_count (p : Option Nat) (f : Nat) : (fclose c p).count f =
    if p = some f ∧ c.count f ≠ -1 then c.count f - 1 else c.count f := by
  cases p with
  | none => simp [fclose]
  | some g =>
    rw [fclose, RefCounts.drop]
    by_cases hfg : g = f
    · subst hfg
      by_cases hstatic : c.count g = -1 <;> simp [hstatic]
    · by_cases hstatic : c.count g = -1 <;> simp [hstatic, hfg, Ne.symm hfg]

theorem fopen_count (p : Option Nat) (f : Nat) : (fopen c p).count f =
    if p = some f ∧ 0 ≤ c.count f then c.count f + 1 else c.count f := by
  cases p with
  | none => simp [fopen]
  | some g =>
    rw [fopen, RefCounts.take]
    by_cases hfg : g = f
    · subst hfg
      by_cases hcounted : 0 ≤ c.count g <;> simp [hcounted]
    · by_cases hcounted : 0 ≤ c.count g <;> simp [hcounted, hfg, Ne.symm hfg]

def withMoved (t : FdTable) (src dest : Nat) : FdTable :=
  { t with entries := Function.update t.entries dest (t.entries src) }

theorem moveEntry_eq {src dest : Nat} : moveEntry c t src dest =
    if dest < t.capacity ∧ src < t.capacity then
      if t.entries dest ≠ t.entries src then
        .ok (dest, fopen (fclose c (t.entries dest)) (t.entries src), t.withMoved src dest)
      else .ok (dest, c, t)
    else .error .outside := by
  by_cases hdest : dest < t.capacity
  · by_cases hsrc : src < t.capacity
    · rw [moveEntry, load_of_lt hdest, load_of_lt hsrc, if_pos ⟨hdest, hsrc⟩]
      show (if t.entries dest ≠ t.entries src then _ else _) = _
      by_cases hne : t.entries dest ≠ t.entries src
      · rw [if_pos hne, if_pos hne, store_of_lt hdest]
        rfl
      · rw [if_neg hne, if_neg hne]
        rfl
    · have hload : t.load src = .error .outside := if_neg hsrc
      rw [moveEntry, load_of_lt hdest, hload, if_neg fun h => hsrc h.2]
      rfl
  · have hload : t.load dest = .error .outside := if_neg hdest
    rw [moveEntry, hload, if_neg fun h => hdest h.1]
    rfl

theorem moveEntry_result {src dest : Nat} {r : Nat × RefCounts Nat × FdTable}
    (hrun : moveEntry c t src dest = .ok r) : r.1 = dest := by
  rw [moveEntry_eq] at hrun
  split at hrun
  · split at hrun <;> cases hrun <;> rfl
  · cases hrun

/-- The comparison with `>` is right: both indices are in the table, or one is behind the slot that
follows the last. -/
def Guarded (t : FdTable) (src dest : Int) : Prop :=
  t.InRange src ∧ t.InRange dest ∨ sizeT src > t.length ∨ sizeT dest > t.length

theorem Sized.moveRight_iff (hs : t.Sized) (hsrc : -2147483648 ≤ src ∧ src < 2147483648)
    (hdest : -2147483648 ≤ dest ∧ dest < 2147483648) :
    MoveRight c t src dest ↔ t.Guarded src dest := by
  have hle := hs.le
  have hmem := hs.memory
  have hin {i : Int} (hi : i < 2147483648) (hr : t.InRange i) : sizeT i = i.toNat ∧ i.toNat < t.length := by
    obtain ⟨hnonneg, hlt⟩ := hr
    exact ⟨sizeT_of_nonneg hnonneg hi, by omega⟩
  constructor
  · intro h
    by_contra hno
    rw [Guarded, not_or] at hno
    have hrun := h.1 hno.1
    rw [move, if_neg hno.2] at hrun
    have hresult := moveEntry_result hrun
    have hone : sizeT (-1) = 4294967295 := by decide
    omega
  · intro hguarded
    by_cases hr : t.InRange src ∧ t.InRange dest
    · obtain ⟨hsrc', hlt⟩ := hin hsrc.2 hr.1
      obtain ⟨hdest', hlt'⟩ := hin hdest.2 hr.2
      refine ⟨fun hno => absurd hr hno, fun _ _ => ?_⟩
      have hmove : move c t src dest = moveEntry c t src.toNat dest.toNat := by
        rw [move, hsrc', hdest', if_neg (by omega)]
      rw [moveEntry_eq, if_pos ⟨by omega, by omega⟩] at hmove
      by_cases hsame : t.entries dest.toNat = t.entries src.toNat
      · rw [if_neg (not_not.2 hsame)] at hmove
        exact ⟨c, t, hmove, hsame, fun _ _ => rfl, rfl, rfl, fun f => (if_pos hsame).symm⟩
      · rw [if_pos hsame] at hmove
        refine ⟨_, _, hmove, Function.update_self .., fun j hj => Function.update_of_ne hj .., rfl, rfl,
          fun f => ?_⟩
        rw [fopen_count, fclose_count, adjusted, if_neg hsame]
        by_cases hold : t.entries dest.toNat = some f
        · have hnew : t.entries src.toNat ≠ some f := fun hnew => hsame (hold.trans hnew.symm)
          simp [hold, hnew]
        · simp [hold]
    · have hbeyond : sizeT src > t.length ∨ sizeT dest > t.length := hguarded.resolve_left hr
      exact ⟨fun _ => if_pos hbeyond, fun h h' => absurd ⟨h, h'⟩ hr⟩

/-- For every table that is built, `task_append_fd` is right, and `process_move_fd` is right for the
indices for which its comparison is. -/
theorem descriptors_iff (ht : t.Built) (hsrc : -2147483648 ≤ src ∧ src < 2147483648)
    (hdest : -2147483648 ≤ dest ∧ dest < 2147483648) :
    (∀ node junk, t.AppendRight node junk) ∧ (MoveRight c t src dest ↔ t.Guarded src dest) :=
  ⟨fun _ _ => ht.sized.appendRight, ht.sized.moveRight_iff hsrc hdest⟩

/-- The table of `spawn_rootproc` with one file, which is moved to its own slot. -/
theorem descriptors_iff_root : ∃ t : FdTable, t.length = 1 ∧
    (∀ node junk, t.AppendRight node junk) ∧
      (MoveRight ⟨fun _ => 1, fun _ => true⟩ t 0 0 ↔ t.Guarded 0 0) := by
  obtain ⟨t, ht, hlen⟩ : ∃ t : FdTable, t.Built ∧ t.length = 1 :=
    ⟨_, .append (some 7) (fun _ => none) (.root fun _ => none) rfl, rfl⟩
  exact ⟨t, hlen, descriptors_iff ht (by decide) (by decide)⟩

/-- Four files fill the array of `spawn_rootproc`. Moving the first one to the descriptor 4 writes behind
the array. -/
theorem not_moveRight_full : ∃ t : FdTable, t.Built ∧ ¬ t.InRange 4 ∧
    ¬ MoveRight ⟨fun _ => 1, fun _ => true⟩ t 0 4 := by
  let junk : Nat → Option Nat := fun _ => none
  obtain ⟨t, ht, hlen, hmove⟩ : ∃ t : FdTable, t.Built ∧ t.length = 4 ∧
      move ⟨fun _ => 1, fun _ => true⟩ t 0 4 = .error .outside :=
    ⟨_, .append (some 3) junk (.append (some 2) junk (.append (some 1) junk
      (.append (some 0) junk (.root junk) rfl) rfl) rfl) rfl, rfl, rfl⟩
  have hrange : ¬ t.InRange 4 := by
    rw [InRange, hlen]
    decide
  refine ⟨t, ht, hrange, fun h => ?_⟩
  have hnothing := h.1 fun hr => hrange hr.2
  rw [hmove] at hnothing
  cases hnothing

end FdTable

end KernelTest.Task
