import Mathlib.Data.List.DropRight
import KernelTest.Framework.Exec
import KernelTest.Libc.Hashmap

/-!
# Trimming in place

`trim` moves one pointer in from each end of a string, ends the text behind the last byte that is not white
space, and shifts it to the front of its buffer.
-/

namespace KernelTest.Libc

/-- `isspace(ch)` -/
def isspace (ch : UInt8) : Bool := ch = 32 || ch - 9 < 5

/-- `while(test(*s)) s++`: how many bytes are skipped. -/
def skipWhile (test : UInt8 → Bool) : Block → Except Fault Nat
  | [] => .error .overrun
  | c :: s => if test c then (skipWhile test s).map (· + 1) else .ok 0

/-- `while(isspace(*(--endp)) && endp != frontp)` -/
def backUp (str : Block) (frontp : Nat) : Nat → Except Fault Nat
  | 0 => .error .overrun
  | p + 1 => do
    let c ← loadByte str p
    if isspace c = true ∧ p ≠ frontp then backUp str frontp p else pure p

/-- The store behind the last byte that stays, at `last`. -/
def cutTail (str : Block) (len frontp last : Nat) : Except Fault Block :=
  if last + 1 ≠ len then storeByte str (last + 1) 0
  else if frontp ≠ 0 ∧ last = frontp then storeByte str 0 0
  else pure str

/-- `while(*frontp) *endp++ = *frontp++` and the terminator. -/
def shiftLoop : Nat → Block → Nat → Nat → Except Fault Block
  | 0, _, _, _ => .error .diverged
  | fuel + 1, str, p, frontp => do
    let c ← loadByte str frontp
    if c = 0 then storeByte str p 0
    else do
      let str ← storeByte str p c
      shiftLoop fuel str (p + 1) (frontp + 1)

/-- `trim(str)` for a string that is not null. -/
def trimText (str : Block) : Except Fault Block := do
  let c ← loadByte str 0
  if c = 0 then pure str
  else do
    let len ← strlen str
    let frontp ← skipWhile isspace str
    let last ← (if len ≠ frontp then backUp str frontp len else pure len)
    let str ← cutTail str len frontp last
    if frontp ≠ 0 then shiftLoop (str.length + 1) str 0 frontp else pure str

/-- `trim(str)` -/
def trim : Option Block → Except Fault (Option Block)
  | none => pure none
  | some str => (trimText str).map some

/-- A string without the white space at its ends. -/
def trimmed (s : List UInt8) : List UInt8 := (s.dropWhile isspace).rdropWhile isspace

/-- In every buffer that begins with the string, `trim` leaves the trimmed string in the bytes of the string
and its terminator, and does nothing to what is behind them. -/
def TrimsWell (s : List UInt8) : Prop :=
  ∀ r : Block, ∃ t : Block, t.length = s.length + 1 ∧ CString t (trimmed s) ∧
    trim (some (s ++ 0 :: r)) = .ok (some (t ++ r))

section Ends

variable {s u v w x y z : List UInt8} {r : Block} {c d : UInt8} {n : Nat} {test : UInt8 → Bool}

theorem storeByte_append (x : Block) (c d : UInt8) (r : Block) :
    storeByte (x ++ d :: r) x.length c = .ok (x ++ c :: r) := by
  simp [storeByte]

theorem skipWhile_eq (hc : test c = false) (w r : Block) :
    skipWhile test (w ++ c :: r) = .ok (w.takeWhile test).length := by
  induction w with
  | nil => simp [skipWhile, hc]
  | cons a w ih =>
    rw [List.cons_append, skipWhile]
    by_cases ha : test a = true
    · rw [if_pos ha, ih, List.takeWhile_cons_of_pos ha]
      rfl
    · simp [ha]

theorem skipWhile_append (hu : ∀ a ∈ u, test a = true) (hc : test c = false) (r : Block) :
    skipWhile test (u ++ c :: r) = .ok u.length := by
  rw [skipWhile_eq hc, List.takeWhile_eq_self_iff.2 hu]

theorem backUp_append (hc : isspace c = false) (hw : ∀ a ∈ w, isspace a = true) (hn : n ≤ x.length)
    (r : Block) : backUp (x ++ c :: (w ++ r)) n (x.length + 1 + w.length) = .ok x.length := by
  induction w using List.reverseRecOn generalizing r with
  | nil =>
    rw [List.nil_append, List.length_nil, Nat.add_zero, backUp, loadByte_append]
    change (if isspace c = true ∧ x.length ≠ n then _ else _) = _
    rw [if_neg (by simp [hc])]
    rfl
  | append_singleton w a ih =>
    have hload : loadByte (x ++ c :: (w ++ a :: r)) (x.length + 1 + w.length) = .ok a := by
      have h := loadByte_append (x ++ c :: w) a r
      simpa [Nat.add_right_comm, Nat.add_assoc] using h
    have hspace : isspace a = true := hw a (by simp)
    rw [List.append_assoc, List.length_append, List.length_singleton, ← Nat.add_assoc, List.singleton_append,
      backUp, hload]
    change (if isspace a = true ∧ x.length + 1 + w.length ≠ n then _ else _) = _
    rw [if_pos ⟨hspace, by omega⟩]
    exact ih (fun b h => hw b (by simp [h])) (a :: r)

theorem shiftLoop_eq (hv : 0 ∉ v) (hy : y ≠ []) (hn : v.length < n) (r : Block) :
    ∃ z, z.length = y.length ∧
      shiftLoop n (x ++ (y ++ (v ++ 0 :: r))) x.length (x.length + y.length) = .ok (x ++ (v ++ 0 :: (z ++ r))) := by
  obtain ⟨a, y, rfl⟩ := List.exists_cons_of_ne_nil hy
  induction v generalizing n x a y with
  | nil =>
    obtain ⟨n, rfl⟩ := Nat.exists_eq_succ_of_ne_zero (Nat.ne_of_gt hn)
    have hload := loadByte_append (x ++ a :: y) 0 r
    refine ⟨y ++ [0], by simp, ?_⟩
    rw [List.append_assoc, List.length_append] at hload
    rw [List.nil_append, shiftLoop, hload]
    change storeByte (x ++ a :: (y ++ 0 :: r)) x.length 0 = _
    rw [storeByte_append]
    simp
  | cons c v ih =>
    obtain ⟨n, rfl⟩ := Nat.exists_eq_succ_of_ne_zero (Nat.ne_of_gt (Nat.lt_of_le_of_lt (Nat.zero_le _) hn))
    rw [List.mem_cons, not_or] at hv
    rw [List.length_cons] at hn
    have hload : loadByte (x ++ (a :: y ++ (c :: v ++ 0 :: r))) (x.length + (a :: y).length) = .ok c := by
      have h := loadByte_append (x ++ a :: y) c (v ++ 0 :: r)
      rwa [List.append_assoc, List.length_append] at h
    have hstore : storeByte (x ++ (a :: y ++ (c :: v ++ 0 :: r))) x.length c =
        .ok (x ++ c :: (y ++ (c :: v ++ 0 :: r))) := storeByte_append x c a _
    have hnext : ∃ b t, y ++ [c] = b :: t := List.exists_cons_of_ne_nil (by simp)
    obtain ⟨b, t, hbt⟩ := hnext
    obtain ⟨z, hz, hrun⟩ := ih (x := x ++ [c]) (n := n) hv.2 (by omega) b t (by simp)
    rw [← hbt] at hz hrun
    refine ⟨z, by simpa using hz, ?_⟩
    rw [shiftLoop, hload]
    change (if c = 0 then _ else _) = _
    rw [if_neg (Ne.symm hv.1)]
    rw [hstore]
    change shiftLoop n (x ++ c :: (y ++ (c :: v ++ 0 :: r))) (x.length + 1) (x.length + (a :: y).length + 1) = _
    simpa [Nat.add_comm, Nat.add_left_comm] using hrun

theorem cutTail_eq (hv : v ≠ []) (w : List UInt8) (r : Block) :
    ∃ u' w', u'.length = u.length ∧ w'.length = w.length ∧
      cutTail (u ++ (v ++ (w ++ 0 :: r))) (u.length + (v.length + w.length)) u.length
        (u.length + (v.length - 1)) = .ok (u' ++ (v ++ 0 :: (w' ++ r))) := by
  have hpos : 0 < v.length := List.length_pos_iff.mpr hv
  cases w with
  | nil =>
    rw [cutTail, List.length_nil, if_neg (by omega)]
    cases u with
    | nil => exact ⟨[], [], rfl, rfl, by simp; rfl⟩
    | cons a u =>
      split
      · exact ⟨0 :: u, [], rfl, rfl, storeByte_append [] 0 a _⟩
      · exact ⟨a :: u, [], rfl, rfl, rfl⟩
  | cons a w =>
    have hstore := storeByte_append (u ++ v) 0 a (w ++ 0 :: r)
    rw [List.append_assoc, List.length_append, List.append_assoc] at hstore
    refine ⟨u, w ++ [0], rfl, by simp, ?_⟩
    rw [cutTail, List.length_cons, if_pos (by omega), Nat.add_assoc, Nat.sub_add_cancel hpos]
    simpa using hstore

theorem exists_ends (s : List UInt8) : ∃ u w, s = u ++ (trimmed s ++ w) ∧
    (∀ a ∈ u, isspace a = true) ∧ ∀ a ∈ w, isspace a = true := by
  refine ⟨s.takeWhile isspace, (s.dropWhile isspace).rtakeWhile isspace, ?_, ?_, ?_⟩
  · rw [trimmed, List.rdropWhile_append_rtakeWhile, List.takeWhile_append_dropWhile]
  · exact fun a ha => List.mem_takeWhile_imp ha
  · exact fun a ha => List.mem_rtakeWhile_imp ha

theorem trimmed_eq_nil : trimmed s = [] ↔ ∀ a ∈ s, isspace a = true := by
  rw [trimmed, List.rdropWhile_eq_nil_iff]
  constructor
  · intro h a ha
    rw [← List.takeWhile_append_dropWhile (p := isspace) (l := s), List.mem_append] at ha
    cases ha with
    | inl ha => exact List.mem_takeWhile_imp ha
    | inr ha => exact h a ha
  · exact fun h a ha => h a ((List.dropWhile_sublist _).subset ha)

theorem trimmed_getLast (h : trimmed s ≠ []) : isspace ((trimmed s).getLast h) = false := by
  have hlast := List.rdropWhile_last_not isspace (s.dropWhile isspace) h
  exact Bool.eq_false_of_not_eq_true hlast

theorem trimmed_head (h : trimmed s ≠ []) : isspace ((trimmed s).head h) = false := by
  have hne : s.dropWhile isspace ≠ [] := fun hnil => h (by simp [trimmed, hnil])
  have hhead := List.head?_dropWhile_not isspace s
  have hsame : (trimmed s).head h = (s.dropWhile isspace).head hne :=
    (List.rdropWhile_prefix isspace (s.dropWhile isspace)).head h
  rw [List.head?_eq_some_head hne] at hhead
  simpa [hsame] using hhead

theorem trimText_eq (hs : 0 ∉ s) (hne : trimmed s ≠ []) (r : Block) : ∃ t : Block,
    t.length = s.length + 1 ∧ CString t (trimmed s) ∧ trimText (s ++ 0 :: r) = .ok (t ++ r) := by
  obtain ⟨u, w, hsplit, hu, hw⟩ := exists_ends s
  have hfirst := trimmed_head hne
  have hlast := trimmed_getLast hne
  generalize trimmed s = v at *
  have hv : 0 ∉ v := fun h => hs (by simp [hsplit, h])
  have hlen : s.length = u.length + (v.length + w.length) := by simp [hsplit]
  have hpos : 0 < v.length := List.length_pos_iff.mpr hne
  have hblock : s ++ 0 :: r = u ++ (v ++ (w ++ 0 :: r)) := by simp [hsplit]
  have hstrlen : strlen (s ++ 0 :: r) = .ok s.length := strlen_eq ⟨hs, r, rfl⟩
  have hskip : skipWhile isspace (s ++ 0 :: r) = .ok u.length := by
    have h := skipWhile_append hu hfirst (v.tail ++ (w ++ 0 :: r))
    rwa [← List.cons_append, List.cons_head_tail, ← hblock] at h
  have hback : backUp (s ++ 0 :: r) u.length s.length = .ok (u.length + (v.length - 1)) := by
    have h := backUp_append (x := u ++ v.dropLast) (n := u.length) hlast hw (by simp) (0 :: r)
    have hshow : u ++ v.dropLast ++ v.getLast hne :: (w ++ 0 :: r) = s ++ 0 :: r := by
      rw [hblock, List.append_assoc, ← List.singleton_append, ← List.append_assoc v.dropLast,
        List.dropLast_append_getLast]
    have hn : (u ++ v.dropLast).length + 1 + w.length = s.length := by
      rw [List.length_append, List.length_dropLast]
      omega
    rwa [hshow, hn, List.length_append, List.length_dropLast] at h
  obtain ⟨u', w', hu', hw', hcut⟩ := cutTail_eq (u := u) hne w r
  have hhead : ∃ a, loadByte (s ++ 0 :: r) 0 = .ok a ∧ a ≠ 0 := by
    cases s with
    | nil =>
      rw [List.length_nil] at hlen
      omega
    | cons a s => exact ⟨a, rfl, fun h => hs (by simp [h])⟩
  obtain ⟨a, hload, ha⟩ := hhead
  have hrun : trimText (s ++ 0 :: r) = if u.length ≠ 0 then
      shiftLoop ((u' ++ (v ++ 0 :: (w' ++ r))).length + 1) (u' ++ (v ++ 0 :: (w' ++ r))) 0 u.length
      else .ok (u' ++ (v ++ 0 :: (w' ++ r))) := by
    rw [trimText, hload, Exec.ok_bind, if_neg ha, hstrlen, Exec.ok_bind, hskip, Exec.ok_bind,
      if_pos (by omega), hback, Exec.ok_bind, hblock, hlen, hcut]
    rfl
  by_cases hnil : u.length = 0
  · refine ⟨v ++ 0 :: w', by simp; omega, ⟨hv, w', rfl⟩, ?_⟩
    have hu0 : u' = [] := List.length_eq_zero_iff.mp (hu'.trans hnil)
    rw [hrun, if_neg (not_not.mpr hnil), hu0]
    simp
  · have hne' : u' ≠ [] := fun h => hnil (by rw [← hu', h]; rfl)
    obtain ⟨z, hz, hshift⟩ := shiftLoop_eq (x := []) (n := (u' ++ (v ++ 0 :: (w' ++ r))).length + 1) hv hne'
      (by simp; omega) (w' ++ r)
    refine ⟨v ++ 0 :: (z ++ w'), by simp; omega, ⟨hv, z ++ w', rfl⟩, ?_⟩
    rw [List.nil_append, List.length_nil, Nat.zero_add, hu'] at hshift
    rw [hrun, if_pos hnil, hshift]
    simp

theorem trimText_blank (hs : s ≠ []) (hspace : ∀ a ∈ s, isspace a = true) :
    trimText (s ++ [0]) = .error .overrun := by
  have hnul : 0 ∉ s := fun h => absurd (hspace 0 h) (by decide)
  have hstrlen : strlen (s ++ [0]) = .ok s.length := strlen_eq (cString_terminated hnul)
  have hskip : skipWhile isspace (s ++ [0]) = .ok s.length := skipWhile_append hspace (by decide) []
  have hpos : 0 < s.length := List.length_pos_iff.mpr hs
  have hhead : ∃ a, loadByte (s ++ [0]) 0 = .ok a ∧ a ≠ 0 := by
    obtain ⟨a, t, rfl⟩ := List.exists_cons_of_ne_nil hs
    exact ⟨a, rfl, fun h => hnul (by simp [h])⟩
  obtain ⟨a, hload, ha⟩ := hhead
  have hstore : storeByte (s ++ [0]) (s.length + 1) 0 = .error .overrun := by
    rw [storeByte, if_neg (by simp)]
  rw [trimText, hload, Exec.ok_bind, if_neg ha, hstrlen, Exec.ok_bind, hskip, Exec.ok_bind,
    if_neg (not_not.mpr rfl)]
  change (cutTail (s ++ [0]) s.length s.length s.length >>= _) = _
  rw [cutTail, if_pos (by omega), hstore]
  rfl

theorem trimsWell_nil : TrimsWell [] := fun r => ⟨[0], rfl, ⟨by decide, [], rfl⟩, rfl⟩

theorem trimsWell_iff (hs : 0 ∉ s) : TrimsWell s ↔ s = [] ∨ trimmed s ≠ [] := by
  constructor
  · intro h
    by_contra hblank
    rw [not_or, not_not] at hblank
    obtain ⟨t, _, _, hrun⟩ := h []
    rw [trim, trimText_blank hblank.1 (trimmed_eq_nil.mp hblank.2)] at hrun
    cases hrun
  · intro h
    cases h with
    | inl h => exact h ▸ trimsWell_nil
    | inr h =>
      intro r
      obtain ⟨t, hlen, hstr, hrun⟩ := trimText_eq hs h r
      exact ⟨t, hlen, hstr, by rw [trim, hrun]; rfl⟩

end Ends

end KernelTest.Libc
