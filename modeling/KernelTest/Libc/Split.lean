import Mathlib.Data.List.Forall2
import KernelTest.Libc.NumberText
import KernelTest.Libc.Trim

/-!
# Splitting a string into words

`split` trims its string, counts the runs of the delimiter, and copies the fields between them into blocks
of their own. A string without delimiters is copied into a block of four bytes.
-/

namespace KernelTest.Libc

/-- `split_t` -/
structure Split where
  str : List Block
  wordcount : Nat

/-- `strchr(s, c)`, as an offset from `s`. -/
def strchr : Block → UInt8 → Except Fault (Option Nat)
  | [], _ => .error .overrun
  | a :: s, c =>
    if a = c then .ok (some 0)
    else if a = 0 then .ok none
    else (strchr s c).map (·.map (· + 1))

/-- `strcpy(dst + p, src)` -/
def copyString (dst : Block) (p : Nat) (src : Block) : Except Fault Block := do
  let n ← strlen src
  memcpy dst p src (n + 1)

/-- The loop that counts runs of the delimiter. -/
def countLoop (str : Block) (deli : UInt8) (strl : Int) : Nat → Nat → Nat → Except Fault Nat
  | 0, _, _ => .error .diverged
  | fuel + 1, i, deliCount =>
    if (i : Int) < strl then do
      let c ← loadByte str i
      if c = deli then do
        let n ← skipWhile (· = deli) (str.drop (i + 1))
        countLoop str deli strl fuel (i + n + 1) (deliCount + 1)
      else countLoop str deli strl fuel (i + 1) deliCount
    else pure deliCount

/-- `end`: how far the next delimiter is, or the terminator. -/
def wordEnd (str : Block) (deli : UInt8) : Except Fault Nat := do
  match ← strchr str deli with
  | some ptr => pure ptr
  | none => do
    let nul ← strchr str 0
    pure (nul.getD 0)

/-- A block for the word, of `sizeof(char *)` bytes for each of its bytes, and the copy of the word. -/
def copyWord (junk : Nat → UInt8) (str : Block) (n : Nat) : Except Fault Block := do
  let word ← memcpy (malloc junk (4 * (n + 1) % 2 ^ 32)) 0 str n
  storeByte word n 0

/-- The loop that cuts words, with the words so far in `ret.str`, an array of `room` bytes. -/
def splitLoop (junk : Nat → Nat → UInt8) (str : Block) (deli : UInt8) (room : Nat) :
    Nat → Nat → List Block → Except Fault (List Block)
  | 0, _, words => pure words
  | n + 1, off, words => do
    let stop ← wordEnd (str.drop off) deli
    if 4 * words.length + 4 ≤ room then do
      let word ← copyWord (junk words.length) (str.drop off) stop
      let holes ← skipWhile (· = deli) (str.drop (off + stop))
      splitLoop junk str deli room n (off + stop + holes) (words ++ [word])
    else throw .overrun

/-- `split(str, deli)`: the string afterwards, and the words. -/
def split (junk : Nat → Nat → UInt8) (str : Option Block) (deli : UInt8) : Except Fault (Block × Split) := do
  match ← trim str with
  | none => throw .overrun
  | some str => do
    let strl ← strlen str
    let deliCount ← countLoop str deli (asInt (UInt32.ofNat strl)) (str.length + 1) 0 0
    if deliCount = 0 then do
      let word ← copyString (malloc (junk 0) 4) 0 str
      pure (str, ⟨[word], 1⟩)
    else do
      let wordCount := deliCount + 1
      let words ← splitLoop junk str deli (4 * wordCount % 2 ^ 32) wordCount 0 []
      pure (str, ⟨words, wordCount⟩)

/-- The words of a string: the maximal runs of bytes that are not the delimiter, or one empty word. -/
def wordsOf (deli : UInt8) (v : List UInt8) : List (List UInt8) := if v = [] then [[]] else tokens deli v

/-- `split` leaves the bytes behind its string alone and returns the words of the trimmed string, each one in
a block of its own. -/
def SplitsWell (s : List UInt8) (deli : UInt8) : Prop :=
  ∀ (junk : Nat → Nat → UInt8) (r : Block), ∃ (t : Block) (ret : Split), t.length = s.length + 1 ∧
    split junk (some (s ++ 0 :: r)) deli = .ok (t ++ r, ret) ∧ ret.wordcount = ret.str.length ∧
    List.Forall₂ CString ret.str (wordsOf deli (trimmed s))

section Scans

variable {s u v w : List UInt8} {b r : Block} {c d : UInt8} {k n p : Nat}

theorem strchr_none (hv : 0 ∉ v) (hc : c ∉ v) (hne : c ≠ 0) (r : Block) : strchr (v ++ 0 :: r) c = .ok none := by
  induction v with
  | nil => simp [strchr, Ne.symm hne]
  | cons a v ih =>
    rw [List.mem_cons, not_or] at hv hc
    rw [List.cons_append, strchr, if_neg (Ne.symm hc.1), if_neg (Ne.symm hv.1), ih hv.2 hc.2]
    rfl

theorem strchr_some (hv : 0 ∉ v) (hc : c ∉ v) (r : Block) : strchr (v ++ c :: r) c = .ok (some v.length) := by
  induction v with
  | nil => simp [strchr]
  | cons a v ih =>
    rw [List.mem_cons, not_or] at hv hc
    rw [List.cons_append, strchr, if_neg (Ne.symm hc.1), if_neg (Ne.symm hv.1), ih hv.2 hc.2]
    rfl

theorem wordEnd_eq (hv : 0 ∉ v) (hc : c ∉ v) (hne : c ≠ 0) (hd : d = 0 ∨ d = c) (r : Block) :
    wordEnd (v ++ d :: r) c = .ok v.length := by
  rcases hd with rfl | rfl
  · rw [wordEnd, strchr_none hv hc hne, Exec.ok_bind, strchr_some hv hv]
    rfl
  · rw [wordEnd, strchr_some hv hc]
    rfl

theorem length_malloc (junk : Nat → UInt8) (n : Nat) : (malloc junk n).length = n := by
  simp [malloc]

theorem copyWord_ok (junk : Nat → UInt8) (hv : 0 ∉ v) (h : v.length + 1 ≤ 4 * (v.length + 1) % 2 ^ 32)
    (r : Block) : ∃ word, copyWord junk (v ++ r) v.length = .ok word ∧ CString word v := by
  have hlen := length_malloc junk (4 * (v.length + 1) % 2 ^ 32)
  have hdrop : (malloc junk (4 * (v.length + 1) % 2 ^ 32)).drop v.length ≠ [] := by
    rw [List.ne_nil_iff_length_pos, List.length_drop]
    omega
  obtain ⟨a, rest, hrest⟩ := List.exists_cons_of_ne_nil hdrop
  refine ⟨v ++ 0 :: rest, ?_, hv, rest, rfl⟩
  rw [copyWord, memcpy, if_pos ⟨by omega, by simp⟩, Exec.ok_bind, List.take_zero, List.nil_append, List.take_left,
    Nat.zero_add, hrest]
  exact storeByte_append v 0 a rest

theorem copyWord_overrun (junk : Nat → UInt8) (h : ¬ v.length + 1 ≤ 4 * (v.length + 1) % 2 ^ 32) (r : Block) :
    copyWord junk (v ++ r) v.length = .error .overrun := by
  have hlen := length_malloc junk (4 * (v.length + 1) % 2 ^ 32)
  rw [copyWord]
  generalize malloc junk (4 * (v.length + 1) % 2 ^ 32) = block at *
  generalize 4 * (v.length + 1) % 2 ^ 32 = size at *
  by_cases hsize : v.length ≤ size
  · have hshort : (block.take 0 ++ (v ++ r).take v.length ++ block.drop (0 + v.length)).length ≤ v.length := by
      simp only [List.length_append, List.length_take, List.length_drop]
      omega
    rw [memcpy, if_pos ⟨by omega, by simp⟩, Exec.ok_bind, storeByte, if_neg (by omega)]
  · rw [memcpy, if_neg (by omega)]
    rfl

theorem skipRun_eq (hne : c ≠ 0) (hb : b.drop p = w ++ 0 :: r) : ∃ m, skipWhile (· = c) (b.drop p) = .ok m ∧
    b.drop (p + m) = w.dropWhile (· = c) ++ 0 :: r ∧ m + (w.dropWhile (· = c)).length = w.length := by
  have hsplit := List.takeWhile_append_dropWhile (p := (· = c)) (l := w)
  have hlen := congrArg List.length hsplit
  rw [List.length_append] at hlen
  have hdrop : (w ++ 0 :: r).drop (w.takeWhile (· = c)).length = w.dropWhile (· = c) ++ 0 :: r := by
    have h : (w.takeWhile (· = c) ++ (w.dropWhile (· = c) ++ 0 :: r)).drop (w.takeWhile (· = c)).length =
        w.dropWhile (· = c) ++ 0 :: r := List.drop_left
    rwa [← List.append_assoc, hsplit] at h
  refine ⟨(w.takeWhile (· = c)).length, ?_, ?_, hlen⟩
  · rw [hb]
    exact skipWhile_eq (by simpa using Ne.symm hne) w r
  · rw [← List.drop_drop, hb, hdrop]

theorem countLoop_eq (hne : c ≠ 0) (hv : 0 ∉ v) (hn : v.length < n) (hb : b.drop p = v ++ 0 :: r) (k : Nat) :
    countLoop b c (p + v.length : Nat) n p k = .ok (k + (fields c v).length - 1) := by
  induction n generalizing v p k with
  | zero => omega
  | succ n ih =>
    cases v with
    | nil => simp [countLoop, fields]; rfl
    | cons a v =>
      rw [List.mem_cons, not_or] at hv
      rw [List.length_cons] at hn
      have hload : loadByte b p = .ok a := loadByte_drop (r := v ++ 0 :: r) hb
      have hnext : b.drop (p + 1) = v ++ 0 :: r := by
        rw [← List.drop_drop, hb]
        rfl
      rw [countLoop, if_pos (by simp), hload, Exec.ok_bind]
      by_cases ha : a = c
      · obtain ⟨m, hskip, hrest, hlen⟩ := skipRun_eq hne hnext
        have hnul : 0 ∉ v.dropWhile (· = c) := fun h => hv.2 ((List.dropWhile_sublist _).subset h)
        rw [Nat.add_right_comm] at hrest
        have h := ih hnul (by omega) hrest (k + 1)
        have hpos := length_fields_pos c (v.dropWhile (· = c))
        have hstop : p + m + 1 + (v.dropWhile (· = c)).length = p + (v.length + 1) := by omega
        rw [hstop] at h
        rw [if_pos ha, hskip, Exec.ok_bind, ha, fields_cons_sep, List.length_cons, List.length_cons, h]
        congr 1
        omega
      · rw [if_neg ha, fields, if_neg ha, List.length_modifyHead]
        have h := ih hv.2 (by omega) hnext k
        rwa [List.length_cons, Nat.add_comm v.length, ← Nat.add_assoc]

def Room (k room : Nat) (words : List (List UInt8)) : Prop :=
  4 * (k + words.length) ≤ room ∧ ∀ a ∈ words, a.length + 1 ≤ 4 * (a.length + 1) % 2 ^ 32

theorem room_nil {room : Nat} (h : 4 * k ≤ room) : Room k room [] := ⟨h, by simp⟩

theorem room_cons {room : Nat} {ws : List (List UInt8)} : Room k room (v :: ws) ↔
    4 * k + 4 ≤ room ∧ v.length + 1 ≤ 4 * (v.length + 1) % 2 ^ 32 ∧ Room (k + 1) room ws := by
  simp only [Room, List.length_cons, List.forall_mem_cons]
  constructor
  · exact fun h => ⟨by omega, h.2.1, by omega, h.2.2⟩
  · exact fun h => ⟨by omega, h.2.1, h.2.2.2⟩

section Loop

variable (junk : Nat → Nat → UInt8) {room : Nat} {words : List Block}

theorem splitLoop_round (hv : 0 ∉ v) (hc : c ∉ v) (hne : c ≠ 0) (hd : d = 0 ∨ d = c)
    (hb : b.drop p = v ++ d :: r) (hroom : 4 * words.length + 4 ≤ room)
    (hblock : v.length + 1 ≤ 4 * (v.length + 1) % 2 ^ 32) (n : Nat) :
    ∃ word, CString word v ∧ splitLoop junk b c room (n + 1) p words =
      (skipWhile (· = c) (b.drop (p + v.length)) >>= fun holes =>
        splitLoop junk b c room n (p + v.length + holes) (words ++ [word])) := by
  obtain ⟨word, hcopy, hword⟩ := copyWord_ok (junk words.length) hv hblock (d :: r)
  refine ⟨word, hword, ?_⟩
  rw [splitLoop, hb, wordEnd_eq hv hc hne hd, Exec.ok_bind, if_pos hroom, hcopy, Exec.ok_bind]

theorem splitLoop_overrun (hv : 0 ∉ v) (hc : c ∉ v) (hne : c ≠ 0) (hd : d = 0 ∨ d = c)
    (hb : b.drop p = v ++ d :: r)
    (hfull : ¬ (4 * words.length + 4 ≤ room ∧ v.length + 1 ≤ 4 * (v.length + 1) % 2 ^ 32)) (n : Nat) :
    splitLoop junk b c room (n + 1) p words = .error .overrun := by
  rw [splitLoop, hb, wordEnd_eq hv hc hne hd, Exec.ok_bind]
  by_cases hroom : 4 * words.length + 4 ≤ room
  · rw [if_pos hroom, copyWord_overrun _ fun h => hfull ⟨hroom, h⟩]
    rfl
  · rw [if_neg hroom]
    rfl

theorem splitLoop_eq (hne : c ≠ 0) (hv : 0 ∉ v) (hb : b.drop p = v ++ 0 :: r) (room : Nat) (words : List Block) :
    (Room words.length room (fields c v) → ∃ ws, List.Forall₂ CString ws (fields c v) ∧
        splitLoop junk b c room (fields c v).length p words = .ok (words ++ ws)) ∧
      (¬ Room words.length room (fields c v) →
        splitLoop junk b c room (fields c v).length p words = .error .overrun) := by
  induction v using fields_induction c generalizing p words with
  | last v hc =>
    rw [fields_of_notMem hc, room_cons]
    constructor
    · intro ⟨hroom, hblock, _⟩
      obtain ⟨word, hword, hrun⟩ := splitLoop_round junk hv hc hne (.inl rfl) hb hroom hblock 0
      have hstop : b.drop (p + v.length) = [] ++ 0 :: r := by
        rw [← List.drop_drop, hb, List.drop_left]
        rfl
      obtain ⟨m, hskip, _⟩ := skipRun_eq hne hstop
      exact ⟨[word], .cons hword .nil, by rw [List.length_singleton, hrun, hskip]; rfl⟩
    · intro hfull
      refine splitLoop_overrun junk hv hc hne (.inl rfl) hb (fun h => hfull ⟨h.1, h.2, room_nil ?_⟩) 0
      omega
  | next v t hc ih =>
    have hv' : 0 ∉ v := fun h => hv (by simp [h])
    have ht : 0 ∉ t.dropWhile (· = c) := fun h => hv (by simp [(List.dropWhile_sublist _).subset h])
    rw [List.append_assoc, List.cons_append] at hb
    rw [fields_append_cons hc, room_cons]
    have hstop : b.drop (p + v.length) = (c :: t) ++ 0 :: r := by
      rw [← List.drop_drop, hb, List.drop_left]
      rfl
    obtain ⟨m, hskip, hrest, _⟩ := skipRun_eq hne hstop
    rw [List.dropWhile_cons_of_pos (by simp)] at hrest
    by_cases hfit : 4 * words.length + 4 ≤ room ∧ v.length + 1 ≤ 4 * (v.length + 1) % 2 ^ 32
    · obtain ⟨word, hword, hrun⟩ := splitLoop_round junk hv' hc hne (.inr rfl) hb hfit.1 hfit.2
        (fields c (t.dropWhile (· = c))).length
      obtain ⟨hok, hbad⟩ := ih ht hrest (words ++ [word])
      rw [List.length_append, List.length_singleton] at hok hbad
      rw [List.length_cons, hrun, hskip, Exec.ok_bind]
      constructor
      · intro h
        obtain ⟨ws, hws, hok⟩ := hok h.2.2
        exact ⟨word :: ws, .cons hword hws, by rw [hok, List.append_assoc]; rfl⟩
      · exact fun h => hbad fun hrest => h ⟨hfit.1, hfit.2, hrest⟩
    · constructor
      · exact fun h => absurd ⟨h.1, h.2.1⟩ hfit
      · exact fun _ => splitLoop_overrun junk hv' hc hne (.inr rfl) hb hfit _

end Loop

theorem copyString_eq (hv : 0 ∉ v) (x y r : Block) : copyString (x ++ y) x.length (v ++ 0 :: r) =
    if v.length + 1 ≤ y.length then .ok (x ++ (v ++ 0 :: y.drop (v.length + 1))) else .error .overrun := by
  have htake : (v ++ 0 :: r).take (v.length + 1) = v ++ [0] := CString.take ⟨hv, r, rfl⟩
  have hdrop : (x ++ y).drop (x.length + (v.length + 1)) = y.drop (v.length + 1) := by
    rw [← List.drop_drop, List.drop_left]
  rw [copyString, strlen_eq ⟨hv, r, rfl⟩, Exec.ok_bind, memcpy]
  by_cases hroom : v.length + 1 ≤ y.length
  · rw [if_pos hroom, if_pos ⟨by simpa using hroom, by simp⟩, htake, hdrop, List.take_left]
    simp
  · rw [if_neg hroom, if_neg fun h => hroom (by simpa using h.1)]

theorem copyString_four (junk : Nat → UInt8) (hv : 0 ∉ v) (r : Block) : copyString (malloc junk 4) 0 (v ++ 0 :: r) =
    if v.length ≤ 3 then .ok (v ++ 0 :: (malloc junk 4).drop (v.length + 1)) else .error .overrun := by
  have h := copyString_eq hv [] (malloc junk 4) r
  have hroom : v.length + 1 ≤ 4 ↔ v.length ≤ 3 := by omega
  rw [List.nil_append, List.length_nil, List.nil_append, length_malloc] at h
  simp only [hroom] at h
  exact h

theorem cString_rightUnique : Relator.RightUnique CString := by
  intro b s t hs ht
  have hlen := (strlen_eq hs).symm.trans (strlen_eq ht)
  rw [Except.ok.injEq] at hlen
  have hsame := hs.take.symm.trans (hlen ▸ ht.take)
  exact List.append_cancel_right hsame

theorem mem_iff_fields : c ∈ v ↔ 1 < (fields c v).length := by
  by_cases hmem : c ∈ v
  · obtain ⟨s, t, rfl, hs⟩ := List.eq_append_cons_of_mem hmem
    have hpos := length_fields_pos c (t.dropWhile (· = c))
    rw [fields_append_cons hs, List.length_cons]
    exact iff_of_true hmem (by omega)
  · simp [fields_of_notMem hmem, hmem]

theorem asInt_ofNat (h : n < 2 ^ 32) : asInt (UInt32.ofNat n) = if n < 2 ^ 31 then (n : Int) else n - 2 ^ 32 := by
  rw [asInt, UInt32.toNat_ofNat_of_lt' h]

theorem split_eq (junk : Nat → Nat → UInt8) (hne : c ≠ 0) (hv : 0 ∉ v) (hn : v.length < 2 ^ 32)
    (htrim : trim (some b) = .ok (some (v ++ 0 :: r))) : split junk (some b) c =
      if c ∈ v ∧ v.length < 2 ^ 31 then
        (splitLoop junk (v ++ 0 :: r) c (4 * (fields c v).length % 2 ^ 32) (fields c v).length 0 []).map
          fun words => (v ++ 0 :: r, ⟨words, (fields c v).length⟩)
      else (copyString (malloc (junk 0) 4) 0 (v ++ 0 :: r)).map fun word => (v ++ 0 :: r, ⟨[word], 1⟩) := by
  have hpos := length_fields_pos c v
  have hcount : countLoop (v ++ 0 :: r) c (asInt (UInt32.ofNat v.length)) ((v ++ 0 :: r).length + 1) 0 0 =
      .ok (if v.length < 2 ^ 31 then (fields c v).length - 1 else 0) := by
    rw [asInt_ofNat hn]
    split
    · have hlen : v.length < (v ++ 0 :: r).length + 1 := by
        rw [List.length_append, List.length_cons]
        omega
      have h := countLoop_eq (b := v ++ 0 :: r) (p := 0) hne hv hlen (r := r) rfl 0
      rwa [Nat.zero_add, Nat.zero_add] at h
    · rw [countLoop, if_neg (by omega)]
      rfl
  rw [split, htrim, Exec.ok_bind]
  dsimp only
  rw [strlen_eq ⟨hv, r, rfl⟩, Exec.ok_bind, hcount, Exec.ok_bind]
  by_cases hlong : v.length < 2 ^ 31
  · by_cases hmem : c ∈ v
    · have hboth : c ∈ v ∧ v.length < 2 ^ 31 := ⟨hmem, hlong⟩
      have hmany : (fields c v).length - 1 ≠ 0 := Nat.sub_ne_zero_of_lt (mem_iff_fields.mp hmem)
      rw [if_pos hlong, if_neg hmany, if_pos hboth, Nat.sub_add_cancel hpos]
      cases splitLoop junk (v ++ 0 :: r) c (4 * (fields c v).length % 2 ^ 32) (fields c v).length 0 [] <;> rfl
    · have hone : (fields c v).length - 1 = 0 := by simp [fields_of_notMem hmem]
      have hboth : ¬ (c ∈ v ∧ v.length < 2 ^ 31) := fun h => hmem h.1
      rw [if_pos hlong, if_pos hone, if_neg hboth]
      cases copyString (malloc (junk 0) 4) 0 (v ++ 0 :: r) <;> rfl
  · have hboth : ¬ (c ∈ v ∧ v.length < 2 ^ 31) := fun h => hlong h.2
    rw [if_neg hlong, if_pos rfl, if_neg hboth]
    cases copyString (malloc (junk 0) 4) 0 (v ++ 0 :: r) <;> rfl

end Scans

abbrev MemText : Type := {s : List UInt8 // 0 ∉ s ∧ s.length < 2 ^ 32}

/-- What makes `split` work on a string that has been trimmed. -/
structure Splittable (c : UInt8) (v : List UInt8) : Prop where
  whole : c ∉ v → v.length ≤ 3
  ends : c ∈ v → v.head? ≠ some c ∧ v.getLast? ≠ some c
  length : c ∈ v → v.length < 2 ^ 31
  array : c ∈ v → (tokens c v).length < 2 ^ 30
  blocks : c ∈ v → ∀ w ∈ tokens c v, w.length + 1 ≤ 4 * (w.length + 1) % 2 ^ 32

section Result

variable {s v : List UInt8} {b r t : Block} {c : UInt8} {ret : Split} (junk : Nat → Nat → UInt8)

theorem room_zero {ws : List (List UInt8)} : Room 0 (4 * ws.length % 2 ^ 32) ws ↔
    ws.length < 2 ^ 30 ∧ ∀ w ∈ ws, w.length + 1 ≤ 4 * (w.length + 1) % 2 ^ 32 := by
  rw [Room]
  constructor
  · exact fun h => ⟨by omega, h.2⟩
  · exact fun h => ⟨by omega, h.2⟩

theorem wordsOf_of_notMem (hc : c ∉ v) : wordsOf c v = [v] := by
  by_cases hnil : v = []
  · simp [wordsOf, hnil]
  · rw [wordsOf, if_neg hnil, tokens_of_notMem hc hnil]

theorem wordsOf_of_mem (hc : c ∈ v) : wordsOf c v = tokens c v := if_neg (List.ne_nil_of_mem hc)

theorem split_words (hne : c ≠ 0) (hv : 0 ∉ v) (hn : v.length < 2 ^ 32)
    (htrim : trim (some b) = .ok (some (v ++ 0 :: r))) (h : Splittable c v) :
    ∃ ret, split junk (some b) c = .ok (v ++ 0 :: r, ret) ∧ ret.wordcount = ret.str.length ∧
      List.Forall₂ CString ret.str (wordsOf c v) := by
  rw [split_eq junk hne hv hn htrim]
  by_cases hc : c ∈ v
  · have hfields : fields c v = tokens c v := (fields_eq_tokens v).mpr ⟨List.ne_nil_of_mem hc, h.ends hc⟩
    have hroom : Room 0 (4 * (tokens c v).length % 2 ^ 32) (tokens c v) := room_zero.mpr ⟨h.array hc, h.blocks hc⟩
    have hloop := (splitLoop_eq junk (b := v ++ 0 :: r) (p := 0) hne hv rfl (4 * (fields c v).length % 2 ^ 32) []).1
    rw [hfields] at hloop
    obtain ⟨ws, hws, hrun⟩ := hloop hroom
    rw [List.nil_append] at hrun
    have hboth : c ∈ v ∧ v.length < 2 ^ 31 := ⟨hc, h.length hc⟩
    refine ⟨⟨ws, (tokens c v).length⟩, ?_, hws.length_eq.symm, wordsOf_of_mem hc ▸ hws⟩
    rw [if_pos hboth, hfields, hrun]
    rfl
  · have hword : CString (v ++ 0 :: (malloc (junk 0) 4).drop (v.length + 1)) v := ⟨hv, _, rfl⟩
    refine ⟨⟨[v ++ 0 :: (malloc (junk 0) 4).drop (v.length + 1)], 1⟩, ?_, rfl, ?_⟩
    rotate_left
    · rw [wordsOf_of_notMem hc]
      exact .cons hword .nil
    rw [if_neg fun h => hc h.1, copyString_four (junk 0) hv, if_pos (h.whole hc)]
    rfl

theorem splittable_of_split (hne : c ≠ 0) (hv : 0 ∉ v) (hn : v.length < 2 ^ 32)
    (htrim : trim (some b) = .ok (some (v ++ 0 :: r))) (hrun : split junk (some b) c = .ok (t, ret))
    (hwords : List.Forall₂ CString ret.str (wordsOf c v)) : Splittable c v := by
  rw [split_eq junk hne hv hn htrim] at hrun
  by_cases hboth : c ∈ v ∧ v.length < 2 ^ 31
  · have hloop := splitLoop_eq junk (b := v ++ 0 :: r) (p := 0) hne hv rfl (4 * (fields c v).length % 2 ^ 32) []
    have hroom : Room 0 (4 * (fields c v).length % 2 ^ 32) (fields c v) := by
      by_contra hfull
      rw [if_pos hboth, hloop.2 hfull] at hrun
      cases hrun
    obtain ⟨ws, hws, hok⟩ := hloop.1 hroom
    rw [if_pos hboth, hok] at hrun
    cases hrun
    rw [wordsOf_of_mem hboth.1] at hwords
    have hfields : fields c v = tokens c v := cString_rightUnique.forall₂ hws hwords
    rw [hfields, room_zero] at hroom
    exact ⟨fun h => absurd hboth.1 h, fun _ => ((fields_eq_tokens v).mp hfields).2, fun _ => hboth.2,
      fun _ => hroom.1, fun _ => hroom.2⟩
  · have hshort : v.length ≤ 3 := by
      by_contra hlong
      rw [if_neg hboth, copyString_four (junk 0) hv, if_neg hlong] at hrun
      cases hrun
    have hc : c ∉ v := fun h => hboth ⟨h, by omega⟩
    exact ⟨fun _ => hshort, fun h => absurd h hc, fun h => absurd h hc, fun h => absurd h hc, fun h => absurd h hc⟩

theorem trimmed_subset (s : List UInt8) : trimmed s ⊆ s := fun _ ha =>
  (List.dropWhile_sublist isspace).subset ((List.rdropWhile_prefix isspace _).subset ha)

theorem length_trimmed_le (s : List UInt8) : (trimmed s).length ≤ s.length :=
  Nat.le_trans (List.rdropWhile_prefix isspace _).length_le (List.dropWhile_sublist isspace).length_le

theorem split_iff (hs : 0 ∉ s) (hn : s.length < 2 ^ 32) (hne : c ≠ 0) :
    SplitsWell s c ↔ TrimsWell s ∧ Splittable c (trimmed s) := by
  have hv : 0 ∉ trimmed s := fun h => hs (trimmed_subset s h)
  have hlen : (trimmed s).length < 2 ^ 32 := Nat.lt_of_le_of_lt (length_trimmed_le s) hn
  constructor
  · intro h
    have htrims : TrimsWell s := by
      apply (trimsWell_iff hs).mpr
      by_contra hblank
      rw [not_or, not_not] at hblank
      obtain ⟨t, ret, _, hrun, _⟩ := h (fun _ _ => 0) []
      rw [split, trim, trimText_blank hblank.1 (trimmed_eq_nil.mp hblank.2)] at hrun
      cases hrun
    obtain ⟨t, ret, _, hrun, _, hwords⟩ := h (fun _ _ => 0) []
    obtain ⟨u, _, ⟨_, q, rfl⟩, htrim⟩ := htrims []
    rw [List.append_nil] at htrim
    exact ⟨htrims, splittable_of_split (fun _ _ => 0) hne hv hlen htrim hrun hwords⟩
  · rintro ⟨htrims, hsplit⟩ junk r
    obtain ⟨t, htlen, ⟨_, q, rfl⟩, htrim⟩ := htrims r
    rw [List.append_assoc, List.cons_append] at htrim
    obtain ⟨ret, hrun, hret⟩ := split_words junk hne hv hlen htrim hsplit
    exact ⟨trimmed s ++ 0 :: q, ret, htlen, by rw [hrun, List.append_assoc, List.cons_append], hret⟩

/-- `trim` works for the empty string and for strings that are not only white space. With these, `split` works
where no delimiter is left and three bytes at most, or where the delimiters are neither first nor last and the
lengths can be represented. -/
theorem trimsWell_splitsWell_iff (s : MemText) (c : {c : UInt8 // c ≠ 0}) :
    (TrimsWell s.1 ↔ s.1 = [] ∨ ∃ a ∈ s.1, isspace a = false) ∧
      (SplitsWell s.1 c.1 ↔ (s.1 = [] ∨ ∃ a ∈ s.1, isspace a = false) ∧ Splittable c.1 (trimmed s.1)) := by
  have htrim : TrimsWell s.1 ↔ s.1 = [] ∨ ∃ a ∈ s.1, isspace a = false := by
    rw [trimsWell_iff s.2.1, Ne, trimmed_eq_nil]
    simp
  exact ⟨htrim, by rw [split_iff s.2.1 s.2.2 c.2, htrim]⟩

/-- The string of one space: `trim` stores a byte behind its terminator. And `split` stores five bytes in the
block of four that it makes for `"abcd"`. -/
theorem not_trimsWell_space : ¬ TrimsWell [32] ∧ ¬ SplitsWell [97, 98, 99, 100] 44 := by
  constructor
  · intro h
    obtain ⟨t, _, _, hrun⟩ := h []
    cases hrun
  · intro h
    obtain ⟨t, ret, _, hrun, _⟩ := h (fun _ _ => 0) []
    have hfails : split (fun _ _ => 0) (some ([97, 98, 99, 100] ++ [0])) 44 = .error .overrun := rfl
    rw [hfails] at hrun
    cases hrun

end Result

end KernelTest.Libc
