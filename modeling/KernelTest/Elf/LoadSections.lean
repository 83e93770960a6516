import KernelTest.Elf.Exec
import KernelTest.Elf.Load

/-!
# Placing the sections of a program

The loop of `exec_elf` copies each section with an address to its destination and keeps the least destination and
the size of the image along the way. A section without contents is cleared at its address, also when the program
is relocated.
-/

namespace KernelTest.Elf

def SHT_NOBITS : Nat := 8

def eEntry (m : Buf) (hdr : Nat) : Nat := field32 m hdr 24

def eShentsize (m : Buf) (hdr : Nat) : Nat := field16 m hdr 46

/-- What the loop reads of a section header, with what it needs to copy the section. -/
structure FileSection extends SectionHeader where
  shType : Nat
  shOffset : Nat

def fileSection (blob : Buf) (shdr : Nat) : FileSection where
  shAddr := Elf.shAddr blob shdr
  shSize := Elf.shSize blob shdr
  shType := Elf.shType blob shdr
  shOffset := Elf.shOffset blob shdr

/-- The section headers that the loop reads from the file. -/
def sectionsOf (blob : Buf) : List FileSection :=
  if eShentsize blob 0 = 0 then []
  else (List.range (eShnum blob 0)).map fun k => fileSection blob (u32 (eShoff blob 0 + k * eShentsize blob 0))

/-- The address is one of `n` from `start` on; addresses wrap. -/
def Covers (start n a : Nat) : Prop := sub32 a start < n

instance (start n a : Nat) : Decidable (Covers start n a) := inferInstanceAs (Decidable (_ < _))

/-- The memory that the sections are placed in, and `image.entry` and `image.size` of the task. -/
structure ExecImage where
  mem : Buf
  entry : Nat
  size : Nat

section Loop

variable (blob : Buf) (relocateEntry : Nat)

/-- What is stored for the byte `k` of a section. -/
def sectionByte (s : FileSection) (k : Nat) : UInt8 :=
  if s.shType = SHT_NOBITS then 0 else blob (u32 (s.shOffset + k))

def target (s : FileSection) : Nat :=
  if s.shType = SHT_NOBITS then s.shAddr else loadDest (eEntry blob 0) relocateEntry s.toSectionHeader

/-- The `memset` or the `memcpy` for a section. -/
def storeSection (mem : Buf) (s : FileSection) : Buf := fun a =>
  if Covers (target blob relocateEntry s) s.shSize a then
    sectionByte blob s (sub32 a (target blob relocateEntry s))
  else mem a

/-- The part of the body that keeps the least destination and the size. -/
def noteSection (entry size : Nat) (s : FileSection) : Nat × Nat :=
  let dest := loadDest (eEntry blob 0) relocateEntry s.toSectionHeader
  let entry := if dest < entry then dest else entry
  let extent := sub32 (u32 (dest + s.shSize)) entry
  (entry, if extent > size then extent else size)

/-- The loop that allocates the pages of a section ends. -/
def PagesEnd (s : FileSection) : Prop := u32 (s.shSize + 0x2000) ≤ 0xFFFFF000

instance (s : FileSection) : Decidable (PagesEnd s) := inferInstanceAs (Decidable (_ ≤ _))

/-- The body of the loop, without the pages. -/
def placeSection (st : ExecImage) (s : FileSection) : Except Fault ExecImage :=
  if s.shAddr = 0 then .ok st
  else if PagesEnd s then
    let (entry, size) := noteSection blob relocateEntry st.entry st.size s
    .ok ⟨storeSection blob relocateEntry st.mem s, entry, size⟩
  else .error .diverged

def placeSections (st : ExecImage) : List FileSection → Except Fault ExecImage
  | [] => .ok st
  | s :: rest => do
    let st ← placeSection blob relocateEntry st s
    placeSections st rest

/-- The loop of `exec_elf` over the sections of the file in `blob`. -/
def placeImage (mem : Buf) (size : Nat) : Except Fault ExecImage :=
  placeSections blob relocateEntry ⟨mem, 0xFFFFFFFF, size⟩ (sectionsOf blob)

def loadedSections : List FileSection := (sectionsOf blob).filter (·.shAddr ≠ 0)

def place (s : FileSection) : Nat :=
  if relocateEntry ≠ 0 then u32 (relocateEntry + sub32 s.shAddr (eEntry blob 0)) else s.shAddr

/-- The least place and the greatest end of the loaded sections. -/
structure Spans (lo hi : Nat) : Prop where
  lo_le : ∀ s ∈ loadedSections blob, lo ≤ place blob relocateEntry s
  lo_mem : ∃ s ∈ loadedSections blob, place blob relocateEntry s = lo
  le_hi : ∀ s ∈ loadedSections blob, place blob relocateEntry s + s.shSize ≤ hi
  hi_mem : ∃ s ∈ loadedSections blob, place blob relocateEntry s + s.shSize = hi

/-- The loop ends, each section is where it belongs, nothing else changes, and the size is that of the image. -/
def PlacesImage (size : Nat) : Prop :=
  ∀ mem, ∃ st, placeImage blob relocateEntry mem size = .ok st ∧
    (∀ s ∈ loadedSections blob, ∀ a < 2 ^ 32, Covers (place blob relocateEntry s) s.shSize a →
      st.mem a = sectionByte blob s (sub32 a (place blob relocateEntry s))) ∧
    (∀ a < 2 ^ 32, (∀ s ∈ loadedSections blob, ¬ Covers (place blob relocateEntry s) s.shSize a) →
      st.mem a = mem a) ∧
    ∀ lo hi, Spans blob relocateEntry lo hi → st.size = hi - lo

/-- The byte that is stored last at an address by the sections `l`. -/
def written (l : List FileSection) (a : Nat) : Option UInt8 :=
  (l.reverse.find? fun s => Covers (target blob relocateEntry s) s.shSize a).map fun s =>
    sectionByte blob s (sub32 a (target blob relocateEntry s))

/-- From the least destination up to each section to its end. -/
def extents : Nat → List FileSection → List Nat
  | _, [] => []
  | entry, s :: rest =>
    let least := min entry (loadDest (eEntry blob 0) relocateEntry s.toSectionHeader)
    sub32 (u32 (loadDest (eEntry blob 0) relocateEntry s.toSectionHeader + s.shSize)) least :: extents least rest

/-- A program that is not relocated: sections that share a byte agree on it. -/
def SharedAgree : Prop :=
  ∀ s ∈ loadedSections blob, ∀ t ∈ loadedSections blob, ∀ a < 2 ^ 32, Covers s.shAddr s.shSize a →
    Covers t.shAddr t.shSize a → sectionByte blob s (sub32 a s.shAddr) = sectionByte blob t (sub32 a t.shAddr)

/-- Its size: the previous one is not greater, and either the same, or a section with the greatest end comes with
or after one with the least address. -/
def EndReached (size : Nat) : Prop :=
  ∀ lo hi, Spans blob 0 lo hi → size ≤ hi - lo ∧ (size = hi - lo ∨ hi - lo < 2 ^ 32 ∧
    ∃ before s after, loadedSections blob = before ++ s :: after ∧ s.shAddr + s.shSize = hi ∧
      ∃ t ∈ before ++ [s], t.shAddr = lo)

/-- A relocated program, whose sections are copied four times as far from the entry, and cleared where they were
linked: what is stored last at an address belongs there, and elsewhere nothing is stored. -/
structure Lands : Prop where
  inside : ∀ s ∈ loadedSections blob, ∀ a < 2 ^ 32, Covers (place blob relocateEntry s) s.shSize a →
    written blob relocateEntry (loadedSections blob) a = some (sectionByte blob s (sub32 a (place blob relocateEntry s)))
  outside : ∀ a < 2 ^ 32, (∀ s ∈ loadedSections blob, ¬ Covers (place blob relocateEntry s) s.shSize a) →
    written blob relocateEntry (loadedSections blob) a = none

/-- Its size: the previous one and the extents are not greater, and one of them is the same. -/
def ExtentsFit (size : Nat) : Prop :=
  ∀ lo hi, Spans blob relocateEntry lo hi → size ≤ hi - lo ∧
    (∀ x ∈ extents blob relocateEntry 0xFFFFFFFF (loadedSections blob), x ≤ hi - lo) ∧
    (size = hi - lo ∨ hi - lo ∈ extents blob relocateEntry 0xFFFFFFFF (loadedSections blob))

/-- The condition on which the loop does what it should. -/
structure ImageFits (size : Nat) : Prop where
  pages : ∀ s ∈ loadedSections blob, PagesEnd s
  bytes : if relocateEntry = 0 then SharedAgree blob else Lands blob relocateEntry
  extent : if relocateEntry = 0 then EndReached blob size else ExtentsFit blob relocateEntry size

end Loop

section Results

variable {blob : Buf} {relocateEntry size : Nat} {l : List FileSection} {st : ExecImage}

def stepSection (blob : Buf) (relocateEntry : Nat) (st : ExecImage) (s : FileSection) : ExecImage :=
  ⟨storeSection blob relocateEntry st.mem s, (noteSection blob relocateEntry st.entry st.size s).1,
    (noteSection blob relocateEntry st.entry st.size s).2⟩

theorem stepSection_mem (st : ExecImage) (s : FileSection) :
    (stepSection blob relocateEntry st s).mem = storeSection blob relocateEntry st.mem s := rfl

theorem placeSections_ok (h : ∀ s ∈ l.filter (·.shAddr ≠ 0), PagesEnd s) : placeSections blob relocateEntry st l =
    .ok ((l.filter (·.shAddr ≠ 0)).foldl (stepSection blob relocateEntry) st) := by
  induction l generalizing st with
  | nil => rfl
  | cons s l ih =>
    rw [placeSections, placeSection]
    by_cases hzero : s.shAddr = 0
    · rw [List.filter_cons_of_neg (by simpa using hzero)] at h ⊢
      rw [if_pos hzero]
      exact ih h
    · rw [List.filter_cons_of_pos (by simpa using hzero)] at h ⊢
      rw [if_neg hzero, if_pos (h s List.mem_cons_self)]
      exact ih fun t ht => h t (List.mem_cons_of_mem s ht)

theorem placeSections_diverged (h : ∃ s ∈ l.filter (·.shAddr ≠ 0), ¬ PagesEnd s) :
    placeSections blob relocateEntry st l = .error .diverged := by
  induction l generalizing st with
  | nil =>
    obtain ⟨s, hs, -⟩ := h
    cases hs
  | cons s l ih =>
    obtain ⟨t, ht, hpages⟩ := h
    rw [placeSections, placeSection]
    by_cases hzero : s.shAddr = 0
    · rw [List.filter_cons_of_neg (by simpa using hzero)] at ht
      rw [if_pos hzero, Exec.ok_bind]
      exact ih ⟨t, ht, hpages⟩
    · rw [List.filter_cons_of_pos (by simpa using hzero)] at ht
      rw [if_neg hzero]
      by_cases hend : PagesEnd s
      · rw [if_pos hend]
        change placeSections blob relocateEntry (stepSection blob relocateEntry st s) l = _
        cases List.mem_cons.mp ht with
        | inl heq => exact absurd (heq ▸ hend) hpages
        | inr ht => exact ih ⟨t, ht, hpages⟩
      · rw [if_neg hend, Exec.error_bind]

theorem written_cons (s : FileSection) (l : List FileSection) (a : Nat) : written blob relocateEntry (s :: l) a =
    (written blob relocateEntry l a).or (if Covers (target blob relocateEntry s) s.shSize a then
      some (sectionByte blob s (sub32 a (target blob relocateEntry s))) else none) := by
  rw [written, List.reverse_cons, List.find?_append, written]
  cases List.find? (fun s => Covers (target blob relocateEntry s) s.shSize a) l.reverse with
  | some t => rfl
  | none =>
    by_cases hcovers : Covers (target blob relocateEntry s) s.shSize a
    · simp [hcovers]
    · simp [hcovers]

theorem foldl_mem (l : List FileSection) (st : ExecImage) (a : Nat) :
    (l.foldl (stepSection blob relocateEntry) st).mem a = (written blob relocateEntry l a).getD (st.mem a) := by
  induction l generalizing st with
  | nil => rfl
  | cons s l ih =>
    rw [List.foldl_cons, ih, written_cons, stepSection_mem, storeSection]
    by_cases hcovers : Covers (target blob relocateEntry s) s.shSize a
    · rw [if_pos hcovers, if_pos hcovers]
      cases written blob relocateEntry l a <;> rfl
    · rw [if_neg hcovers, if_neg hcovers, Option.or_none]

theorem noteSection_eq (entry size : Nat) (s : FileSection) : noteSection blob relocateEntry entry size s =
    (min entry (loadDest (eEntry blob 0) relocateEntry s.toSectionHeader),
      max size (sub32 (u32 (loadDest (eEntry blob 0) relocateEntry s.toSectionHeader + s.shSize))
        (min entry (loadDest (eEntry blob 0) relocateEntry s.toSectionHeader)))) := by
  have hleast : ∀ dest : Nat, (if dest < entry then dest else entry) = min entry dest := by
    intro dest
    split <;> omega
  have hmost : ∀ extent : Nat, (if extent > size then extent else size) = max size extent := by
    intro extent
    split <;> omega
  rw [noteSection]
  simp only [hleast, hmost]

theorem foldl_size (l : List FileSection) (st : ExecImage) : (l.foldl (stepSection blob relocateEntry) st).size =
    (extents blob relocateEntry st.entry l).foldl max st.size := by
  induction l generalizing st with
  | nil => rfl
  | cons s l ih =>
    rw [List.foldl_cons, ih, extents, List.foldl_cons]
    change (extents blob relocateEntry (noteSection blob relocateEntry st.entry st.size s).1 l).foldl max
      (noteSection blob relocateEntry st.entry st.size s).2 = _
    rw [noteSection_eq]

theorem foldl_max_eq_iff {l : List Nat} {n m : Nat} :
    l.foldl max n = m ↔ n ≤ m ∧ (∀ x ∈ l, x ≤ m) ∧ (n = m ∨ m ∈ l) := by
  induction l generalizing n with
  | nil => exact ⟨fun h => ⟨h.le, nofun, .inl h⟩, fun h => h.2.2.resolve_right List.not_mem_nil⟩
  | cons y l ih =>
    rw [List.foldl_cons, ih, List.forall_mem_cons, List.mem_cons, max_le_iff]
    constructor
    · rintro ⟨⟨hn, hy⟩, hl, hm | hm⟩
      · refine ⟨hn, ⟨hy, hl⟩, ?_⟩
        rcases max_choice n y with hmax | hmax
        · exact .inl (hmax.symm.trans hm)
        · exact .inr (.inl (hm.symm.trans hmax))
      · exact ⟨hn, ⟨hy, hl⟩, .inr (.inr hm)⟩
    · rintro ⟨hn, ⟨hy, hl⟩, rfl | rfl | hm⟩
      · exact ⟨⟨hn, hy⟩, hl, .inl (max_eq_left hy)⟩
      · exact ⟨⟨hn, hy⟩, hl, .inl (max_eq_right hn)⟩
      · exact ⟨⟨hn, hy⟩, hl, .inr hm⟩

theorem exists_other (b : UInt8) : ∃ c, c ≠ b := by
  by_cases hzero : b = 0
  · exact ⟨1, by rw [hzero]; decide⟩
  · exact ⟨0, Ne.symm hzero⟩

theorem placeImage_ok (h : ∀ s ∈ loadedSections blob, PagesEnd s) (mem : Buf) (size : Nat) :
    ∃ st, placeImage blob relocateEntry mem size = .ok st ∧
      (∀ a, st.mem a = (written blob relocateEntry (loadedSections blob) a).getD (mem a)) ∧
      st.size = (extents blob relocateEntry 0xFFFFFFFF (loadedSections blob)).foldl max size :=
  ⟨_, placeSections_ok h, fun a => foldl_mem _ _ a, foldl_size _ _⟩

theorem placesImage_iff_written : PlacesImage blob relocateEntry size ↔
    (∀ s ∈ loadedSections blob, PagesEnd s) ∧ Lands blob relocateEntry ∧ ExtentsFit blob relocateEntry size := by
  constructor
  · intro h
    have hpages : ∀ s ∈ loadedSections blob, PagesEnd s := by
      by_contra hnot
      have hbad : ∃ s ∈ loadedSections blob, ¬ PagesEnd s := by
        simpa only [not_forall, exists_prop] using hnot
      obtain ⟨st, hrun, -⟩ := h fun _ => 0
      rw [placeImage, placeSections_diverged hbad] at hrun
      cases hrun
    have hmem : ∀ mem : Buf, (∀ s ∈ loadedSections blob, ∀ a < 2 ^ 32, Covers (place blob relocateEntry s) s.shSize a →
        (written blob relocateEntry (loadedSections blob) a).getD (mem a) =
          sectionByte blob s (sub32 a (place blob relocateEntry s))) ∧
        (∀ a < 2 ^ 32, (∀ s ∈ loadedSections blob, ¬ Covers (place blob relocateEntry s) s.shSize a) →
          (written blob relocateEntry (loadedSections blob) a).getD (mem a) = mem a) ∧
        ExtentsFit blob relocateEntry size := by
      intro mem
      obtain ⟨st, hrun, hinside, houtside, hspan⟩ := h mem
      obtain ⟨st', hrun', hbytes, hsize⟩ := @placeImage_ok blob relocateEntry hpages mem size
      rw [hrun, Except.ok.injEq] at hrun'
      rw [← hrun'] at hbytes hsize
      refine ⟨fun s hs a ha hcovers => ?_, fun a ha hnone => ?_, fun lo hi hspans => ?_⟩
      · rw [← hbytes]
        exact hinside s hs a ha hcovers
      · rw [← hbytes]
        exact houtside a ha hnone
      · exact foldl_max_eq_iff.mp (hsize.symm.trans (hspan lo hi hspans))
    refine ⟨hpages, ⟨fun s hs a ha hcovers => ?_, fun a ha hnone => ?_⟩, (hmem fun _ => 0).2.2⟩
    · obtain ⟨c, hc⟩ := exists_other (sectionByte blob s (sub32 a (place blob relocateEntry s)))
      have hbyte := (hmem fun _ => c).1 s hs a ha hcovers
      cases hwritten : written blob relocateEntry (loadedSections blob) a with
      | none =>
        rw [hwritten] at hbyte
        exact absurd hbyte hc
      | some b =>
        rw [hwritten] at hbyte
        exact congrArg some hbyte
    · cases hwritten : written blob relocateEntry (loadedSections blob) a with
      | none => rfl
      | some b =>
        obtain ⟨c, hc⟩ := exists_other b
        have hbyte := (hmem fun _ => c).2.1 a ha hnone
        rw [hwritten] at hbyte
        exact absurd hbyte.symm hc
  · intro ⟨hpages, hlands, hextents⟩ mem
    obtain ⟨st, hrun, hbytes, hsize⟩ := @placeImage_ok blob relocateEntry hpages mem size
    refine ⟨st, hrun, fun s hs a ha hcovers => ?_, fun a ha hnone => ?_, fun lo hi hspans => ?_⟩
    · rw [hbytes, hlands.inside s hs a ha hcovers]
      rfl
    · rw [hbytes, hlands.outside a ha hnone]
      rfl
    · rw [hsize]
      exact foldl_max_eq_iff.mpr (hextents lo hi hspans)

theorem place_zero (s : FileSection) : place blob 0 s = s.shAddr := if_neg (not_not.mpr rfl)

theorem loadDest_zero (s : SectionHeader) : loadDest (eEntry blob 0) 0 s = s.shAddr := if_neg (not_not.mpr rfl)

theorem target_zero (s : FileSection) : target blob 0 s = s.shAddr := by
  rw [target, loadDest_zero, ite_self]

theorem lands_zero_iff : Lands blob 0 ↔ SharedAgree blob := by
  constructor
  · intro h s hs t ht a ha hcovers hcovers'
    have hs' := h.inside s hs a ha (by rwa [place_zero])
    have ht' := h.inside t ht a ha (by rwa [place_zero])
    rw [hs', Option.some.injEq, place_zero, place_zero] at ht'
    exact ht'
  · intro h
    constructor
    · intro s hs a ha hcovers
      rw [place_zero] at hcovers ⊢
      rw [written]
      cases hfind : List.find? (fun s => Covers (target blob 0 s) s.shSize a) (loadedSections blob).reverse with
      | none =>
        have hnot := List.find?_eq_none.mp hfind s (List.mem_reverse.mpr hs)
        rw [target_zero, decide_eq_true_iff] at hnot
        exact absurd hcovers hnot
      | some t =>
        have ht := List.mem_reverse.mp (List.mem_of_find?_eq_some hfind)
        have hcovers' := List.find?_some hfind
        rw [target_zero, decide_eq_true_iff] at hcovers'
        rw [Option.map_some, target_zero, h t ht s hs a ha hcovers' hcovers]
    · intro a ha hnone
      have hfind : List.find? (fun s => Covers (target blob 0 s) s.shSize a) (loadedSections blob).reverse = none := by
        rw [List.find?_eq_none]
        intro s hs
        have hnot := hnone s (List.mem_reverse.mp hs)
        rw [place_zero] at hnot
        rwa [target_zero, decide_eq_true_iff]
      rw [written, hfind]
      rfl

theorem extent_eq {addr n least lo hi : Nat} (haddr : addr < 2 ^ 32) (hleast : least ≤ addr) (hlo : lo ≤ least)
    (hhi : addr + n ≤ hi) (hspan : hi - lo < 2 ^ 32) : sub32 (u32 (addr + n)) least = addr + n - least := by
  unfold sub32 u32
  omega

theorem extents_zero {entry lo hi : Nat} (haddr : ∀ s ∈ l, s.shAddr < 2 ^ 32) (hentry : lo ≤ entry)
    (hlo : ∀ s ∈ l, lo ≤ s.shAddr) (hhi : ∀ s ∈ l, s.shAddr + s.shSize ≤ hi) (hspan : hi - lo < 2 ^ 32) :
    (∀ x ∈ extents blob 0 entry l, x ≤ hi - lo) ∧
      (hi - lo ∈ extents blob 0 entry l ↔ ∃ before s after, l = before ++ s :: after ∧ s.shAddr + s.shSize = hi ∧
        (entry = lo ∨ ∃ t ∈ before ++ [s], t.shAddr = lo)) := by
  induction l generalizing entry with
  | nil =>
    refine ⟨nofun, iff_of_false List.not_mem_nil ?_⟩
    intro ⟨before, s, after, hsplit, _⟩
    cases before <;> cases hsplit
  | cons s l ih =>
    have hlo' := hlo s List.mem_cons_self
    have hhi' := hhi s List.mem_cons_self
    have hleast : lo ≤ min entry s.shAddr := Nat.le_min.mpr ⟨hentry, hlo'⟩
    obtain ⟨hle, hmem⟩ := ih (fun t ht => haddr t (List.mem_cons_of_mem s ht)) hleast
      (fun t ht => hlo t (List.mem_cons_of_mem s ht)) fun t ht => hhi t (List.mem_cons_of_mem s ht)
    have hextent := extent_eq (haddr s List.mem_cons_self) (Nat.min_le_right entry s.shAddr) hleast hhi' hspan
    rw [extents, loadDest_zero, hextent, List.forall_mem_cons, List.mem_cons, hmem]
    have hcases : min entry s.shAddr = entry ∧ entry ≤ s.shAddr ∨ min entry s.shAddr = s.shAddr ∧ s.shAddr ≤ entry := by
      rw [min_eq_left_iff, min_eq_right_iff, and_self, and_self]
      exact Nat.le_total entry s.shAddr
    clear hextent hmem
    generalize min entry s.shAddr = least at hleast hle hcases ⊢
    refine ⟨⟨by omega, hle⟩, ?_⟩
    constructor
    · intro h
      cases h with
      | inl hfirst =>
        refine ⟨[], s, l, rfl, by omega, ?_⟩
        by_cases hsame : entry = lo
        · exact .inl hsame
        · exact .inr ⟨s, List.mem_singleton_self s, by omega⟩
      | inr hrest =>
        obtain ⟨before, t, after, rfl, hend, hreached⟩ := hrest
        refine ⟨s :: before, t, after, rfl, hend, ?_⟩
        cases hreached with
        | inl hmin =>
          by_cases hsame : entry = lo
          · exact .inl hsame
          · exact .inr ⟨s, List.mem_cons_self, by omega⟩
        | inr hmem =>
          obtain ⟨u, hu, hulo⟩ := hmem
          exact .inr ⟨u, List.mem_cons_of_mem s hu, hulo⟩
    · intro ⟨before, t, after, hsplit, hend, hreached⟩
      cases before with
      | nil =>
        rw [List.nil_append, List.cons.injEq] at hsplit
        obtain ⟨rfl, rfl⟩ := hsplit
        left
        cases hreached with
        | inl hsame => omega
        | inr hmem =>
          obtain ⟨u, hu, hulo⟩ := hmem
          rw [List.nil_append, List.mem_singleton] at hu
          rw [hu] at hulo
          omega
      | cons s' before =>
        rw [List.cons_append, List.cons.injEq] at hsplit
        obtain ⟨rfl, rfl⟩ := hsplit
        refine .inr ⟨before, t, after, rfl, hend, ?_⟩
        cases hreached with
        | inl hsame => exact .inl (by omega)
        | inr hmem =>
          obtain ⟨u, hu, hulo⟩ := hmem
          cases List.mem_cons.mp hu with
          | inl heq =>
            rw [heq] at hulo
            exact .inl (by omega)
          | inr hu => exact .inr ⟨u, hu, hulo⟩

theorem shAddr_lt {s : FileSection} (hs : s ∈ loadedSections blob) : s.shAddr < 2 ^ 32 := by
  have hs := List.mem_of_mem_filter hs
  rw [sectionsOf] at hs
  split at hs
  · cases hs
  · obtain ⟨k, -, rfl⟩ := List.mem_map.mp hs
    exact get32_lt _ _

theorem extents_lt {entry x : Nat} (hx : x ∈ extents blob relocateEntry entry l) : x < 2 ^ 32 := by
  induction l generalizing entry with
  | nil => cases hx
  | cons s l ih =>
    rw [extents, List.mem_cons] at hx
    cases hx with
    | inl heq => exact heq ▸ u32_lt _
    | inr hx => exact ih hx

theorem extentsFit_zero_iff : ExtentsFit blob 0 size ↔ EndReached blob size := by
  refine forall_congr' fun lo => forall_congr' fun hi => ?_
  refine imp_congr_right fun hspans => and_congr_right fun hsize => ?_
  by_cases hspan : hi - lo < 2 ^ 32
  · obtain ⟨s, hs, hlo⟩ := hspans.lo_mem
    rw [place_zero] at hlo
    have hentry : lo ≤ 0xFFFFFFFF := by
      have hlt := shAddr_lt hs
      omega
    have hles : ∀ t ∈ loadedSections blob, lo ≤ t.shAddr := fun t ht => place_zero t ▸ hspans.lo_le t ht
    have hends : ∀ t ∈ loadedSections blob, t.shAddr + t.shSize ≤ hi := fun t ht =>
      (@place_zero blob t) ▸ hspans.le_hi t ht
    obtain ⟨hle, hmem⟩ := @extents_zero blob _ _ lo hi (fun t ht => shAddr_lt ht) hentry hles hends hspan
    rw [and_iff_right hle, hmem, and_iff_right hspan]
    refine or_congr_right (exists_congr fun before => exists_congr fun t => exists_congr fun after => ?_)
    refine and_congr_right fun hsplit => and_congr_right fun hend => ⟨fun hreached => ?_, .inr⟩
    cases hreached with
    | inl hsame =>
      have ht : t ∈ loadedSections blob := by
        rw [hsplit]
        simp
      have hlt := shAddr_lt ht
      have hle := hles t ht
      exact ⟨t, by simp, by omega⟩
    | inr hmem => exact hmem
  · have hle : ∀ x ∈ extents blob 0 0xFFFFFFFF (loadedSections blob), x ≤ hi - lo := by
      intro x hx
      have hlt := extents_lt hx
      omega
    have hnot : hi - lo ∉ extents blob 0 0xFFFFFFFF (loadedSections blob) := fun hx => hspan (extents_lt hx)
    simp only [and_iff_right hle, hnot, hspan, false_and]

/-- An executable with the entry `0x8000000` and one section, of four bytes, at `0x8001000`. -/
def oneSection : Buf := fun a =>
  [0x7F, 0x45, 0x4C, 0x46, 1, 1, 1, 0, 0, 0, 0, 0, 0, 0, 0, 0, 2, 0, 3, 0, 1, 0, 0, 0, 0, 0, 0, 8, 0, 0, 0, 0,
    52, 0, 0, 0, 0, 0, 0, 0, 52, 0, 0, 0, 0, 0, 40, 0, 1, 0, 0, 0, 0, 0, 0, 0, 1, 0, 0, 0, 0, 0, 0, 0, 0, 0x10, 0, 8,
    0, 0, 0, 0, 4, 0, 0, 0].getD a 0

end Results

end KernelTest.Elf
