import Mathlib.Data.List.TakeWhile
import KernelTest.Initrd.Image

/-!
# What the kernel finds in a generated image

The tables that `initrd_gen` writes are computed once and for all, then `initrd_init` is run on a
memory that holds them.
-/

namespace KernelTest.Initrd

/-- The part of a path after its last separator. -/
def baseName (path : List UInt8) : List UInt8 := (path.reverse.takeWhile (· ≠ slash)).reverse

def bodyOf (files : List InputFile) : List UInt8 := files.flatMap InputFile.content

def headerSizeOf (n : Nat) : Nat := 8 + 72 * n

/-- The image is as long as its header and all the files. -/
def imageSize (files : List InputFile) : Nat := headerSizeOf files.length + (bodyOf files).length

structure Packable (files : List InputFile) : Prop where
  pos : 0 < files.length
  le_max : files.length ≤ 126
  slash_mem : ∀ f ∈ files, slash ∈ f.path
  nul_not_mem : ∀ f ∈ files, 0 ∉ f.path
  name_length : ∀ f ∈ files, (baseName f.path).length ≤ 63
  size_lt : imageSize files < 2 ^ 32

/-- `root_files`, as the claim of the generator's user reads it: names, lengths and contents, all
inside the image of `size` bytes that lies at `location`. -/
structure ReadsBack (files : List InputFile) (size : Nat) (mem : Buf) (location : Nat)
    (rootFiles : List File) : Prop where
  count : fileCount mem location = files.length
  length_eq : rootFiles.length = files.length
  name : ∀ i, ∀ h : i < files.length, ∃ f ∈ rootFiles[i]?,
    Libc.CString f.name (baseName files[i].path)
  length : ∀ i, ∀ h : i < files.length, ∃ f ∈ rootFiles[i]?, f.size = files[i].content.length
  content : ∀ i, ∀ h : i < files.length, ∃ f ∈ rootFiles[i]?,
    Stored mem (initrdReadfile mem location f) files[i].content
  inside : ∀ i, ∀ h : i < files.length, ∃ f ∈ rootFiles[i]?,
    location ≤ initrdReadfile mem location f ∧
      initrdReadfile mem location f + files[i].content.length ≤ location + size

/-- The generator writes an image, and wherever the image is loaded, the kernel reads the files
back from it. -/
def RoundTrips (files : List InputFile) : Prop :=
  ∃ image, main files = .ok (some image) ∧
    ∀ mem location junk rootJunk, location + image.length < 2 ^ 32 → Stored mem location image →
      ∃ root rootFiles, initrdInit mem location junk rootJunk = .ok (root, rootFiles) ∧
        ReadsBack files image.length mem location rootFiles

theorem strrchr_eq_none {s : List UInt8} {c : UInt8} (h : c ∉ s) : strrchr s c = none := by
  induction s with
  | nil => rfl
  | cons a s ih =>
    rw [strrchr, ih fun hs => h (by simp [hs])]
    exact if_neg fun ha => h (by simp [ha])

theorem strrchr_append {s t : List UInt8} {c : UInt8} (h : c ∉ t) :
    strrchr (s ++ c :: t) c = some (c :: t) := by
  induction s with
  | nil =>
    rw [List.nil_append, strrchr, strrchr_eq_none h]
    exact if_pos rfl
  | cons a s ih => rw [List.cons_append, strrchr, ih]

theorem exists_eq_append_baseName {path : List UInt8} (h : slash ∈ path) :
    ∃ s, path = s ++ slash :: baseName path := by
  have hrev : slash ∈ path.reverse := by simpa using h
  have hne : path.reverse.dropWhile (· ≠ slash) ≠ [] := by
    intro hnil
    rw [List.dropWhile_eq_nil_iff] at hnil
    simpa using hnil slash hrev
  obtain ⟨c, rest, hrest⟩ := List.exists_cons_of_ne_nil hne
  have hc : c = slash := by
    have hhead := List.head_dropWhile_not (· ≠ slash) hne
    simp only [hrest, List.head_cons] at hhead
    simpa using hhead
  have hsplit := List.takeWhile_append_dropWhile (p := (· ≠ slash)) (l := path.reverse)
  refine ⟨rest.reverse, ?_⟩
  rw [hrest, hc] at hsplit
  have hpath := congrArg List.reverse hsplit
  rw [List.reverse_reverse, List.reverse_append, List.reverse_cons, List.append_assoc] at hpath
  exact hpath.symm

theorem slash_not_mem_baseName (path : List UInt8) : slash ∉ baseName path := by
  intro h
  rw [baseName, List.mem_reverse] at h
  simpa using List.mem_takeWhile_imp h

theorem strrchr_path {path : List UInt8} (h : slash ∈ path) :
    strrchr path slash = some (slash :: baseName path) := by
  obtain ⟨s, hs⟩ := exists_eq_append_baseName h
  calc strrchr path slash = strrchr (s ++ slash :: baseName path) slash := by rw [← hs]
    _ = some (slash :: baseName path) := strrchr_append (slash_not_mem_baseName path)

def nameBlock (f : InputFile) : List UInt8 :=
  baseName f.path ++ 0 :: List.replicate (63 - (baseName f.path).length) 0

theorem length_nameBlock {f : InputFile} (h : (baseName f.path).length ≤ 63) :
    (nameBlock f).length = 64 := by
  rw [nameBlock, List.length_append, List.length_cons, List.length_replicate]
  omega

theorem strcpy_name {f : InputFile} (h : (baseName f.path).length ≤ 63) :
    strcpy (List.replicate filenameLength 0) (baseName f.path) = .ok (nameBlock f) := by
  rw [strcpy, List.length_replicate, filenameLength, if_pos (by omega), List.drop_replicate]
  rw [nameBlock, show 64 - ((baseName f.path).length + 1) = 63 - (baseName f.path).length by omega]

def position (files : List InputFile) (i : Nat) : Nat :=
  headerSizeOf files.length + (bodyOf (files.take i)).length

def table (files : List InputFile) (n : Nat) : Header where
  headerSize := headerSizeOf files.length
  fileCount := files.length
  offset := (List.range n).map (position files)
  length := (files.take n).map fun f => f.content.length
  filename := (files.take n).map nameBlock

section Encoder

variable {files : List InputFile}

theorem length_bodyOf_take_succ {n : Nat} (h : n < files.length) :
    (bodyOf (files.take (n + 1))).length =
      (bodyOf (files.take n)).length + files[n].content.length := by
  rw [List.take_succ_eq_append_getElem h, bodyOf, List.flatMap_append, List.length_append, bodyOf]
  simp

theorem position_succ {n : Nat} (h : n < files.length) :
    position files (n + 1) = position files n + files[n].content.length := by
  rw [position, length_bodyOf_take_succ h, position, Nat.add_assoc]

theorem position_add_le {n : Nat} (h : n < files.length) :
    position files n + files[n].content.length ≤ imageSize files := by
  have hsplit : bodyOf files = bodyOf (files.take (n + 1)) ++ bodyOf (files.drop (n + 1)) := by
    rw [bodyOf, bodyOf, bodyOf, ← List.flatMap_append, List.take_append_drop]
  rw [← position_succ h, position, imageSize, hsplit, List.length_append]
  omega

theorem argv_eq {n : Nat} (h : n < files.length) : argv files n = .ok files[n] := by
  rw [argv, List.getElem?_eq_getElem h]

theorem addFile_eq (hp : Packable files) {n : Nat} (hn : n < files.length) :
    addFile files (table files n) n = .ok (table files (n + 1)) := by
  have hmem : files[n] ∈ files := List.getElem_mem hn
  have hend := position_add_le hn
  have hlt := hp.size_lt
  have hoffset : (if n = 0 then (table files n).headerSize else
      u32 ((table files n).offset.getD (n - 1) 0 + (table files n).length.getD (n - 1) 0)) =
      position files n := by
    cases n with
    | zero => rw [if_pos rfl, table, position, List.take_zero, bodyOf]; rfl
    | succ m =>
      have hm : m < files.length := by omega
      have hoff : (table files (m + 1)).offset.getD m 0 = position files m := by
        simp [table, List.getD_eq_getElem?_getD]
      have hlen : (table files (m + 1)).length.getD m 0 = files[m].content.length := by
        simp [table, List.getD_eq_getElem?_getD, hm]
      rw [if_neg (Nat.succ_ne_zero m), Nat.add_sub_cancel, hoff, hlen, ← position_succ hm]
      exact u32_of_lt (by omega)
  have hsize : filesize files[n] = files[n].content.length := u32_of_lt (by omega)
  rw [addFile, argv_eq hn, Exec.ok_bind, hoffset, hsize]
  simp only [strrchr_path (hp.slash_mem _ hmem), List.tail_cons,
    strcpy_name (hp.name_length _ hmem), Exec.ok_bind]
  rw [table, table, List.range_succ, List.take_succ_eq_append_getElem hn]
  simp only [List.map_append, List.map_cons, List.map_nil]

theorem addFiles_eq (hp : Packable files) {n : Nat} (hn : n ≤ files.length) :
    addFiles files (table files 0) n = .ok (table files n) := by
  induction n with
  | zero => rfl
  | succ n ih =>
    rw [addFiles, ih (by omega)]
    exact addFile_eq hp (by omega)

theorem toInt_of_lt {n : Nat} (h : n < 2 ^ 31) : toInt n = n := by
  unfold toInt
  omega

theorem toInt_neg {n : Nat} (h : 2 ^ 31 ≤ n) (hn : n < 2 ^ 32) : toInt n < 0 := by
  unfold toInt
  omega

theorem getD_table_length {n : Nat} (hn : n < files.length) :
    (table files files.length).length.getD n 0 = files[n].content.length := by
  simp [table, List.getD_eq_getElem?_getD, hn]

theorem appendFiles_eq (hint : ∀ f ∈ files, f.content.length < 2 ^ 31) {n : Nat}
    (hn : n ≤ files.length) :
    appendFiles files (table files files.length) n = .ok (bodyOf (files.take n)) := by
  induction n with
  | zero => rfl
  | succ n ih =>
    have hlt := hint files[n] (List.getElem_mem (by omega))
    rw [appendFiles, ih (by omega), Exec.ok_bind, argv_eq (by omega), Exec.ok_bind,
      getD_table_length (by omega), toInt_of_lt hlt, fileread, if_neg (by omega), Exec.ok_bind,
      Int.toNat_natCast, List.take_length, List.take_succ_eq_append_getElem (by omega), bodyOf,
      bodyOf, List.flatMap_append]
    simp

theorem appendFiles_ne_ok (hp : Packable files) {i n : Nat} (hi : i < n) (hn : n ≤ files.length)
    (hlong : 2 ^ 31 ≤ files[i].content.length) (out : List UInt8) :
    appendFiles files (table files files.length) n ≠ .ok out := by
  induction n generalizing out with
  | zero => omega
  | succ n ih =>
    intro hrun
    rw [appendFiles] at hrun
    cases hbefore : appendFiles files (table files files.length) n with
    | error e =>
      rw [hbefore] at hrun
      cases hrun
    | ok before =>
      by_cases hin : i < n
      · exact ih hin (by omega) hlong before hbefore
      · have heq : i = n := by omega
        subst heq
        have hend := @position_add_le files i (by omega)
        have hlt := hp.size_lt
        rw [hbefore, Exec.ok_bind, argv_eq (by omega), Exec.ok_bind, getD_table_length (by omega),
          fileread, if_pos (toInt_neg hlong (by omega)), Exec.error_bind] at hrun
        cases hrun

def imageOf (files : List InputFile) : List UInt8 :=
  leBytes 4 (headerSizeOf files.length) ++ leBytes 4 files.length ++
    ((List.range files.length).map (position files)).flatMap (leBytes 4) ++
    (files.map fun f => f.content.length).flatMap (leBytes 4) ++
    files.flatMap nameBlock ++ bodyOf files

theorem main_eq (hp : Packable files) :
    main files = (createInitrd files (table files files.length) >>= fun image =>
      .ok (some image)) := by
  have hpos := hp.pos
  have hmax := hp.le_max
  have hargc : toChar (files.length + 1 : Nat) = files.length + 1 := by
    unfold toChar
    omega
  have hcount : ((toChar (files.length + 1 : Nat) - 1) % 2 ^ 32).toNat = files.length := by
    rw [hargc]
    omega
  have hheader : u32 (4 * 2 + 4 * files.length * 2 + files.length * filenameLength) =
      headerSizeOf files.length := by
    rw [u32_of_lt (by simp only [filenameLength]; omega), headerSizeOf, filenameLength]
    ring
  simp only [main, hcount, hheader]
  rw [if_neg (by omega)]
  change (addFiles files (table files 0) files.length >>= _) = _
  rw [addFiles_eq hp (Nat.le_refl _), Exec.ok_bind]

theorem main_eq_image (hp : Packable files) (hint : ∀ f ∈ files, f.content.length < 2 ^ 31) :
    main files = .ok (some (imageOf files)) := by
  have hbody : appendFiles files (table files files.length) files.length = .ok (bodyOf files) := by
    rw [appendFiles_eq hint (Nat.le_refl _), List.take_length]
  have hcreate : createInitrd files (table files files.length) = .ok (imageOf files) := by
    rw [createInitrd]
    change (appendFiles files (table files files.length) files.length >>= _) = _
    have hnames : files.flatMap nameBlock = (files.map nameBlock).flatten := List.flatMap_def
    rw [hbody, Exec.ok_bind, imageOf, table, List.take_length, hnames]
  rw [main_eq hp, hcreate, Exec.ok_bind]

end Encoder

theorem stringAt_eq {mem : Buf} {n p : Nat} {s rest : List UInt8}
    (h : Stored mem p (s ++ 0 :: rest)) (hnul : 0 ∉ s) (hn : s.length < n)
    (hp : p + s.length < 2 ^ 32) : stringAt mem n p = some s := by
  induction n generalizing p s with
  | zero => omega
  | succ n ih =>
    have hmem : mem (u32 p) = mem p := by rw [u32_of_lt (by omega)]
    cases s with
    | nil =>
      rw [List.nil_append, stored_cons] at h
      rw [stringAt, hmem, if_pos h.1]
    | cons c s =>
      rw [List.cons_append, stored_cons] at h
      rw [List.length_cons] at hn hp
      have hc : c ≠ 0 := fun he => hnul (by simp [he])
      rw [stringAt, hmem, h.1, if_neg hc, ih h.2 (fun hs => hnul (by simp [hs])) (by omega)
        (by omega)]
      rfl

theorem readEntries_eq {mem : Buf} {location : Nat} {junk : Nat → Nat → UInt8} {entry : Nat → File}
    {start n i : Nat} (hentry : ∀ k, i ≤ k → k < i + n →
      readEntry mem location (Libc.malloc (junk k) 128) k (start + 64 * k) = .ok (entry k))
    (hend : start + 64 * (i + n) ≤ 2 ^ 32) :
    readEntries mem location junk n i (u32 (start + 64 * i)) =
      .ok ((List.range' i n).map entry) := by
  induction n generalizing i with
  | zero => rfl
  | succ n ih =>
    have hnext : start + 64 * i + initrdFilenameSize = start + 64 * (i + 1) := by
      rw [initrdFilenameSize]
      ring
    -- The pointer past the last entry may be the end of memory, which wraps to zero.
    rw [readEntries, u32_of_lt (by omega), hentry i (Nat.le_refl i) (by omega), Exec.ok_bind,
      hnext, ih (fun k hk hk' => hentry k (by omega) (by omega)) (by omega), Exec.ok_bind,
      List.range'_succ, List.map_cons]

structure Loaded (files : List InputFile) (mem : Buf) (location : Nat) : Prop where
  fileCount : get32 mem (location + 4) = files.length
  offset : ∀ i, i < files.length → get32 mem (location + 8 + 4 * i) = position files i
  length : ∀ i, ∀ h : i < files.length,
    get32 mem (location + 8 + 4 * files.length + 4 * i) = files[i].content.length
  name : ∀ i, ∀ h : i < files.length,
    Stored mem (location + 8 + 8 * files.length + 64 * i) (nameBlock files[i])
  content : ∀ i, ∀ h : i < files.length,
    Stored mem (location + position files i) files[i].content

section Decoder

variable {files : List InputFile} {mem : Buf} {location : Nat}

theorem length_words (xs : List Nat) : (xs.flatMap (leBytes 4)).length = 4 * xs.length :=
  length_flatMap_of_eq fun _ _ => length_leBytes 4 _

theorem length_imageOf (hp : Packable files) : (imageOf files).length = imageSize files := by
  have hnames : (files.flatMap nameBlock).length = 64 * files.length :=
    length_flatMap_of_eq fun f hf => length_nameBlock (hp.name_length f hf)
  simp only [imageOf, List.length_append, length_leBytes, length_words, hnames, List.length_map,
    List.length_range, imageSize, headerSizeOf]
  ring

theorem loaded_of_stored (hp : Packable files) (h : Stored mem location (imageOf files)) :
    Loaded files mem location := by
  have hmax := hp.le_max
  have hlt := hp.size_lt
  have hnames : (files.flatMap nameBlock).length = 64 * files.length :=
    length_flatMap_of_eq fun f hf => length_nameBlock (hp.name_length f hf)
  rw [imageOf, stored_append, stored_append, stored_append, stored_append, stored_append] at h
  simp only [List.length_append, length_leBytes, length_words, hnames, List.length_map,
    List.length_range] at h
  obtain ⟨⟨⟨⟨⟨_, hcount⟩, hoffset⟩, hlength⟩, hname⟩, hbody⟩ := h
  constructor
  case fileCount => rw [hcount.get32, u32_of_lt (by omega)]
  case offset =>
    intro i hi
    have hend := position_add_le hi
    have hword := hoffset.record (fun _ _ => length_leBytes 4 _) (i := i) (by simpa using hi)
    rw [List.getElem_map, List.getElem_range] at hword
    rw [hword.get32, u32_of_lt (by omega)]
  case length =>
    intro i hi
    have hend := position_add_le hi
    have hword := hlength.record (fun _ _ => length_leBytes 4 _) (i := i) (by simpa using hi)
    rw [List.getElem_map] at hword
    have hval := hword.get32
    rw [u32_of_lt (by omega)] at hval
    rw [← hval]
    congr 1
    omega
  case name =>
    intro i hi
    have hrec := hname.record (fun f hf => length_nameBlock (hp.name_length f hf)) hi
    have hat : location + (4 + 4 + 4 * files.length + 4 * files.length) + 64 * i =
        location + 8 + 8 * files.length + 64 * i := by ring
    rwa [hat] at hrec
  case content =>
    intro i hi
    have hfile := hbody.flatMap hi
    have hat : location + (4 + 4 + 4 * files.length + 4 * files.length + 64 * files.length) +
        ((files.take i).flatMap InputFile.content).length = location + position files i := by
      rw [position, headerSizeOf, bodyOf]
      ring
    rwa [hat] at hfile

def rootFile (junk : Nat → UInt8) (i : Nat) (f : InputFile) : File where
  name := baseName f.path ++ 0 :: (Libc.malloc junk 128).drop ((baseName f.path).length + 1)
  mask := 0
  uid := 0
  gid := 0
  flags := fsFile
  inode := i
  size := f.content.length

theorem nul_not_mem_baseName (hp : Packable files) {f : InputFile} (hf : f ∈ files) :
    0 ∉ baseName f.path := by
  intro h
  obtain ⟨s, hs⟩ := exists_eq_append_baseName (hp.slash_mem f hf)
  apply hp.nul_not_mem f hf
  rw [hs]
  simp [h]

theorem alignLength_eq (hp : Packable files) (h : Loaded files mem location)
    (hfit : location + imageSize files < 2 ^ 32) {i : Nat} (hi : i < files.length) :
    alignLength mem location i = files.length - 1 + i := by
  have hpos := hp.pos
  have hmax := hp.le_max
  have hcount : fileCount mem location = files.length := by
    rw [fileCount, u32_of_lt (by unfold imageSize headerSizeOf at hfit; omega), h.fileCount]
  rw [alignLength, hcount, sub32_of_le (by omega) (by omega), u32_of_lt (by omega)]

theorem readEntry_eq (hp : Packable files) (h : Loaded files mem location)
    (hfit : location + imageSize files < 2 ^ 32) {i : Nat} (hi : i < files.length)
    (junk : Nat → UInt8) :
    readEntry mem location (Libc.malloc junk 128) i (location + 8 + 8 * files.length + 64 * i) =
      .ok (rootFile junk i files[i]) := by
  have hf : files[i] ∈ files := List.getElem_mem hi
  have hlen := hp.name_length _ hf
  have hsize : headerSizeOf files.length ≤ imageSize files := Nat.le_add_right _ _
  have hblock : (Libc.malloc junk 128).length = 128 := by simp [Libc.malloc]
  unfold headerSizeOf at hsize
  have hstring : stringAt mem 128 (location + 8 + 8 * files.length + 64 * i) =
      some (baseName files[i].path) :=
    stringAt_eq (h.name i hi) (nul_not_mem_baseName hp hf) (by omega) (by omega)
  have hword : get32 mem (u32 (location + 12 + 4 * alignLength mem location i)) =
      files[i].content.length := by
    have hat : location + 12 + 4 * (files.length - 1 + i) =
        location + 8 + 4 * files.length + 4 * i := by omega
    rw [alignLength_eq hp h hfit hi, hat, u32_of_lt (by omega), h.length i hi]
  rw [readEntry, strcpyFrom, hblock, hstring, hword]
  change (strcpy (Libc.malloc junk 128) (baseName files[i].path) >>= _) = _
  rw [strcpy, hblock, if_pos (by omega), Exec.ok_bind]
  rfl

theorem initrdInit_eq (hp : Packable files) (h : Loaded files mem location)
    (hfit : location + imageSize files < 2 ^ 32) (junk : Nat → Nat → UInt8)
    (rootJunk : Nat → UInt8) :
    ∃ root, initrdInit mem location junk rootJunk = .ok (root,
      (List.range' 0 files.length).map fun i =>
        rootFile (junk i) i (files.getD i ⟨[], []⟩)) := by
  have hpos := hp.pos
  have hmax := hp.le_max
  have hsize : headerSizeOf files.length ≤ imageSize files := Nat.le_add_right _ _
  have hblock : (Libc.malloc rootJunk 128).length = 128 := by simp [Libc.malloc]
  unfold headerSizeOf at hsize
  have hcount : fileCount mem location = files.length := by
    rw [fileCount, u32_of_lt (by omega), h.fileCount]
  have halign : alignFilename mem location = 8 * (files.length - 1) := by
    rw [alignFilename, hcount, sub32_of_le (by omega) (by omega),
      alignLength_eq hp h hfit (by omega), u32_of_lt (by omega)]
    omega
  have hptr : u32 (location + 16 + alignFilename mem location) =
      u32 (location + 8 + 8 * files.length + 64 * 0) := by
    have hat : location + 16 + 8 * (files.length - 1) =
        location + 8 + 8 * files.length + 64 * 0 := by omega
    rw [halign, hat]
  have hentries : readEntries mem location junk files.length 0
      (u32 (location + 8 + 8 * files.length + 64 * 0)) =
        .ok ((List.range' 0 files.length).map fun i =>
          rootFile (junk i) i (files.getD i ⟨[], []⟩)) := by
    apply readEntries_eq
    · intro k _ hk
      have hk' : k < files.length := by omega
      rw [readEntry_eq hp h hfit hk', List.getD_eq_getElem?_getD, List.getElem?_eq_getElem hk',
        Option.getD_some]
    · omega
  constructor
  rw [initrdInit, strcpy, hblock, if_pos (by decide), Exec.ok_bind, hcount, hptr]
  simp only [hentries, Exec.ok_bind]
  rfl

theorem readsBack (hp : Packable files) (h : Loaded files mem location)
    (hfit : location + imageSize files < 2 ^ 32) (junk : Nat → Nat → UInt8) :
    ReadsBack files (imageSize files) mem location ((List.range' 0 files.length).map fun i =>
      rootFile (junk i) i (files.getD i ⟨[], []⟩)) := by
  have hpos := hp.pos
  have hsize : headerSizeOf files.length ≤ imageSize files := Nat.le_add_right _ _
  unfold headerSizeOf at hsize
  have hentry : ∀ i, ∀ hi : i < files.length,
      ((List.range' 0 files.length).map fun i =>
        rootFile (junk i) i (files.getD i ⟨[], []⟩))[i]? = some (rootFile (junk i) i files[i]) := by
    intro i hi
    simp [List.getD_eq_getElem?_getD, hi]
  have haddr : ∀ i, ∀ hi : i < files.length,
      initrdReadfile mem location (rootFile (junk i) i files[i]) = location + position files i := by
    intro i hi
    have hend := position_add_le hi
    rw [initrdReadfile, fsGetfileAddr, rootFile, u32_of_lt (n := location + 8 + 4 * i) (by omega),
      h.offset i hi, u32_of_lt (by omega)]
  constructor
  case count => rw [fileCount, u32_of_lt (by omega), h.fileCount]
  case length_eq => rw [List.length_map, List.length_range']
  case name =>
    intro i hi
    have hf : files[i] ∈ files := List.getElem_mem hi
    exact ⟨_, hentry i hi, nul_not_mem_baseName hp hf, _, rfl⟩
  case length =>
    intro i hi
    exact ⟨_, hentry i hi, rfl⟩
  case content =>
    intro i hi
    constructor
    constructor
    · exact hentry i hi
    · rw [haddr i hi]
      exact h.content i hi
  case inside =>
    intro i hi
    have hend := position_add_le hi
    constructor
    constructor
    · exact hentry i hi
    · rw [haddr i hi]
      omega

end Decoder

theorem not_roundTrips_of_long {files : List InputFile} (hp : Packable files) {f : InputFile}
    (hf : f ∈ files) (hlong : 2 ^ 31 ≤ f.content.length) : ¬ RoundTrips files := by
  intro ⟨image, hmain, _⟩
  obtain ⟨i, hi, rfl⟩ := List.mem_iff_getElem.1 hf
  have hcount : (table files files.length).fileCount = files.length := rfl
  rw [main_eq hp, createInitrd, hcount] at hmain
  cases hbody : appendFiles files (table files files.length) files.length with
  | error e =>
    rw [hbody] at hmain
    cases hmain
  | ok body => exact appendFiles_ne_ok hp hi (Nat.le_refl _) hlong body hbody

/-- An image reads back exactly when the length of every file is an `int`, the type `fileread`
takes it as. -/
theorem roundTrips_iff {files : List InputFile} (hp : Packable files) :
    RoundTrips files ↔ ∀ f ∈ files, f.content.length < 2 ^ 31 := by
  constructor
  · intro hround f hf
    by_contra hlong
    exact not_roundTrips_of_long hp hf (by omega) hround
  · intro hint
    constructor
    constructor
    · exact main_eq_image hp hint
    · intro mem location junk rootJunk hfit hstored
      rw [length_imageOf hp] at hfit ⊢
      have hloaded := loaded_of_stored hp hstored
      obtain ⟨root, hinit⟩ := initrdInit_eq hp hloaded hfit junk rootJunk
      exact ⟨root, _, hinit, readsBack hp hloaded hfit junk⟩

/-- `/a` with three bytes and `x/bc` with two. -/
def twoFiles : List InputFile := [⟨[47, 97], [1, 2, 3]⟩, ⟨[120, 47, 98, 99], [4, 5]⟩]

theorem twoFiles_packable : Packable twoFiles := by
  constructor <;> decide

theorem roundTrips_iff_twoFiles :
    RoundTrips twoFiles ↔ ∀ f ∈ twoFiles, f.content.length < 2 ^ 31 :=
  roundTrips_iff twoFiles_packable

private theorem not_roundTrips_zeros {n : Nat} (hn : 2 ^ 31 ≤ n) (hn' : n < 2 ^ 32 - 80) :
    Packable [⟨[47, 97], List.replicate n 0⟩] ∧
      ¬ RoundTrips [⟨[47, 97], List.replicate n 0⟩] := by
  have hp : Packable [⟨[47, 97], List.replicate n 0⟩] := by
    constructor
    case pos => exact Nat.one_pos
    case le_max => simp
    case slash_mem => simp [slash]
    case nul_not_mem => simp
    case name_length => simp [baseName, slash]
    case size_lt =>
      simp only [imageSize, bodyOf, List.flatMap_cons, List.flatMap_nil, List.append_nil,
        List.length_replicate, headerSizeOf, List.length_cons, List.length_nil]
      omega
  constructor
  · exact hp
  · apply not_roundTrips_of_long hp (List.mem_singleton_self _)
    rwa [List.length_replicate]

/-- One file of `2^31` bytes fits into an image, but `fileread` takes its length as a negative
number. -/
theorem not_roundTrips_two_gigabytes :
    Packable [⟨[47, 97], List.replicate (2 ^ 31) 0⟩] ∧
      ¬ RoundTrips [⟨[47, 97], List.replicate (2 ^ 31) 0⟩] :=
  not_roundTrips_zeros (Nat.le_refl _) (by norm_num)

end KernelTest.Initrd
