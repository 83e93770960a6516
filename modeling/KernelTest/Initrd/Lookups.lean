import KernelTest.Initrd.RoundTrip

/-!
# Looking files and modules up in the initial ramdisk

All lookups go through the directory entry that `initrd_readdir` overwrites. They share a test for the extension
`.mod`, which assumes that a name has a dot, and compare numbers with the bounds in both directions.
-/

namespace KernelTest.Initrd

/-- `struct dirent` -/
structure Dirent where
  name : List UInt8
  ino : Nat

/-- A function that overwrites the one directory entry. -/
abbrev LookupM : Type → Type := Exec Fault Dirent

def dot : UInt8 := 46

/-- `MOD_EXTENTION` -/
def modExtention : List UInt8 := [dot, 109, 111, 100]

def text (array : List UInt8) : List UInt8 := array.takeWhile (· ≠ 0)

/-- The macro `IS_FILE_MOD`. -/
def isFileMod (filename : List UInt8) : Except Fault Bool :=
  match strrchr filename dot with
  | none => .error .nullPointer
  | some extention => .ok (extention = modExtention)

section Lookups

variable (mem : Buf) (location : Nat) (rootFiles : List File)

/-- `initrd_readdir(node, index)` -/
def initrdReaddir (index : Nat) : LookupM (Option Dirent) := fun dirent =>
  if index > fileCount mem location then .ok (none, dirent)
  else
    match rootFiles[index]? with
    | none => .error .overrun
    | some file => do
      let name ← strcpy dirent.name (text file.name)
      .ok (some ⟨name, file.inode⟩, ⟨name, file.inode⟩)

/-- `initrd_finddir(node, name)`, also through `fs_finddir(initrd_root, name)`. -/
def initrdFinddir (name : List UInt8) : Option File := rootFiles.find? fun file => text file.name = name

/-- `initrd_filecount()` -/
def initrdFilecount : Int := toInt (fileCount mem location)

/-- `initrd_readdir(initrd_root, i)->name` -/
def nameAt (i : Nat) : LookupM (List UInt8) := do
  match ← initrdReaddir mem location rootFiles i with
  | none => throw .nullPointer
  | some dirent => pure (text dirent.name)

/-- `initrd_readfile(filename)`: an address, or null. -/
def initrdReadfileNamed (filename : List UInt8) : Option Nat :=
  match initrdFinddir rootFiles filename with
  | none => none
  | some node => if node.size > 0 then some (initrdReadfile mem location node) else none

/-- `initrd_getmod(modname)` -/
def initrdGetmodNamed (modname : List UInt8) : Except Fault (Option Nat) := do
  if ← isFileMod modname then pure (initrdReadfileNamed mem location rootFiles modname) else pure none

/-- So many rounds of the loop of `initrd_modcount`, from `i` on. -/
def modcountLoop : Nat → Nat → Nat → LookupM Nat
  | 0, _, modcount => pure modcount
  | rounds + 1, i, modcount => do
    let name ← nameAt mem location rootFiles i
    if ← Exec.lift (isFileMod name) then modcountLoop rounds (i + 1) (modcount + 1)
    else modcountLoop rounds (i + 1) modcount

/-- `initrd_modcount()` -/
def initrdModcount : LookupM Nat := modcountLoop mem location rootFiles (initrdFilecount mem location).toNat 0 0

/-- So many rounds of the loop of `initrd_getmod(mod_id)`, from `i` on: the name that `mod_name` points to, if it
points to one. -/
def getmodLoop (modId : Int) : Nat → Nat → Nat → Option (List UInt8) → LookupM (Option (List UInt8))
  | 0, _, _, modName => pure modName
  | rounds + 1, i, modCtr, _ => do
    let name ← nameAt mem location rootFiles i
    if ← Exec.lift (isFileMod name) then
      if (modCtr : Int) = modId then pure (some name) else getmodLoop modId rounds (i + 1) (modCtr + 1) (some name)
    else getmodLoop modId rounds (i + 1) modCtr (some name)

/-- `initrd_getmod(mod_id)` -/
def initrdGetmod (modId : Int) : LookupM (Option Nat) := do
  let modcount ← initrdModcount mem location rootFiles
  if modId < modcount then pure none
  else do
    match ← getmodLoop mem location rootFiles modId (initrdFilecount mem location).toNat 0 0 none with
    | none => throw .nullPointer
    | some modName => Exec.lift (initrdGetmodNamed mem location rootFiles modName)

/-- So many rounds of the loop of `initrd_getmod_name`, from `i` on. -/
def getmodNameLoop (modId : Int) : Nat → Nat → Nat → LookupM (Option (List UInt8))
  | 0, _, _ => pure none
  | rounds + 1, i, modCtr => do
    let modname ← nameAt mem location rootFiles i
    if ← Exec.lift (isFileMod modname) then
      if (modCtr : Int) = modId then pure (some modname) else getmodNameLoop modId rounds (i + 1) (modCtr + 1)
    else getmodNameLoop modId rounds (i + 1) modCtr

/-- `initrd_getmod_name(mod_id)` -/
def initrdGetmodName (modId : Int) : LookupM (Option (List UInt8)) :=
  getmodNameLoop mem location rootFiles modId (initrdFilecount mem location).toNat 0 0

/-- `initrd_getmod_file(modname)` -/
def initrdGetmodFileNamed (modname : List UInt8) : Except Fault (Option File) := do
  if ← isFileMod modname then pure (initrdFinddir rootFiles modname) else pure none

/-- `initrd_getmod_file(mod_id)` -/
def initrdGetmodFile (modId : Int) : LookupM (Option File) := do
  match ← initrdGetmodName mem location rootFiles modId with
  | none => pure none
  | some modname => pure (initrdFinddir rootFiles modname)

/-- The files whose names end with `.mod`. -/
def mods : List File := rootFiles.filter fun file => modExtention <:+ text file.name

/-- Where the contents of a file are, if it has any. -/
def contents (file : File) : Option Nat := if file.size > 0 then some (fsGetfileAddr mem location file) else none

/-- A function returns a value, whatever the directory entry held. -/
def Gives {α : Type} (x : LookupM α) (a : α) : Prop :=
  ∀ dirent : Dirent, dirent.name.length = 128 → ∃ dirent', x dirent = .ok (a, dirent')

/-- The lookups agree with the list of the files. -/
structure LookupsAgree : Prop where
  entry : ∀ i file, rootFiles[i]? = some file → ∀ dirent : Dirent, dirent.name.length = 128 → ∃ d,
    initrdReaddir mem location rootFiles i dirent = .ok (some d, d) ∧ text d.name = text file.name ∧ d.ino = file.inode
  last : Gives (initrdReaddir mem location rootFiles rootFiles.length) none
  modcount : Gives (initrdModcount mem location rootFiles) (mods rootFiles).length
  byNumber : ∀ (k : Nat) file, (mods rootFiles)[k]? = some file →
    Gives (initrdGetmodName mem location rootFiles k) (some (text file.name)) ∧
    Gives (initrdGetmodFile mem location rootFiles k) (some file) ∧
    Gives (initrdGetmod mem location rootFiles k) (contents mem location file)
  noNumber : ∀ k : Int, k < 0 ∨ (mods rootFiles).length ≤ k →
    Gives (initrdGetmodName mem location rootFiles k) none ∧ Gives (initrdGetmodFile mem location rootFiles k) none ∧
    Gives (initrdGetmod mem location rootFiles k) none
  byName : ∀ name : List UInt8, 0 ∉ name →
    initrdGetmodFileNamed rootFiles name = .ok ((mods rootFiles).find? fun file => text file.name = name) ∧
    initrdGetmodNamed mem location rootFiles name =
      .ok (((mods rootFiles).find? fun file => text file.name = name).bind (contents mem location))

end Lookups

section Entries

variable {mem : Buf} {location i n : Nat} {rootFiles rest : List File} {file root : File} {dirent : Dirent}
  {name s : List UInt8} {junk : Nat → Nat → UInt8} {rootJunk : Nat → UInt8}

theorem text_append (hs : 0 ∉ s) (r : List UInt8) : text (s ++ 0 :: r) = s := by
  have hall : ∀ c ∈ s, decide (c ≠ 0) = true := by
    intro c hc
    simpa using fun hzero : c = 0 => hs (hzero ▸ hc)
  rw [text, List.takeWhile_append_of_pos hall]
  simp

theorem nul_notMem_text (array : List UInt8) : 0 ∉ text array := by
  intro h
  simpa using List.mem_takeWhile_imp h

theorem stringAt_lt {p : Nat} (h : stringAt mem n p = some s) : s.length < n ∧ 0 ∉ s := by
  induction n generalizing p s with
  | zero => cases h
  | succ n ih =>
    rw [stringAt] at h
    by_cases hzero : mem (u32 p) = 0
    · rw [if_pos hzero, Option.some.injEq] at h
      rw [← h]
      exact ⟨Nat.succ_pos n, List.not_mem_nil⟩
    · rw [if_neg hzero] at h
      obtain ⟨s', hs', rfl⟩ := Option.map_eq_some_iff.mp h
      obtain ⟨hlt, hnul⟩ := ih hs'
      refine ⟨Nat.succ_lt_succ hlt, ?_⟩
      rw [List.mem_cons, not_or]
      exact ⟨Ne.symm hzero, hnul⟩

theorem readEntry_name {p : Nat} (h : readEntry mem location (Libc.malloc (junk i) 128) i p = .ok file) :
    (text file.name).length < 128 := by
  rw [readEntry] at h
  obtain ⟨name, hname, h⟩ := Exec.of_bind_eq_ok h
  cases h
  have hlen : (Libc.malloc (junk i) 128).length = 128 := by simp [Libc.malloc]
  rw [strcpyFrom, hlen] at hname
  cases hs : stringAt mem 128 p with
  | none =>
    rw [hs] at hname
    cases hname
  | some s =>
    obtain ⟨hlt, hnul⟩ := stringAt_lt hs
    rw [hs] at hname
    change strcpy _ s = _ at hname
    rw [strcpy, if_pos (hlen.symm ▸ hlt), Except.ok.injEq] at hname
    change (text name).length < 128
    rw [← hname, text_append hnul]
    exact hlt

theorem readEntries_files {p : Nat} (h : readEntries mem location junk n i p = .ok rootFiles) :
    rootFiles.length = n ∧ ∀ file ∈ rootFiles, (text file.name).length < 128 := by
  induction n generalizing i p rootFiles with
  | zero =>
    cases h
    exact ⟨rfl, fun file hfile => absurd hfile List.not_mem_nil⟩
  | succ n ih =>
    rw [readEntries] at h
    obtain ⟨file, hfile, h⟩ := Exec.of_bind_eq_ok h
    obtain ⟨files, hfiles, h⟩ := Exec.of_bind_eq_ok h
    cases h
    obtain ⟨hlen, hnames⟩ := ih hfiles
    refine ⟨by rw [List.length_cons, hlen], fun f hf => ?_⟩
    cases List.mem_cons.mp hf with
    | inl heq => exact heq ▸ readEntry_name hfile
    | inr hf => exact hnames f hf

theorem initrdInit_files (h : initrdInit mem location junk rootJunk = .ok (root, rootFiles)) :
    rootFiles.length = fileCount mem location ∧ ∀ file ∈ rootFiles, (text file.name).length < 128 := by
  rw [initrdInit] at h
  obtain ⟨name, -, h⟩ := Exec.of_bind_eq_ok h
  obtain ⟨files, hfiles, h⟩ := Exec.of_bind_eq_ok h
  cases h
  exact readEntries_files hfiles

theorem initrdReaddir_entry (hcount : rootFiles.length = fileCount mem location) (hi : rootFiles[i]? = some file)
    (hname : (text file.name).length < 128) (hdirent : dirent.name.length = 128) : ∃ d,
      initrdReaddir mem location rootFiles i dirent = .ok (some d, d) ∧ text d.name = text file.name ∧
        d.ino = file.inode ∧ d.name.length = 128 := by
  have hlt := (List.getElem?_eq_some_iff.mp hi).1
  refine ⟨⟨text file.name ++ 0 :: dirent.name.drop ((text file.name).length + 1), file.inode⟩, ?_, ?_, rfl, ?_⟩
  · rw [initrdReaddir, if_neg (by omega), hi]
    change (strcpy _ _ >>= _) = _
    rw [strcpy, if_pos (by omega)]
    rfl
  · exact text_append (nul_notMem_text _) _
  · rw [List.length_append, List.length_cons, List.length_drop]
    omega

theorem initrdReaddir_last (hcount : rootFiles.length = fileCount mem location) (dirent : Dirent) :
    initrdReaddir mem location rootFiles rootFiles.length dirent = .error .overrun := by
  rw [initrdReaddir, if_neg (by omega), List.getElem?_eq_none (Nat.le_refl _)]

theorem isFileMod_eq (h : dot ∈ name) : isFileMod name = .ok (decide (modExtention <:+ name)) := by
  obtain ⟨stem, extention, rfl, hdot⟩ : ∃ stem extention, name = stem ++ dot :: extention ∧ dot ∉ extention := by
    obtain ⟨pre, post, hsplit, hnot⟩ := List.eq_append_cons_of_mem (List.mem_reverse.mpr h)
    refine ⟨post.reverse, pre.reverse, ?_, fun hmem => hnot (List.mem_reverse.mp hmem)⟩
    have hname := congrArg List.reverse hsplit
    rw [List.reverse_reverse, List.reverse_append, List.reverse_cons, List.append_assoc] at hname
    exact hname
  rw [isFileMod, strrchr_append hdot, Except.ok.injEq, decide_eq_decide]
  constructor
  · intro heq
    exact ⟨stem, by rw [← heq]⟩
  · intro ⟨stem', hstem'⟩
    have hlast := @strrchr_append stem' [109, 111, 100] dot (by decide)
    rw [← modExtention, hstem', strrchr_append hdot, Option.some.injEq] at hlast
    exact hlast

theorem initrdGetmodFileNamed_noDot (rootFiles : List File) (h : dot ∉ name) :
    initrdGetmodFileNamed rootFiles name = .error .nullPointer := by
  rw [initrdGetmodFileNamed, isFileMod, strrchr_eq_none h]
  rfl

theorem nameAt_eq (hcount : rootFiles.length = fileCount mem location) (hi : rootFiles[i]? = some file)
    (hname : (text file.name).length < 128) (hdirent : dirent.name.length = 128) : ∃ d,
      nameAt mem location rootFiles i dirent = .ok (text file.name, d) ∧ d.name.length = 128 := by
  obtain ⟨d, hrun, hd, -, hlen⟩ := initrdReaddir_entry hcount hi hname hdirent
  refine ⟨d, ?_, hlen⟩
  rw [nameAt, Exec.bind_ok hrun, ← hd]
  rfl

theorem modcountLoop_eq (hcount : rootFiles.length = fileCount mem location)
    (hrest : ∀ k file, rest[k]? = some file → rootFiles[i + k]? = some file)
    (hnames : ∀ file ∈ rest, (text file.name).length < 128 ∧ dot ∈ text file.name) (c : Nat)
    (hdirent : dirent.name.length = 128) : ∃ d,
      modcountLoop mem location rootFiles rest.length i c dirent = .ok (c + (mods rest).length, d) ∧
        d.name.length = 128 := by
  induction rest generalizing i c dirent with
  | nil => exact ⟨dirent, rfl, hdirent⟩
  | cons file rest ih =>
    obtain ⟨hfits, hdot⟩ := hnames file List.mem_cons_self
    have hrest' : ∀ k file', rest[k]? = some file' → rootFiles[i + 1 + k]? = some file' := by
      intro k file' hk
      rw [Nat.add_right_comm]
      exact hrest (k + 1) file' hk
    have hnames' := fun file' hfile' => hnames file' (List.mem_cons_of_mem file hfile')
    have hfirst : rootFiles[i]? = some file := hrest 0 file rfl
    obtain ⟨d, hname, hd⟩ := nameAt_eq hcount hfirst hfits hdirent
    rw [List.length_cons, modcountLoop, Exec.bind_ok hname, Exec.lift_bind_ok (isFileMod_eq hdot)]
    by_cases hmod : modExtention <:+ text file.name
    · obtain ⟨d', hloop, hd'⟩ := ih hrest' hnames' (c + 1) hd
      have hmods : (mods (file :: rest)).length = (mods rest).length + 1 := by
        rw [mods, List.filter_cons_of_pos (by simpa using hmod)]
        rfl
      refine ⟨d', ?_, hd'⟩
      rw [if_pos (decide_eq_true hmod), hloop, hmods, Nat.add_assoc, Nat.add_comm 1]
    · obtain ⟨d', hloop, hd'⟩ := ih hrest' hnames' c hd
      have hmods : mods (file :: rest) = mods rest := by
        rw [mods, List.filter_cons_of_neg (by simpa using hmod)]
        rfl
      refine ⟨d', ?_, hd'⟩
      rw [if_neg (by simpa using hmod), hloop, hmods]

theorem initrdModcount_eq (hcount : rootFiles.length = fileCount mem location) (hsmall : rootFiles.length < 2 ^ 31)
    (hnames : ∀ file ∈ rootFiles, (text file.name).length < 128 ∧ dot ∈ text file.name) :
    Gives (initrdModcount mem location rootFiles) (mods rootFiles).length := by
  intro dirent hdirent
  have hrounds : (initrdFilecount mem location).toNat = rootFiles.length := by
    rw [initrdFilecount, ← hcount, toInt_of_lt hsmall, Int.toNat_natCast]
  have hrest : ∀ k file, rootFiles[k]? = some file → rootFiles[0 + k]? = some file := by
    intro k file hk
    rwa [Nat.zero_add]
  obtain ⟨d, hloop, -⟩ := modcountLoop_eq hcount hrest hnames 0 hdirent
  refine ⟨d, ?_⟩
  rw [initrdModcount, hrounds, hloop, Nat.zero_add]

theorem initrdGetmod_of_lt (h : Gives (initrdModcount mem location rootFiles) n) {k : Nat} (hk : k < n) :
    Gives (initrdGetmod mem location rootFiles k) none := by
  intro dirent hdirent
  obtain ⟨d, hrun⟩ := h dirent hdirent
  refine ⟨d, ?_⟩
  rw [initrdGetmod, Exec.bind_ok hrun, if_pos (Int.ofNat_lt.mpr hk)]
  rfl

theorem not_byNumber (h : Gives (initrdModcount mem location rootFiles) (mods rootFiles).length)
    (hfile : (mods rootFiles)[i]? = some file) (hsize : 0 < file.size) :
    ¬ Gives (initrdGetmod mem location rootFiles i) (contents mem location file) := by
  intro hgives
  obtain ⟨d, hrun⟩ := hgives ⟨List.replicate 128 0, 0⟩ rfl
  obtain ⟨d', hrun'⟩ := initrdGetmod_of_lt h (List.getElem?_eq_some_iff.mp hfile).1 ⟨List.replicate 128 0, 0⟩ rfl
  rw [hrun, contents, if_pos hsize] at hrun'
  cases hrun'

/-- In no image do the lookups agree: behind the last file `initrd_readdir` does not return 0. -/
theorem not_lookupsAgree (h : initrdInit mem location junk rootJunk = .ok (root, rootFiles)) :
    ¬ LookupsAgree mem location rootFiles := by
  intro hagree
  obtain ⟨d, hlast⟩ := hagree.last ⟨List.replicate 128 0, 0⟩ rfl
  rw [initrdReaddir_last (initrdInit_files h).1] at hlast
  cases hlast

/-- An image with the one file `a.mod`, of three bytes. -/
def oneModule : Buf := fun a =>
  [80, 0, 0, 0, 1, 0, 0, 0, 80, 0, 0, 0, 3, 0, 0, 0, 97, 46, 109, 111, 100].getD a 0

/-- Its entry in `root_files`. -/
def oneModuleFile : File := ⟨[97, 46, 109, 111, 100] ++ List.replicate 123 0, 0, 0, 0, fsFile, 0, 3⟩

theorem initrdInit_oneModule : ∃ root,
    initrdInit oneModule 0 (fun _ _ => 0) (fun _ => 0) = .ok (root, [oneModuleFile]) := by
  have hroot : strcpy (Libc.malloc (fun _ => 0) 128) [114, 97, 109, 49] =
      .ok ([114, 97, 109, 49] ++ List.replicate 124 0) := by decide +kernel
  have hname : strcpyFrom oneModule (Libc.malloc (fun _ => 0) 128) 16 = .ok oneModuleFile.name := by decide +kernel
  have hentry : readEntry oneModule 0 (Libc.malloc (fun _ => 0) 128) 0 16 = .ok oneModuleFile := by
    rw [readEntry, hname]
    rfl
  have hentries : readEntries oneModule 0 (fun _ _ => 0) 1 0 16 = .ok [oneModuleFile] := by
    rw [readEntries, hentry]
    rfl
  refine ⟨⟨[114, 97, 109, 49] ++ List.replicate 124 0, 0, 0, 0, fsDir, 0, 0⟩, ?_⟩
  rw [initrdInit, hroot, Exec.ok_bind]
  change (readEntries oneModule 0 (fun _ _ => 0) 1 0 16 >>= _) = _
  rw [hentries]
  rfl

theorem not_lookupsAgree_oneModule : ¬ LookupsAgree oneModule 0 [oneModuleFile] := by
  obtain ⟨root, hinit⟩ := initrdInit_oneModule
  exact not_lookupsAgree hinit

/-- `initrd_getmod(0)` is not the contents of its module. -/
theorem not_lookupsAgree_first :
    (∃ root, initrdInit oneModule 0 (fun _ _ => 0) (fun _ => 0) = .ok (root, [oneModuleFile])) ∧
      ¬ LookupsAgree oneModule 0 [oneModuleFile] := by
  refine ⟨initrdInit_oneModule, fun h => ?_⟩
  exact not_byNumber h.modcount rfl (by decide) (h.byNumber 0 oneModuleFile rfl).2.2

end Entries

end KernelTest.Initrd
