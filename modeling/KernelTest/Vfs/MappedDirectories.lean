import KernelTest.Vfs.Lookup

/-!
# Directories of the mount tree

`map_vfs_directory` mounts a directory that shows the children of a node of the mount tree. The node is
referred to by a pointer that `vfs_mount` should return.
-/

namespace KernelTest.Vfs

open Libc

/-- `node->device` of a directory. -/
inductive DevicePtr
  | null
  /-- `fs_tree->root` -/
  | root
  /-- A pointer that a driver uses for itself. -/
  | other (k : Nat)
  deriving DecidableEq

/-- The fields that `readdir` uses. -/
structure DirFields where
  device : DevicePtr
  readdirFn : Nat
  deriving DecidableEq

abbrev DirFile := File DirFields

/-- The address of `readdir_mapper`. -/
def readdirMapperFn : Nat := 1

/-- `sizeof(struct dirent)`: the name with 128 bytes, and `ino`. -/
def direntSize : Nat := 132

variable (junk : Nat → UInt8) (vfs : Mounts DirFields)

/-- `vfs_mapper()`. -/
def vfsMapper : DirFile := ⟨fsDir, 0, 0, 0, 0, 0, ⟨.null, readdirMapperFn⟩⟩

/-- `map_vfs_directory(c)`, where `vfs_mapper` returns `f`. What `vfs_mount` returns is 0. -/
def mapVfsDirectory (c : Block) (f : Nat) : Except Fault (Mounts DirFields) := do
  let vfs ← vfsMount junk { vfs with file := Function.update vfs.file f vfsMapper } (some c) f
  let d ← strcmp c [pathSeparator, 0]
  let node := vfs.file f
  let device := if d = 0 then .root else .null
  pure { vfs with
    file := Function.update vfs.file f { node with rest := { node.rest with device := device } } }

/-- A new `struct dirent` with `n` bytes of the name. -/
def makeDirent (name : Block) (n ino : Nat) : Except Fault Block := do
  let dir ← memcpy (malloc junk direntSize) 0 name n
  pure (dir.take 128 ++ (List.range 4).map fun k => UInt8.ofNat (ino / 256 ^ k))

/-- `readdir_mapper(node, index)`. -/
def readdirMapper (node : DirFile) (index : Nat) : VfsM (Option Block) :=
  match node.rest.device with
  | .null => pure none
  -- something else is taken for a node of the tree
  | .other _ => throw .wildPointer
  | .root =>
    if index = 0 then (liftString (makeDirent junk (pathDot ++ [0]) 2 0)).map some
    else if index = 1 then (liftString (makeDirent junk (pathUp ++ [0]) 3 1)).map some
    else
      match vfs.root.children[index - 2]? with
      | none => pure none
      | some child => do
        let len ← liftString (strlen child.value.name)
        (liftString (makeDirent junk child.value.name (min 256 (len + 1)) (index - 2))).map some

/-- `fs_readdir(node, index)`, with the callbacks of the drivers. -/
def fsReaddir (readdir : Nat → DirFile → Nat → VfsM (Option Block)) (node : FilePtr DirFields)
    (index : Nat) : VfsM (Option Block) :=
  match node with
  | .null => pure none
  | .err _ => throw .wildPointer
  | .node f =>
    if fsIsDir f ∧ f.rest.readdirFn ≠ 0 then
      if f.rest.readdirFn = readdirMapperFn then readdirMapper junk vfs f index
      else readdir f.rest.readdirFn f index
    else pure none

/-- The entry carries the name, or what fits of it. -/
structure Carries (e : Block) (c : List UInt8) : Prop where
  size : e.length = direntSize
  name : ∃ p, p <+: c ∧ (c.length < 128 → p = c) ∧ CString (e.take 128) p

/-- The calls with 0, 1, 2, … return entries with these names, and then 0. -/
def Lists (readdir : Nat → VfsM (Option Block)) (names : List (List UInt8)) : Prop :=
  ∀ i, match names[i]? with
    | none => readdir i = .ok none
    | some c => ∃ e, readdir i = .ok (some e) ∧ Carries e c

/-- Whatever the drivers do, the file that is opened at `d` lists the names. -/
def ListsDirectory (d : CanonicalPath) (names : List (List UInt8)) : Prop :=
  ∀ (cb : Callbacks DirFields) (readdir : Nat → DirFile → Nat → VfsM (Option Block))
    (workDirpath : Block) (flags : Nat), ∃ node,
    kopen cb junk vfs workDirpath (some d.block) flags = .ok node ∧
      Lists (fsReaddir junk vfs readdir node) (pathDot :: pathUp :: names)

/-- The names that mounts put below the directory `d`, in the order in which they come. -/
def childNames (mounts : List (CanonicalPath × Nat)) (d : List (List UInt8)) : List (List UInt8) :=
  (mounts.filter fun m => m.2 ≠ 0).foldl (fun names m => addName names (nextOn d m.1.components)) []

variable {junk vfs}

section Tree

variable {ρ : Type} {vfs vfs' : Mounts ρ} {localRoot : Nat}

theorem names_vfsMount (path : CanonicalPath) (hf : localRoot ≠ 0) (hw : vfs.WellFormed)
    (hrun : vfsMount junk vfs (some path.block) localRoot = .ok vfs') (d : List (List UInt8)) :
    Tree.names VfsEntry.key d vfs'.root =
      addName (Tree.names VfsEntry.key d vfs.root) (nextOn d path.components) := by
  rw [vfsMount_tree junk path hf hw] at hrun
  cases hrun
  exact Tree.names_update (fun c hc => VfsEntry.key_fresh (path.isComponent c hc).no_nul) fun _ => rfl

theorem names_mountAll {mounts : List (CanonicalPath × Nat)} (hw : vfs.WellFormed)
    (hrun : mountAll junk vfs (mountCalls mounts) = .ok vfs') (d : List (List UInt8)) :
    Tree.names VfsEntry.key d vfs'.root =
      (mounts.filter fun m => m.2 ≠ 0).foldl
        (fun names m => addName names (nextOn d m.1.components))
        (Tree.names VfsEntry.key d vfs.root) := by
  induction mounts generalizing vfs with
  | nil =>
    cases hrun
    rfl
  | cons m mounts ih =>
    change (vfsMount junk vfs (some m.1.block) m.2 >>= fun vfs => mountAll junk vfs _) = _ at hrun
    by_cases hf : m.2 = 0
    · rw [hf, vfsMount_null] at hrun
      rw [ih hw hrun, List.filter_cons_of_neg (by simpa using hf)]
    · have hmount := vfsMount_tree junk m.1 hf hw
      rw [hmount] at hrun
      rw [ih (hw.vfsMount hmount) hrun, List.filter_cons_of_pos (by simpa using hf), List.foldl_cons,
        names_vfsMount m.1 hf hw hmount]

theorem longestPrefix_self {κ ν : Type} {g : List κ → Option ν} {p : List κ} {v : ν}
    (h : g p = some v) : longestPrefix g p = some (v, []) := by
  induction p generalizing g with
  | nil => rw [longestPrefix, h]; rfl
  | cons k p ih => rw [longestPrefix, ih h]; rfl

theorem mountPoint_of_at (hw : vfs.WellFormed) {cs : List (List UInt8)} {n : Nat}
    (h : vfs.at? cs = some n) : vfs.mountPoint cs = (n, []) := by
  have hseen : ((VfsEntry.mounted vfs.root.value).map fun v => (v, cs)).getD (vfs.fsRoot, cs) =
      (vfs.fsRoot, cs) := by
    rw [VfsEntry.mounted, hw.root]
    split <;> rfl
  have hdeepest : Tree.deepest VfsEntry.key VfsEntry.mounted cs vfs.root _ =
      (longestPrefix vfs.at? cs).getD (vfs.fsRoot, cs) := Tree.deepest_eq cs vfs.root (vfs.fsRoot, cs)
  rw [hseen, longestPrefix_self h] at hdeepest
  exact hdeepest

theorem kopen_mount (cb : Callbacks ρ) (hw : vfs.WellFormed) (path : CanonicalPath) {n : Nat}
    (hat : vfs.at? path.components = some n) (hn : n ≠ 0) (workDirpath : Block) (flags : Nat) :
    kopen cb junk vfs workDirpath (some path.block) flags =
      .ok (.node (fopenNode cb (vfs.file n) flags).1) := by
  rw [kopen_canonical hw]
  exact openPath_of_meetsNoSymlink _ flags 0 (fun c hc => (path.isComponent c hc).no_nul)
    (mountPoint_of_at hw hat) hn trivial

end Tree

section Entries

variable {name : Block} {c : List UInt8} {ino : Nat}

theorem length_malloc (junk : Nat → UInt8) (n : Nat) : (malloc junk n).length = n := by
  simp [malloc]

theorem makeDirent_fits (junk : Nat → UInt8) (hname : CString name c) (hlen : c.length < 128) (ino : Nat) :
    ∃ e, makeDirent junk name (c.length + 1) ino = .ok e ∧ Carries e c := by
  have hblock : c.length + 1 ≤ name.length := by
    obtain ⟨_, r, rfl⟩ := hname
    simp
  have hfit : 0 + (c.length + 1) ≤ (malloc junk direntSize).length ∧ c.length + 1 ≤ name.length := by
    rw [length_malloc, direntSize]
    omega
  have hcopy : memcpy (malloc junk direntSize) 0 name (c.length + 1) =
      .ok (c ++ 0 :: (malloc junk direntSize).drop (c.length + 1)) := by
    rw [memcpy, if_pos hfit, hname.take]
    simp
  have htail : c.length + 1 + ((malloc junk direntSize).drop (c.length + 1)).length = direntSize := by
    rw [List.length_drop, length_malloc, direntSize]
    omega
  generalize (malloc junk direntSize).drop (c.length + 1) = rest at hcopy htail
  have htake : (c ++ 0 :: rest).take 128 = c ++ 0 :: rest.take (127 - c.length) := by
    rw [List.take_append, List.take_of_length_le (by omega)]
    have hleft : 128 - c.length = 127 - c.length + 1 := by omega
    rw [hleft, List.take_succ_cons]
  have hsize : ((c ++ 0 :: rest).take 128).length = 128 := by
    rw [List.length_take, List.length_append, List.length_cons]
    rw [direntSize] at htail
    omega
  refine ⟨(c ++ 0 :: rest).take 128 ++ (List.range 4).map fun k => UInt8.ofNat (ino / 256 ^ k), ?_, ?_⟩
  · rw [makeDirent, hcopy]
    rfl
  constructor
  case size =>
    rw [List.length_append, hsize, List.length_map, List.length_range]
    rfl
  case name =>
    refine ⟨c, List.prefix_refl c, fun _ => rfl, ?_⟩
    rw [List.take_append_of_le_length (by omega), List.take_of_length_le (by omega), htake]
    exact ⟨hname.1, _, rfl⟩

theorem makeDirent_long (hname : CString name c) (hlen : 128 ≤ c.length) {e : Block}
    (h : makeDirent junk name (min 256 (c.length + 1)) ino = .ok e) : ¬ Carries e c := by
  intro hcarries
  obtain ⟨p, _, _, _, rest, hterminated⟩ := hcarries.name
  have hn : 128 < min 256 (c.length + 1) := by omega
  generalize min 256 (c.length + 1) = n at h hn
  have hhead : name.take 128 = c.take 128 := by
    obtain ⟨_, r, rfl⟩ := hname
    rw [List.take_append_of_le_length hlen]
  have hshown : e.take 128 = c.take 128 := by
    by_cases hfit : 0 + n ≤ (malloc junk direntSize).length ∧ n ≤ name.length
    · rw [makeDirent, memcpy, if_pos hfit] at h
      cases h
      have hlong : 128 ≤ (name.take n).length := by
        rw [List.length_take]
        omega
      rw [List.take_zero, List.nil_append, List.take_append_of_le_length hlong, List.take_take,
        Nat.min_eq_left (by omega), List.take_append_of_le_length (by rw [List.length_take]; omega),
        List.take_take, Nat.min_self, hhead]
    · rw [makeDirent, memcpy, if_neg hfit] at h
      cases h
  have hnul : 0 ∈ e.take 128 := by
    rw [hterminated]
    exact List.mem_append_right p List.mem_cons_self
  rw [hshown] at hnul
  exact hname.1 (List.mem_of_mem_take hnul)

end Entries

section Directory

variable {node : DirFile} {cb : Callbacks DirFields}

theorem lists_root_iff (hw : vfs.WellFormed) (hdevice : node.rest.device = .root) :
    Lists (readdirMapper junk vfs node)
        (pathDot :: pathUp :: Tree.names VfsEntry.key [] vfs.root) ↔
      ∀ c ∈ Tree.names VfsEntry.key [] vfs.root, c.length < 128 := by
  have hnames : Tree.names VfsEntry.key [] vfs.root =
      vfs.root.children.map fun u => u.value.key := rfl
  have hchild : ∀ (i : Nat) {child : Tree VfsEntry}, vfs.root.children[i]? = some child →
      CString child.value.name child.value.key ∧ readdirMapper junk vfs node (i + 2) =
        (liftString (makeDirent junk child.value.name (min 256 (child.value.key.length + 1)) i)).map
          some := by
    intro i child hi
    have hterminated := hw.names.children child (List.mem_of_getElem? hi)
    have hname := VfsEntry.cString_key hterminated.value
    refine ⟨hname, ?_⟩
    rw [readdirMapper, hdevice]
    change (match vfs.root.children[i]? with
      | none => pure none
      | some child => _) = _
    rw [hi]
    change (liftString (strlen child.value.name) >>= _) = _
    rw [strlen_eq hname]
    rfl
  rw [hnames]
  constructor
  · intro hlists c hc
    obtain ⟨child, hmem, rfl⟩ := List.mem_map.mp hc
    obtain ⟨i, hi⟩ := List.mem_iff_getElem?.mp hmem
    obtain ⟨hname, hread⟩ := hchild i hi
    have hentry := hlists (i + 2)
    rw [List.getElem?_cons_succ, List.getElem?_cons_succ, List.getElem?_map, hi] at hentry
    obtain ⟨e, he, hcarries⟩ := hentry
    rw [hread] at he
    by_contra hlong
    cases hmake : makeDirent junk child.value.name (min 256 (child.value.key.length + 1)) i with
    | error f =>
      rw [hmake] at he
      cases he
    | ok e' =>
      rw [hmake] at he
      cases he
      exact makeDirent_long hname (by omega) hmake hcarries
  · intro hshort i
    match i with
    | 0 =>
      have hdot : CString (pathDot ++ [0]) pathDot := cString_terminated (by decide)
      obtain ⟨e, he, hcarries⟩ := makeDirent_fits junk hdot (by decide) 0
      refine ⟨e, ?_, hcarries⟩
      rw [readdirMapper, hdevice]
      change (liftString (makeDirent junk (pathDot ++ [0]) (pathDot.length + 1) 0)).map some = _
      rw [he]
      rfl
    | 1 =>
      have hup : CString (pathUp ++ [0]) pathUp := cString_terminated (by decide)
      obtain ⟨e, he, hcarries⟩ := makeDirent_fits junk hup (by decide) 1
      refine ⟨e, ?_, hcarries⟩
      rw [readdirMapper, hdevice]
      change (liftString (makeDirent junk (pathUp ++ [0]) (pathUp.length + 1) 1)).map some = _
      rw [he]
      rfl
    | i + 2 =>
      rw [List.getElem?_cons_succ, List.getElem?_cons_succ, List.getElem?_map]
      cases hi : vfs.root.children[i]? with
      | none =>
        change readdirMapper junk vfs node (i + 2) = .ok none
        rw [readdirMapper, hdevice]
        change (match vfs.root.children[i]? with
          | none => pure none
          | some child => _) = _
        rw [hi]
        rfl
      | some child =>
        obtain ⟨hname, hread⟩ := hchild i hi
        have hlen : child.value.key.length < 128 :=
          hshort _ (List.mem_map_of_mem (List.mem_of_getElem? hi))
        obtain ⟨e, he, hcarries⟩ := makeDirent_fits junk hname hlen i
        refine ⟨e, ?_, hcarries⟩
        rw [hread, Nat.min_eq_right (by omega), he]
        rfl

def mappedNode (d : CanonicalPath) : DirFile :=
  ⟨fsDir, -1, 0, 0, 0, 0, ⟨if d.components = [] then .root else .null, readdirMapperFn⟩⟩

theorem joinPath_eq_root {cs : List (List UInt8)} (hcs : ∀ c ∈ cs, IsComponent c) :
    joinPath cs = [pathSeparator] ↔ cs = [] := by
  cases cs with
  | nil => exact iff_of_true rfl rfl
  | cons c cs =>
    refine iff_of_false (fun hroot => ?_) (List.cons_ne_nil c cs)
    rw [joinPath, if_neg (List.cons_ne_nil c cs), joined_cons, List.cons_append, List.cons.injEq,
      List.append_eq_nil_iff] at hroot
    exact (hcs c List.mem_cons_self).ne_nil hroot.2.1

theorem mapVfsDirectory_run (junk : Nat → UInt8) (hw : vfs.WellFormed) (d : CanonicalPath) {f : Nat} (hf : f ≠ 0) :
    mapVfsDirectory junk vfs d.block f = .ok
      { root := Tree.update VfsEntry.key VfsEntry.fresh (VfsEntry.mount f) d.components vfs.root
        fsRoot := if d.components = [] then f else vfs.fsRoot
        file := Function.update vfs.file f (mappedNode d) } := by
  have hw' : Mounts.WellFormed { vfs with file := Function.update vfs.file f vfsMapper } :=
    ⟨hw.names, hw.root⟩
  have hroot : CString [pathSeparator, 0] [pathSeparator] := cString_terminated (by decide)
  obtain ⟨k, hk, hzero⟩ := strcmp_eq_zero d.cString hroot
  rw [joinPath_eq_root d.isComponent] at hzero
  rw [mapVfsDirectory, vfsMount_tree junk d hf hw']
  change (strcmp d.block [pathSeparator, 0] >>= _) = _
  rw [hk]
  change Except.ok _ = _
  simp only [Function.update_self, Function.update_idem, hzero]
  rfl

theorem wellFormed_update (hw : vfs.WellFormed) (d : CanonicalPath) {f : Nat} (hf : f ≠ 0)
    (file : Nat → DirFile) : Mounts.WellFormed
      { root := Tree.update VfsEntry.key VfsEntry.fresh (VfsEntry.mount f) d.components vfs.root
        fsRoot := if d.components = [] then f else vfs.fsRoot
        file := file } := by
  have h := hw.vfsMount (vfsMount_tree (fun _ => 0) d hf hw)
  exact ⟨h.names, h.root⟩

theorem pinned_of_ne {ρ : Type} {mounts : List (CanonicalPath × Nat)} {f : Nat} (file : Nat → File ρ)
    (h : ∀ m ∈ mounts, m.2 ≠ f) : pinned mounts file f = file f := by
  induction mounts generalizing file with
  | nil => rfl
  | cons m mounts ih =>
    rw [pinned, List.foldl_cons]
    have hrest := ih (if m.2 = 0 then file else Function.update file m.2 (file m.2).pin)
      fun n hn => h n (List.mem_cons_of_mem _ hn)
    rw [pinned] at hrest
    rw [hrest]
    split
    · rfl
    · exact Function.update_of_ne (h m List.mem_cons_self).symm _ _

theorem pinned_rest {ρ : Type} (mounts : List (CanonicalPath × Nat)) (file : Nat → File ρ) (n : Nat) :
    (pinned mounts file n).rest = (file n).rest := by
  induction mounts generalizing file with
  | nil => rfl
  | cons m mounts ih =>
    rw [pinned, List.foldl_cons]
    have hrest := ih (if m.2 = 0 then file else Function.update file m.2 (file m.2).pin)
    rw [pinned] at hrest
    rw [hrest]
    split
    · rfl
    · by_cases hn : n = m.2
      · rw [hn, Function.update_self]
        rfl
      · rw [Function.update_of_ne hn]

theorem childNames_mapped (before after : List (CanonicalPath × Nat)) (d : CanonicalPath) {f : Nat}
    (hf : f ≠ 0) :
    childNames (before ++ (d, f) :: after) d.components =
      (after.filter fun m => m.2 ≠ 0).foldl
        (fun names m => addName names (nextOn d.components m.1.components))
        (addName (childNames before d.components) (nextOn d.components d.components)) := by
  rw [childNames, List.filter_append, List.foldl_append, List.filter_cons_of_pos (by simpa using hf)]
  rfl

theorem latestMount_eq_none {mounts : List (CanonicalPath × Nat)} {q : List (List UInt8)} :
    latestMount mounts q = none ↔ ∀ m ∈ mounts, m.1.components = q → m.2 = 0 := by
  simp [latestMount]

theorem mem_of_latestMount {mounts : List (CanonicalPath × Nat)} {q : List (List UInt8)} {n : Nat}
    (h : latestMount mounts q = some n) : ∃ m ∈ mounts, m.2 = n := by
  obtain ⟨m, hlast, hm⟩ := Option.map_eq_some_iff.mp h
  exact ⟨m, List.mem_of_mem_filter (List.mem_of_getLast? hlast), hm⟩

theorem listsDirectory_mapped_iff (hw : vfs.WellFormed) (d : CanonicalPath) {f : Nat} (hf : f ≠ 0)
    (hat : vfs.at? d.components = some f) (hnode : vfs.file f = mappedNode d) :
    ListsDirectory junk vfs d (Tree.names VfsEntry.key d.components vfs.root) ↔
      d.components = [] ∧ ∀ c ∈ Tree.names VfsEntry.key d.components vfs.root, c.length < 128 := by
  have hopen : ∀ cb workDirpath flags, kopen cb junk vfs workDirpath (some d.block) flags =
      .ok (.node (mappedNode d)) := by
    intro cb workDirpath flags
    rw [kopen_mount cb hw d hat hf, hnode]
    rfl
  have hread : ∀ readdir, fsReaddir junk vfs readdir (.node (mappedNode d)) =
      readdirMapper junk vfs (mappedNode d) := by
    intro readdir
    funext i
    have hdir : fsIsDir (mappedNode d) = true := by
      simp [fsIsDir, mappedNode, fsDir]
    rw [fsReaddir, if_pos ⟨hdir, Nat.one_ne_zero⟩]
    exact if_pos rfl
  have hlists : ListsDirectory junk vfs d (Tree.names VfsEntry.key d.components vfs.root) ↔
      Lists (readdirMapper junk vfs (mappedNode d))
        (pathDot :: pathUp :: Tree.names VfsEntry.key d.components vfs.root) := by
    constructor
    · intro h
      obtain ⟨node, hnode, hlists⟩ := h ⟨fun _ node _ => (node, 0), fun _ _ _ => none, fun _ _ b => (0, b)⟩
        (fun _ _ _ => .ok none) [] 0
      rw [hopen] at hnode
      cases hnode
      rw [hread] at hlists
      exact hlists
    · intro h cb readdir workDirpath flags
      exact ⟨_, hopen cb workDirpath flags, by rw [hread]; exact h⟩
  rw [hlists]
  by_cases hd : d.components = []
  · have hdevice : (mappedNode d).rest.device = .root := if_pos hd
    rw [hd, lists_root_iff hw hdevice]
    exact ⟨fun h => ⟨rfl, h⟩, fun h => h.2⟩
  · refine iff_of_false (fun h => ?_) fun h => hd h.1
    have hdevice : (mappedNode d).rest.device = .null := if_neg hd
    obtain ⟨e, he, _⟩ := h 0
    rw [readdirMapper, hdevice] at he
    cases he

theorem not_listsDirectory_driver (hw : vfs.WellFormed) (d : CanonicalPath) {n : Nat} (hn : n ≠ 0)
    (hat : vfs.at? d.components = some n) (hdriver : (vfs.file n).rest.readdirFn ≠ readdirMapperFn)
    (names : List (List UInt8)) : ¬ ListsDirectory junk vfs d names := by
  intro h
  obtain ⟨node, hopen, hlists⟩ := h ⟨fun _ node _ => (node, 0), fun _ _ _ => none, fun _ _ b => (0, b)⟩
    (fun _ _ _ => .ok none) [] 0
  rw [kopen_mount _ hw d hat hn] at hopen
  cases hopen
  have hrest : ∀ g : DirFile, (fopenNode ⟨fun _ node _ => (node, 0), fun _ _ _ => none,
      fun _ _ b => (0, b)⟩ g 0).1.rest = g.rest := by
    intro g
    simp only [fopenNode]
    split <;> split <;> rfl
  obtain ⟨e, he, _⟩ := hlists 0
  rw [← hrest] at hdriver
  rw [fsReaddir, if_neg hdriver] at he
  split at he
  · cases he
  · cases he

/-- `map_vfs_directory` and `vfs_mount` leave the children in the tree in the order in which they came,
once each. The directory lists them exactly when it is `/`, nothing is mounted over it, and every name
fits into an entry. -/
theorem listsDirectory_iff (junk : Nat → UInt8) (file : Nat → DirFile)
    (before after : List (CanonicalPath × Nat)) (d : CanonicalPath) {f : Nat} (hf : f ≠ 0)
    (hfresh : ∀ m ∈ after, m.2 ≠ f)
    (hdrivers : ∀ m ∈ after, m.2 ≠ 0 → (file m.2).rest.readdirFn ≠ readdirMapperFn) :
    ∃ vfs₀ vfs₁ vfs, mountAll junk (vfsInstall file) (mountCalls before) = .ok vfs₀ ∧
      mapVfsDirectory junk vfs₀ d.block f = .ok vfs₁ ∧
      mountAll junk vfs₁ (mountCalls after) = .ok vfs ∧
      Tree.names VfsEntry.key d.components vfs.root =
        childNames (before ++ (d, f) :: after) d.components ∧
      (childNames (before ++ (d, f) :: after) d.components).Nodup ∧
      (ListsDirectory junk vfs d (childNames (before ++ (d, f) :: after) d.components) ↔
        d.components = [] ∧ (∀ m ∈ after, m.1.components = d.components → m.2 = 0) ∧
          ∀ c ∈ childNames (before ++ (d, f) :: after) d.components, c.length < 128) := by
  have hinstall := wellFormed_vfsInstall file
  obtain ⟨vfs₀, hrun₀, hfile₀, _⟩ := mountAll_canonical junk before hinstall
  have hw₀ := hinstall.mountAll hrun₀
  have hnames₀ : Tree.names VfsEntry.key d.components vfs₀.root = childNames before d.components := by
    rw [names_mountAll hinstall hrun₀]
    cases d.components <;> rfl
  have hmapped := mapVfsDirectory_run junk hw₀ d hf
  have hw₁ := wellFormed_update hw₀ d hf (Function.update vfs₀.file f (mappedNode d))
  obtain ⟨vfs, hrun, hfile, hat⟩ := mountAll_canonical junk after hw₁
  have hw := hw₁.mountAll hrun
  have htop : vfs.at? d.components = (latestMount after d.components).or (some f) := by
    have hself := look_update_file vfs₀ d.isComponent hf d.components
    rw [if_pos rfl] at hself
    rw [hat]
    exact congrArg ((latestMount after d.components).or ·) hself
  have hnames : Tree.names VfsEntry.key d.components vfs.root =
      childNames (before ++ (d, f) :: after) d.components := by
    have hfreshKey : ∀ c ∈ d.components, (VfsEntry.fresh c).key = c := fun c hc =>
      VfsEntry.key_fresh (d.isComponent c hc).no_nul
    rw [names_mountAll hw₁ hrun, childNames_mapped before after d hf, ← hnames₀]
    congr 1
    exact Tree.names_update hfreshKey fun _ => rfl
  refine ⟨vfs₀, _, vfs, hrun₀, hmapped, hrun, hnames, foldl_addName_nodup _ _ List.nodup_nil, ?_⟩
  rw [← latestMount_eq_none]
  cases hlatest : latestMount after d.components with
  | none =>
    rw [hlatest] at htop
    have hnode : vfs.file f = mappedNode d := by
      rw [hfile, pinned_of_ne _ hfresh]
      exact Function.update_self ..
    rw [← hnames, listsDirectory_mapped_iff hw d hf htop hnode]
    exact ⟨fun h => ⟨h.1, rfl, h.2⟩, fun h => ⟨h.1, h.2.2⟩⟩
  | some n =>
    rw [hlatest] at htop
    obtain ⟨m, hm, rfl⟩ := mem_of_latestMount hlatest
    obtain ⟨hn, _⟩ := pinned_latestMount file hlatest
    have hrest : (vfs.file m.2).rest = (file m.2).rest := by
      rw [hfile, pinned_rest]
      change (Function.update vfs₀.file f (mappedNode d) m.2).rest = _
      rw [Function.update_of_ne (hfresh m hm), hfile₀, pinned_rest]
      rfl
    have hdriver : (vfs.file m.2).rest.readdirFn ≠ readdirMapperFn := by
      rw [hrest]
      exact hdrivers m hm hn
    refine iff_of_false (not_listsDirectory_driver hw d hn htop hdriver _) fun h => ?_
    cases h.2.1

def driverNode : DirFile := ⟨fsDir, 0, 0, 0, 0, 0, ⟨.other 0, 2⟩⟩

/-- The path `/`, and a path with one component of one letter. -/
def rootPath : CanonicalPath := ⟨[], by simp, [47, 0], cString_terminated (by decide)⟩

def letterPath : CanonicalPath where
  components := [[109]]
  isComponent := by
    intro c hc
    rw [List.mem_singleton.mp hc]
    constructor <;> decide
  block := [47, 109, 0]
  cString := cString_terminated (by decide)

/-- `/` with one file mounted below it. -/
theorem listsDirectory_root :
    ∃ vfs, ListsDirectory (fun _ => 0) vfs rootPath [[109]] := by
  have hfresh : ∀ m ∈ [(letterPath, 2)], m.2 ≠ 1 := by simp
  have hdriver : driverNode.rest.readdirFn ≠ readdirMapperFn := by decide
  obtain ⟨_, _, vfs, _, _, _, _, _, hiff⟩ := listsDirectory_iff (fun _ => 0) (fun _ => driverNode) []
    [(letterPath, 2)] rootPath Nat.one_ne_zero hfresh fun _ _ _ => hdriver
  refine ⟨vfs, hiff.mpr ⟨rfl, ?_, by decide⟩⟩
  intro m hm hroot
  rw [List.mem_singleton.mp hm] at hroot
  cases hroot

/-- Any other directory refers to nothing: not even `.` is returned. -/
theorem not_listsDirectory_letter :
    ∃ vfs, mapVfsDirectory (fun _ => 0) (vfsInstall fun _ => driverNode) letterPath.block 1 = .ok vfs ∧
      ¬ ListsDirectory (fun _ => 0) vfs letterPath [] := by
  have hinstall := wellFormed_vfsInstall fun _ => driverNode
  have hrun := mapVfsDirectory_run (fun _ => 0) hinstall letterPath Nat.one_ne_zero
  have hw := wellFormed_update hinstall letterPath Nat.one_ne_zero
    (Function.update (fun _ => driverNode) 1 (mappedNode letterPath))
  have hnode : Function.update (fun _ => driverNode) 1 (mappedNode letterPath) 1 =
      mappedNode letterPath := Function.update_self ..
  refine ⟨_, hrun, fun hlists => ?_⟩
  have hroot := (listsDirectory_mapped_iff hw letterPath Nat.one_ne_zero rfl hnode).mp hlists
  cases hroot.1

end Directory

end KernelTest.Vfs
