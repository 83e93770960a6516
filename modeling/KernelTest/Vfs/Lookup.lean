import KernelTest.Vfs.PathWalk

/-!
# Lookup

The reference for `kopen`: the longest prefix of the path that is mounted, and `finddir` for every
component behind it. Where no symbolic link is met `kopen` returns what the reference finds.
-/

namespace KernelTest.Vfs

open Libc

variable {ρ : Type}

/-- Apply `fs_finddir` to the components in order. -/
def finddirAll (cb : Callbacks ρ) (node : File ρ) (cs : List (List UInt8)) : Option (File ρ) :=
  cs.foldlM (fsFinddirNode cb) node

/-- No node found on the way is a symbolic link. -/
def MeetsNoSymlink (cb : Callbacks ρ) : File ρ → List (List UInt8) → Prop
  | _, [] => True
  | node, c :: rest => ∀ next, fsFinddirNode cb node c = some next →
      next.flags &&& fsSymlink = 0 ∧ MeetsNoSymlink cb next rest

/-- Two nodes agree up to the count of references. -/
def SameContents (f g : File ρ) : Prop := f.pin = g.pin

def opened (cb : Callbacks ρ) (flags : Nat) : Option (File ρ) → FilePtr ρ
  | none => .null
  | some node => .node (fopenNode cb node flags).1

variable {cb : Callbacks ρ} {junk : Nat → UInt8} {vfs : Mounts ρ}

theorem sameContents_fopenNode {node : File ρ} {flags : Nat}
    (h : ∀ fn f, SameContents (cb.openNode fn f flags).1 f) :
    SameContents (fopenNode cb node flags).1 node := by
  have hcount : SameContents
      (if node.refcount ≥ 0 then { node with refcount := node.refcount + 1 } else node) node := by
    split <;> rfl
  rw [fopenNode]
  generalize (if node.refcount ≥ 0 then { node with refcount := node.refcount + 1 } else node) =
    counted at hcount
  show SameContents (if counted.openFn = 0 then (counted, -1)
    else cb.openNode counted.openFn counted flags).1 node
  split
  · exact hcount
  · exact (h counted.openFn counted).trans hcount

theorem walk_of_meetsNoSymlink
    {reopen : List (List UInt8) → Nat → Nat → VfsM (FilePtr ρ)} {flags symlinkDepth : Nat}
    {before rest : List (List UInt8)} {node : File ρ} (hnames : ∀ c ∈ rest, 0 ∉ c)
    (h : MeetsNoSymlink cb node rest) :
    walk cb junk reopen flags symlinkDepth before (.node node) rest =
      .ok (opened cb flags (finddirAll cb node rest)) := by
  induction rest generalizing before node with
  | nil => rfl
  | cons c rest ih =>
    rw [walk, fsFinddir_node (cString_terminated (hnames c (by simp))), finddirAll, List.foldlM_cons]
    cases hnext : fsFinddirNode cb node c with
    | none => rfl
    | some next =>
      obtain ⟨hlink, hrest⟩ := h next hnext
      show ((if next.flags &&& fsSymlink ≠ 0 ∧
        ¬ (flags &&& oNofollow ≠ 0 ∧ flags &&& oPath ≠ 0 ∧ rest = []) then
          walkLink cb junk reopen flags symlinkDepth (rest = []) before next
        else (pure (.go (.node next)) : VfsM (Outcome ρ))) >>= _) = _
      rw [if_neg fun hc => hc.1 hlink]
      exact ih (fun d hd => hnames d (by simp [hd])) hrest

theorem kopen_canonical (hw : vfs.WellFormed) (path : CanonicalPath) (workDirpath : Block)
    (flags : Nat) :
    kopen cb junk vfs workDirpath (some path.block) flags =
      openPath cb junk vfs (maxSymlinkDepth + 1) path.components flags 0 := by
  have hhead := head?_joinPath path.components
  have hrelative : joinPath path.components ≠ [] →
      (joinPath path.components).head? ≠ some pathSeparator → CString workDirpath [] :=
    fun _ h => absurd hhead h
  have hopen := kopenRecur_eq cb junk hw (k := maxSymlinkDepth + 1) flags 0 path.cString hrelative
  have hstart : startComponents [] (joinPath path.components) = [] :=
    if_neg fun h => h.2 hhead
  rw [hstart, tokens_joinPath path.isComponent, foldl_pathStep_components path.isComponent,
    List.nil_append] at hopen
  exact hopen

theorem mountPoint_eq {mounts : List (CanonicalPath × Nat)}
    (hat : ∀ q, vfs.at? q = latestMount mounts q)
    (hroot : latestMount mounts [] = some vfs.fsRoot) (cs : List (List UInt8)) :
    longestPrefix (latestMount mounts) cs = some (vfs.mountPoint cs) := by
  have hseen : VfsEntry.mounted vfs.root.value = some vfs.fsRoot := by
    rw [← hroot]
    exact hat []
  have hdeepest : Tree.deepest VfsEntry.key VfsEntry.mounted cs vfs.root _ = _ :=
    Tree.deepest_eq cs vfs.root (vfs.fsRoot, cs)
  have hfun : (fun q => Tree.look VfsEntry.key VfsEntry.mounted q vfs.root) =
      latestMount mounts := funext hat
  rw [hseen, hfun] at hdeepest
  have hsome : longestPrefix (latestMount mounts) cs ≠ none := by
    rw [Ne, longestPrefix_eq_none]
    intro hnone
    rw [hnone [] List.nil_prefix] at hroot
    cases hroot
  obtain ⟨point, hpoint⟩ := Option.ne_none_iff_exists'.1 hsome
  rw [hpoint, Mounts.mountPoint]
  rw [hpoint] at hdeepest
  exact congrArg some hdeepest.symm

theorem openPath_of_meetsNoSymlink (k flags symlinkDepth : Nat) {cs rest : List (List UInt8)}
    {point : Nat} (hcs : ∀ c ∈ cs, 0 ∉ c) (hpoint : vfs.mountPoint cs = (point, rest)) (hne : point ≠ 0)
    (hnosym : MeetsNoSymlink cb (vfs.file point) rest) :
    openPath cb junk vfs (k + 1) cs flags symlinkDepth =
      .ok (opened cb flags (finddirAll cb (vfs.file point) rest)) := by
  rw [openPath]
  by_cases hnil : cs = []
  · subst hnil
    obtain ⟨rfl, rfl⟩ := Prod.mk.inj hpoint
    rw [if_pos rfl, if_neg hne]
    rfl
  · have hsuffix := mountPoint_suffix vfs cs
    rw [hpoint] at hsuffix
    rw [if_neg hnil, hpoint]
    show (if point = 0 then _ else _) = _
    rw [if_neg hne]
    exact walk_of_meetsNoSymlink (fun c hc => hcs c (hsuffix.subset hc)) hnosym

private def oneFile : Callbacks Nat where
  openNode := fun _ node _ => (node, 0)
  finddir := fun _ node name =>
    if node.rest = 0 ∧ name = [97] then some ⟨1, 0, 1, 0, 0, 0, 1⟩ else none
  readlink := fun _ _ buf => (-1, buf)

private def someNodes (p : Nat) : File Nat := ⟨2, 0, 0, 0, 1, 0, if p = 2 then 0 else 5⟩

private theorem isComponent_letter {c : List UInt8} (h : c = [97] ∨ c = [109]) :
    IsComponent c := by
  rcases h with rfl | rfl <;> constructor <;> decide

end KernelTest.Vfs
