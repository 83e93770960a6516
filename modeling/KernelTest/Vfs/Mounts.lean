import KernelTest.Framework.Exec
import KernelTest.Framework.PathTree
import KernelTest.Vfs.Canonicalize

/-!
# Mounting

The tree of mount points and `vfs_mount`. The tree holds `FILE *` pointers; what they point to is
kept apart. Locks and messages are left out.
-/

namespace KernelTest.Vfs

open Libc

/-- A `FILE`. Function pointers are addresses, 0 is `NULL`; `rest` stands for the fields that the
functions below copy without looking at them. -/
structure File (ρ : Type) where
  flags : Nat
  refcount : Int
  openFn : Nat
  closeFn : Nat
  finddirFn : Nat
  readlinkFn : Nat
  rest : ρ
  deriving DecidableEq, Repr

/-- The node as a static one, which is never counted nor freed. -/
def File.pin {ρ : Type} (f : File ρ) : File ρ := { f with refcount := -1 }

/-- `struct vfs_entry`, with 0 for no file. -/
structure VfsEntry where
  name : Block
  file : Nat
  deriving DecidableEq, Repr

/-- `ent->file = local_root`. -/
def VfsEntry.mount (localRoot : Nat) (e : VfsEntry) : VfsEntry := { e with file := localRoot }

/-- The static variables, and the nodes that pointers in the tree point to. -/
structure Mounts (ρ : Type) where
  /-- `fs_tree->root` -/
  root : Tree VfsEntry
  /-- `fs_root` -/
  fsRoot : Nat
  file : Nat → File ρ

variable {ρ : Type} (junk : Nat → UInt8)

/-- `vfs_install()`: the root has the name `[root]` and no file. -/
def vfsInstall (file : Nat → File ρ) : Mounts ρ where
  root := .node ⟨[91, 114, 111, 111, 116, 93, 0], 0⟩ []
  fsRoot := 0
  file := file

/-- Every separator in the first `n` bytes becomes a terminator. -/
def chop (p : Block) (n : Nat) : Block :=
  (p.take n).map (fun c => if c = pathSeparator then 0 else c) ++ p.drop n

/-- The search for the name among the children, the new child when it is not there, and the rest
of the walk in the child. -/
def mountChild (name : Block) (below : Tree VfsEntry → Except Fault (Tree VfsEntry)) :
    List (Tree VfsEntry) → Except Fault (List (Tree VfsEntry))
  | [] => do
    let s ← copyString junk name
    let child ← below (.node ⟨s, 0⟩ [])
    pure [child]
  | child :: rest => do
    let d ← strcmp child.value.name name
    if d = 0 then do
      let child ← below child
      pure (child :: rest)
    else do
      let rest ← mountChild name below rest
      pure (child :: rest)

/-- The loop of `vfs_mount` from `node` on, with `at` at the offset `i` of the chopped path. -/
def mountBelow (p : Block) (pathLen localRoot : Nat) :
    Nat → Nat → Tree VfsEntry → Except Fault (Tree VfsEntry)
  | 0, _, _ => throw .diverged
  | k + 1, i, node =>
    if i ≥ pathLen then
      pure (.node (node.value.mount localRoot) node.children)
    else do
      let n ← strlen (p.drop i)
      let children ← mountChild junk (p.drop i)
        (mountBelow p pathLen localRoot k (i + n + 1)) node.children
      pure (.node node.value children)

/-- `vfs_mount(path, local_root)`, which returns 0 in every case. -/
def vfsMount (vfs : Mounts ρ) (path : Option Block) (localRoot : Nat) : Except Fault (Mounts ρ) :=
  match path with
  | none => pure vfs
  | some path => do
    let c ← loadByte path 0
    if localRoot = 0 ∨ c ≠ pathSeparator then
      pure vfs
    else do
      let file := Function.update vfs.file localRoot (vfs.file localRoot).pin
      let p ← copyString junk path
      let pathLen ← strlen p
      let p := chop p pathLen
      let c ← loadByte p 1
      if c = 0 then
        pure { root := .node (vfs.root.value.mount localRoot) vfs.root.children
               fsRoot := localRoot, file := file }
      else do
        let root ← mountBelow junk p pathLen localRoot (pathLen + 1) 1 vfs.root
        pure { vfs with root := root, file := file }

/-- A sequence of calls of `vfs_mount`. -/
def mountAll (vfs : Mounts ρ) : List (Option Block × Nat) → Except Fault (Mounts ρ)
  | [] => pure vfs
  | (path, localRoot) :: calls => do
    let vfs ← vfsMount junk vfs path localRoot
    mountAll vfs calls

/-! ## Chopped paths -/

def Rest (p : Block) (i : Nat) (cs : List (List UInt8)) : Prop :=
  p.drop i = (joined 0 cs ++ [0]).tail

namespace Rest

variable {p : Block} {i : Nat} {c : List UInt8} {cs : List (List UInt8)}

theorem cString (h : Rest p i (c :: cs)) (hc : 0 ∉ c) : CString (p.drop i) c := by
  refine ⟨hc, (joined 0 cs ++ [0]).tail, ?_⟩
  rw [h]
  cases cs <;> simp

theorem next (h : Rest p i (c :: cs)) : Rest p (i + c.length + 1) cs := by
  rw [Rest, Nat.add_assoc, ← List.drop_drop, h]
  cases cs <;> simp

theorem lt_length (h : Rest p i (c :: cs)) : i + c.length < p.length := by
  have hlen := congrArg List.length h
  rw [List.length_drop] at hlen
  simp at hlen
  omega

theorem length_le (h : Rest p i []) : p.length ≤ i := by
  simpa [Rest] using h

theorem length_lt (h : Rest p i cs) (hi : i ≤ p.length) : cs.length ≤ p.length - i := by
  induction cs generalizing i with
  | nil => simp
  | cons c cs ih =>
    have hlt := h.lt_length
    have hrest := ih h.next (by omega)
    rw [List.length_cons]
    omega

end Rest

private theorem map_separator {c : List UInt8} (h : pathSeparator ∉ c) :
    c.map (fun b => if b = pathSeparator then 0 else b) = c := by
  induction c with
  | nil => rfl
  | cons b c ih =>
    have hb : b ≠ pathSeparator := fun he => h (by simp [he])
    rw [List.map_cons, if_neg hb, ih fun hc => h (by simp [hc])]

private theorem map_joined {cs : List (List UInt8)} (h : ∀ c ∈ cs, pathSeparator ∉ c) :
    (joined pathSeparator cs).map (fun b => if b = pathSeparator then 0 else b) = joined 0 cs := by
  induction cs with
  | nil => rfl
  | cons c cs ih =>
    rw [joined_cons, joined_cons, List.map_append, ih fun d hd => h d (by simp [hd]),
      List.map_cons, if_pos rfl, map_separator (h c (by simp))]

theorem chop_joined {cs : List (List UInt8)} (h : ∀ c ∈ cs, pathSeparator ∉ c) :
    chop (joined pathSeparator cs ++ [0]) (joined pathSeparator cs).length =
      joined 0 cs ++ [0] := by
  rw [chop, List.take_left, List.drop_left, map_joined h]

theorem rest_chopped (cs : List (List UInt8)) : Rest (joined 0 cs ++ [0]) 1 cs :=
  List.drop_one

/-! ## The tree after a mount -/

def VfsEntry.key (e : VfsEntry) : List UInt8 := e.name.takeWhile (· ≠ 0)

def VfsEntry.fresh (c : List UInt8) : VfsEntry := ⟨c ++ [0], 0⟩

def VfsEntry.mounted (e : VfsEntry) : Option Nat := if e.file = 0 then none else some e.file

def NamesTerminated : Tree VfsEntry → Prop := Tree.All fun e => 0 ∈ e.name

theorem VfsEntry.cString_key {e : VfsEntry} (h : 0 ∈ e.name) : CString e.name e.key :=
  cString_takeWhile h

theorem VfsEntry.key_fresh {c : List UInt8} (h : 0 ∉ c) : (VfsEntry.fresh c).key = c := by
  rw [VfsEntry.key, VfsEntry.fresh, List.takeWhile_append_of_pos]
  · simp
  · intro b hb
    simpa using fun he : b = 0 => h (he ▸ hb)

section Tree

variable {junk} {name p : Block} {c : List UInt8} {cs : List (List UInt8)} {t : Tree VfsEntry}
  {ts : List (Tree VfsEntry)} {localRoot pathLen k i : Nat}

theorem strcmp_child (ht : NamesTerminated t) (hname : CString name c) :
    ∃ d, strcmp t.value.name name = .ok d ∧ (d = 0 ↔ t.value.key = c) :=
  strcmp_eq_zero (VfsEntry.cString_key ht.value) hname

theorem mountChild_eq (junk : Nat → UInt8) {below : Tree VfsEntry → Except Fault (Tree VfsEntry)}
    {g : Tree VfsEntry → Tree VfsEntry} (hname : CString name c)
    (hts : ∀ t ∈ ts, NamesTerminated t)
    (hbelow : ∀ t, NamesTerminated t → below t = .ok (g t)) :
    mountChild junk name below ts =
      .ok (Tree.updateChild VfsEntry.key VfsEntry.fresh c g ts) := by
  induction ts with
  | nil =>
    have hnew : NamesTerminated (.node (VfsEntry.fresh c) []) :=
      .node (by simp [VfsEntry.fresh]) (by simp)
    rw [mountChild, copyString_eq junk hname]
    show (below (.node (VfsEntry.fresh c) []) >>= _) = _
    rw [hbelow _ hnew]
    rfl
  | cons t ts ih =>
    obtain ⟨d, hd, hiff⟩ := strcmp_child (hts t (by simp)) hname
    rw [mountChild, hd, Tree.updateChild]
    show (if d = 0 then _ else _) = _
    by_cases hkey : t.value.key = c
    · rw [if_pos (hiff.2 hkey), if_pos hkey, hbelow t (hts t (by simp))]
      rfl
    · rw [if_neg (fun h => hkey (hiff.1 h)), if_neg hkey, ih fun u hu => hts u (by simp [hu])]
      rfl

theorem mountBelow_eq (hlen : p.length = pathLen + 1) (hrest : Rest p i cs)
    (hcs : ∀ c ∈ cs, c ≠ [] ∧ 0 ∉ c) (hk : cs.length < k) (ht : NamesTerminated t) :
    mountBelow junk p pathLen localRoot k i t =
      .ok (Tree.update VfsEntry.key VfsEntry.fresh (VfsEntry.mount localRoot) cs t) := by
  induction cs generalizing k i t with
  | nil =>
    obtain ⟨k, rfl⟩ := Nat.exists_eq_add_of_lt hk
    have hend := hrest.length_le
    rw [List.length_nil, Nat.zero_add, mountBelow, if_pos (by omega)]
    rfl
  | cons c cs ih =>
    obtain ⟨k, rfl⟩ : ∃ j, k = j + 1 := ⟨k - 1, by rw [List.length_cons] at hk; omega⟩
    obtain ⟨hne, hnul⟩ := hcs c (by simp)
    have hlt := hrest.lt_length
    have hpos := List.length_pos_of_ne_nil hne
    have hname := hrest.cString hnul
    have hchild := mountChild_eq junk hname ht.children
      fun u hu => ih hrest.next (fun d hd => hcs d (by simp [hd])) (by simpa using hk) hu
    rw [mountBelow, if_neg (by omega), strlen_eq hname]
    show (mountChild junk (p.drop i) _ t.children >>= _) = _
    rw [hchild]
    rfl

private theorem of_copyString {b p : Block} (h : copyString junk b = .ok p) :
    ∃ s, CString b s ∧ p = s ++ [0] := by
  obtain ⟨n, hn, _⟩ := Exec.of_bind_eq_ok h
  have hs := cString_of_strlen hn
  rw [copyString_eq junk hs] at h
  cases h
  exact ⟨_, hs, rfl⟩

private theorem terminated_copyString {b p : Block} (h : copyString junk b = .ok p) : 0 ∈ p := by
  obtain ⟨s, _, rfl⟩ := of_copyString h
  simp

private theorem all_mountChild {P : VfsEntry → Prop}
    {below : Tree VfsEntry → Except Fault (Tree VfsEntry)} {us : List (Tree VfsEntry)}
    (hfresh : ∀ s, 0 ∈ s → P ⟨s, 0⟩) (hts : ∀ t ∈ ts, t.All P)
    (hbelow : ∀ t u, t.All P → below t = .ok u → u.All P)
    (h : mountChild junk name below ts = .ok us) : ∀ u ∈ us, u.All P := by
  induction ts generalizing us with
  | nil =>
    obtain ⟨s, hs, h⟩ := Exec.of_bind_eq_ok h
    obtain ⟨u, hu, h⟩ := Exec.of_bind_eq_ok h
    cases h
    have hnew := hbelow _ u (.node (hfresh s (terminated_copyString hs)) (by simp)) hu
    simpa using hnew
  | cons t ts ih =>
    obtain ⟨d, _, h⟩ := Exec.of_bind_eq_ok h
    have ht := hts t (by simp)
    split at h
    · obtain ⟨u, hu, h⟩ := Exec.of_bind_eq_ok h
      cases h
      have hu' := hbelow t u ht hu
      intro v hv
      rcases List.mem_cons.1 hv with rfl | hv
      · exact hu'
      · exact hts v (by simp [hv])
    · obtain ⟨vs, hvs, h⟩ := Exec.of_bind_eq_ok h
      cases h
      intro v hv
      rcases List.mem_cons.1 hv with rfl | hv
      · exact ht
      · exact ih (fun u hu => hts u (by simp [hu])) hvs v hv

theorem all_mountBelow {P : VfsEntry → Prop} {u : Tree VfsEntry} (hfresh : ∀ s, 0 ∈ s → P ⟨s, 0⟩)
    (hmount : ∀ e, P e → P (e.mount localRoot)) (ht : t.All P)
    (h : mountBelow junk p pathLen localRoot k i t = .ok u) : u.All P := by
  induction k generalizing i t u with
  | zero => cases h
  | succ k ih =>
    rw [mountBelow] at h
    split at h
    · cases h
      exact .node (hmount _ ht.value) ht.children
    · obtain ⟨n, _, h⟩ := Exec.of_bind_eq_ok h
      obtain ⟨us, hus, h⟩ := Exec.of_bind_eq_ok h
      cases h
      exact .node ht.value (all_mountChild hfresh ht.children (fun _ _ hw hv => ih hw hv) hus)

theorem namesTerminated_mountBelow {u : Tree VfsEntry} (ht : NamesTerminated t)
    (h : mountBelow junk p pathLen localRoot k i t = .ok u) : NamesTerminated u :=
  all_mountBelow (fun _ hs => hs) (fun _ he => he) ht h

end Tree

/-! ## Runs of mounts -/

structure Mounts.WellFormed (vfs : Mounts ρ) : Prop where
  names : NamesTerminated vfs.root
  root : vfs.root.value.file = vfs.fsRoot

theorem wellFormed_vfsInstall (file : Nat → File ρ) : (vfsInstall file).WellFormed :=
  ⟨.node (by decide) (by simp), rfl⟩

section Run

variable {junk} {vfs vfs' : Mounts ρ} {path : Option Block} {localRoot : Nat}

private theorem value_mountBelow {p : Block} {pathLen k i : Nat} {t u : Tree VfsEntry}
    (hi : i < pathLen) (h : mountBelow junk p pathLen localRoot k i t = .ok u) :
    u.value = t.value := by
  cases k with
  | zero => cases h
  | succ k =>
    rw [mountBelow, if_neg (by omega)] at h
    obtain ⟨n, _, h⟩ := Exec.of_bind_eq_ok h
    obtain ⟨us, _, h⟩ := Exec.of_bind_eq_ok h
    cases h
    rfl

private theorem one_lt_length {s : List UInt8} {c : UInt8}
    (h : loadByte (chop (s ++ [0]) s.length) 1 = .ok c) (hc : c ≠ 0) : 1 < s.length := by
  rcases s with _ | ⟨a, _ | ⟨b, s⟩⟩
  · cases h
  · have h0 : c = 0 := by
      simpa [loadByte, chop] using h.symm
    exact absurd h0 hc
  · simp

theorem vfsMount_cases (h : vfsMount junk vfs path localRoot = .ok vfs') : vfs' = vfs ∨
    vfs' = { root := .node (vfs.root.value.mount localRoot) vfs.root.children
             fsRoot := localRoot
             file := Function.update vfs.file localRoot (vfs.file localRoot).pin } ∨
    ∃ p pathLen root, 1 < pathLen ∧
      mountBelow junk p pathLen localRoot (pathLen + 1) 1 vfs.root = .ok root ∧
      vfs' = { vfs with
        root := root
        file := Function.update vfs.file localRoot (vfs.file localRoot).pin } := by
  cases path with
  | none =>
    cases h
    exact .inl rfl
  | some path =>
    rw [vfsMount] at h
    obtain ⟨c, _, h⟩ := Exec.of_bind_eq_ok h
    split at h
    · cases h
      exact .inl rfl
    · obtain ⟨p, hp, h⟩ := Exec.of_bind_eq_ok h
      obtain ⟨pathLen, hlen, h⟩ := Exec.of_bind_eq_ok h
      obtain ⟨c, hc, h⟩ := Exec.of_bind_eq_ok h
      split at h
      · cases h
        exact .inr (.inl rfl)
      · next hne =>
        obtain ⟨s, hs, rfl⟩ := of_copyString hp
        rw [strlen_eq (cString_terminated hs.1)] at hlen
        cases hlen
        obtain ⟨root, hroot, h⟩ := Exec.of_bind_eq_ok h
        cases h
        exact .inr (.inr ⟨_, _, root, one_lt_length hc hne, hroot, rfl⟩)

theorem of_mountAll {P : Mounts ρ → Prop} {calls : List (Option Block × Nat)}
    (hmount : ∀ {vfs vfs' path localRoot}, P vfs → vfsMount junk vfs path localRoot = .ok vfs' → P vfs')
    (hp : P vfs) (h : mountAll junk vfs calls = .ok vfs') : P vfs' := by
  induction calls generalizing vfs with
  | nil =>
    cases h
    exact hp
  | cons call calls ih =>
    obtain ⟨vfs₁, hrun, h⟩ := Exec.of_bind_eq_ok h
    exact ih (hmount hp hrun) h

theorem Mounts.WellFormed.vfsMount (hw : vfs.WellFormed)
    (h : vfsMount junk vfs path localRoot = .ok vfs') : vfs'.WellFormed := by
  obtain rfl | rfl | ⟨p, pathLen, root, hlen, hroot, rfl⟩ := vfsMount_cases h
  · exact hw
  · exact ⟨.node hw.names.value hw.names.children, rfl⟩
  · exact ⟨namesTerminated_mountBelow hw.names hroot, by rw [value_mountBelow hlen hroot]; exact hw.root⟩

theorem Mounts.WellFormed.mountAll {calls : List (Option Block × Nat)} (hw : vfs.WellFormed)
    (h : mountAll junk vfs calls = .ok vfs') : vfs'.WellFormed :=
  of_mountAll (fun hw hrun => Mounts.WellFormed.vfsMount hw hrun) hw h

end Run

/-! ## Static nodes -/

def Mounts.Static (vfs : Mounts ρ) : Prop :=
  vfs.root.All fun e => e.file ≠ 0 → (vfs.file e.file).refcount = -1

theorem static_vfsInstall (file : Nat → File ρ) : (vfsInstall file).Static :=
  .node (fun h => absurd rfl h) (by simp)

section Static

variable {junk} {vfs vfs' : Mounts ρ} {path : Option Block} {localRoot : Nat}

theorem Mounts.Static.vfsMount (hs : vfs.Static)
    (h : vfsMount junk vfs path localRoot = .ok vfs') : vfs'.Static := by
  have hpin : vfs.root.All fun e => e.file ≠ 0 →
      (Function.update vfs.file localRoot (vfs.file localRoot).pin e.file).refcount = -1 := by
    refine Tree.All.mono hs fun e he hne => ?_
    by_cases hsame : e.file = localRoot
    · rw [hsame, Function.update_self]
      rfl
    · rw [Function.update_of_ne hsame]
      exact he hne
  have hnew : (Function.update vfs.file localRoot (vfs.file localRoot).pin localRoot).refcount = -1 := by
    rw [Function.update_self]
    rfl
  obtain rfl | rfl | ⟨p, pathLen, root, _, hroot, rfl⟩ := vfsMount_cases h
  · exact hs
  · exact .node (fun _ => hnew) hpin.children
  · exact all_mountBelow (fun _ _ hne => absurd rfl hne) (fun _ _ _ => hnew) hpin hroot

theorem Mounts.Static.mountAll {calls : List (Option Block × Nat)} (hs : vfs.Static)
    (h : mountAll junk vfs calls = .ok vfs') : vfs'.Static :=
  of_mountAll (fun hs hrun => Mounts.Static.vfsMount hs hrun) hs h

end Static

structure CanonicalPath where
  components : List (List UInt8)
  isComponent : ∀ c ∈ components, IsComponent c
  block : Block
  cString : CString block (joinPath components)

def Mounts.at? (vfs : Mounts ρ) (p : List (List UInt8)) : Option Nat :=
  Tree.look VfsEntry.key VfsEntry.mounted p vfs.root

/-- The file of the latest mount at a path. -/
def latestMount (mounts : List (CanonicalPath × Nat)) (p : List (List UInt8)) : Option Nat :=
  ((mounts.filter fun m => m.1.components = p ∧ m.2 ≠ 0).getLast?).map Prod.snd

def pinned (mounts : List (CanonicalPath × Nat)) (file : Nat → File ρ) : Nat → File ρ :=
  mounts.foldl (fun file m => if m.2 = 0 then file else Function.update file m.2 (file m.2).pin) file

/-- The calls of `vfs_mount` with canonical paths. -/
def mountCalls (mounts : List (CanonicalPath × Nat)) : List (Option Block × Nat) :=
  mounts.map fun m => (some m.1.block, m.2)

section Canonical

variable {junk} {vfs : Mounts ρ} {localRoot : Nat}

theorem Mounts.WellFormed.at?_nil (hw : vfs.WellFormed) :
    vfs.at? [] = if vfs.fsRoot = 0 then none else some vfs.fsRoot := by
  rw [Mounts.at?, Tree.look_nil, VfsEntry.mounted, hw.root]

private theorem loadByte_canonical (path : CanonicalPath) :
    loadByte path.block 0 = .ok pathSeparator := by
  obtain ⟨_, r, hr⟩ := path.cString
  have hhead := head?_joinPath path.components
  cases hj : joinPath path.components with
  | nil =>
    rw [hj] at hhead
    cases hhead
  | cons c s =>
    rw [hj] at hhead hr
    cases hhead
    rw [hr]
    rfl

private theorem loadByte_chop_root :
    loadByte (chop (joinPath [] ++ [0]) (joinPath []).length) 1 = .ok 0 := by decide

private theorem loadByte_chop {c : List UInt8} (cs : List (List UInt8)) (hne : c ≠ [])
    (hc : 0 ∉ c) :
    ∃ b, b ≠ 0 ∧ loadByte (joined 0 (c :: cs) ++ [0]) 1 = .ok b := by
  cases c with
  | nil => exact absurd rfl hne
  | cons b c => exact ⟨b, fun h => hc (by simp [h]), rfl⟩

theorem look_update_file (vfs : Mounts ρ) {cs : List (List UInt8)} (hcs : ∀ c ∈ cs, IsComponent c)
    (hf : localRoot ≠ 0) (q : List (List UInt8)) :
    Tree.look VfsEntry.key VfsEntry.mounted q
        (Tree.update VfsEntry.key VfsEntry.fresh (VfsEntry.mount localRoot) cs
          vfs.root) =
      if q = cs then some localRoot else vfs.at? q := by
  have hfresh : ∀ c ∈ cs, (VfsEntry.fresh c).key = c := fun c hc =>
    VfsEntry.key_fresh (hcs c hc).no_nul
  have hseen : ∀ e : VfsEntry,
      (e.mount localRoot).mounted = some localRoot := fun e => if_neg hf
  exact Tree.look_update (f := VfsEntry.mount localRoot) hfresh (fun _ => rfl)
    (fun _ => rfl) hseen

theorem vfsMount_null (junk : Nat → UInt8) (vfs : Mounts ρ) (path : CanonicalPath) :
    vfsMount junk vfs (some path.block) 0 = .ok vfs := by
  rw [vfsMount, loadByte_canonical]
  rfl

theorem vfsMount_tree (junk : Nat → UInt8) (path : CanonicalPath) (hf : localRoot ≠ 0)
    (hw : vfs.WellFormed) :
    vfsMount junk vfs (some path.block) localRoot = .ok
      { root := Tree.update VfsEntry.key VfsEntry.fresh (VfsEntry.mount localRoot) path.components
          vfs.root
        fsRoot := if path.components = [] then localRoot else vfs.fsRoot
        file := Function.update vfs.file localRoot (vfs.file localRoot).pin } := by
  have hcopy := cString_terminated path.cString.1
  rw [vfsMount, loadByte_canonical path]
  show (if localRoot = 0 ∨ pathSeparator ≠ pathSeparator then _ else _) = _
  rw [if_neg (by simp [hf]), copyString_eq junk path.cString]
  show (strlen (joinPath path.components ++ [0]) >>= _) = _
  rw [strlen_eq hcopy]
  show (loadByte (chop (joinPath path.components ++ [0])
    (joinPath path.components).length) 1 >>= _) = _
  cases hcs : path.components with
  | nil =>
    rw [loadByte_chop_root]
    rfl
  | cons c cs =>
    have hall : ∀ d ∈ c :: cs, IsComponent d := fun d hd => path.isComponent d (hcs ▸ hd)
    have hc := hall c (by simp)
    have hjoin : joinPath (c :: cs) = joined pathSeparator (c :: cs) := if_neg (by simp)
    have hchop : chop (joinPath (c :: cs) ++ [0]) (joinPath (c :: cs)).length =
        joined 0 (c :: cs) ++ [0] := by
      rw [hjoin, chop_joined fun d hd => (hall d hd).no_separator]
    have hlen : (joined 0 (c :: cs) ++ [0]).length = (joinPath (c :: cs)).length + 1 := by
      rw [← hchop, chop]
      simp
    have hrest := rest_chopped (c :: cs)
    have hcount := hrest.length_lt (by simp)
    obtain ⟨b, hb, hload⟩ := loadByte_chop cs hc.ne_nil hc.no_nul
    rw [hchop, hload]
    show (if b = 0 then _ else _) = _
    rw [if_neg hb, mountBelow_eq hlen hrest
      (fun d hd => ⟨(hall d hd).ne_nil, (hall d hd).no_nul⟩) (by omega) hw.names, if_neg (by simp)]
    rfl

theorem vfsMount_canonical (junk : Nat → UInt8) (path : CanonicalPath) (hf : localRoot ≠ 0)
    (hw : vfs.WellFormed) :
    ∃ vfs', vfsMount junk vfs (some path.block) localRoot = .ok vfs' ∧
      vfs'.file = Function.update vfs.file localRoot (vfs.file localRoot).pin ∧
      ∀ q, vfs'.at? q = if q = path.components then some localRoot else vfs.at? q :=
  ⟨_, vfsMount_tree junk path hf hw, rfl, look_update_file vfs path.isComponent hf⟩

theorem mountAll_canonical (junk : Nat → UInt8) (mounts : List (CanonicalPath × Nat)) (hw : vfs.WellFormed) :
    ∃ vfs', mountAll junk vfs (mountCalls mounts) = .ok vfs' ∧
      vfs'.file = pinned mounts vfs.file ∧
      ∀ q, vfs'.at? q = (latestMount mounts q).or (vfs.at? q) := by
  induction mounts generalizing vfs with
  | nil => exact ⟨vfs, rfl, rfl, fun q => rfl⟩
  | cons m mounts ih =>
    by_cases hf : m.2 = 0
    · obtain ⟨vfs', hrun, hfile, hat⟩ := ih hw
      have hmount : vfsMount junk vfs (some m.1.block) m.2 = .ok vfs := by
        rw [hf]
        exact vfsMount_null junk vfs m.1
      refine ⟨vfs', ?_, ?_, fun q => ?_⟩
      · show (vfsMount junk vfs (some m.1.block) m.2 >>= _) = _
        rw [hmount]
        exact hrun
      · rw [hfile, pinned, pinned, List.foldl_cons, if_pos hf]
      · rw [hat q]
        simp [latestMount, hf]
    · obtain ⟨vfs₁, hmount, hfile₁, hat₁⟩ := vfsMount_canonical junk m.1 hf hw
      obtain ⟨vfs', hrun, hfile, hat⟩ := ih (hw.vfsMount hmount)
      refine ⟨vfs', ?_, ?_, fun q => ?_⟩
      · show (vfsMount junk vfs (some m.1.block) m.2 >>= _) = _
        rw [hmount]
        exact hrun
      · rw [hfile, hfile₁, pinned, pinned, List.foldl_cons, if_neg hf]
      · rw [hat q, hat₁ q]
        by_cases hq : q = m.1.components
        · subst hq
          cases (mounts.filter fun n => n.1.components = m.1.components ∧ n.2 ≠ 0).getLast? <;>
            simp [latestMount, hf, List.getLast?_cons]
        · simp [latestMount, hf, hq, Ne.symm hq]

theorem pin_pin (f : File ρ) : f.pin.pin = f.pin := rfl

private theorem pinned_of_pin (mounts : List (CanonicalPath × Nat)) {file : Nat → File ρ} {n : Nat}
    {f : File ρ} (h : file n = f.pin) : pinned mounts file n = f.pin := by
  induction mounts generalizing file with
  | nil => exact h
  | cons m mounts ih =>
    rw [pinned, List.foldl_cons]
    apply ih
    by_cases hm : m.2 = 0
    · rw [if_pos hm, h]
    · rw [if_neg hm]
      by_cases hn : n = m.2
      · rw [hn, Function.update_self, ← hn, h, pin_pin]
      · rw [Function.update_of_ne hn, h]

theorem pinned_latestMount {mounts : List (CanonicalPath × Nat)} {q : List (List UInt8)} {n : Nat}
    (file : Nat → File ρ) (h : latestMount mounts q = some n) :
    n ≠ 0 ∧ pinned mounts file n = (file n).pin := by
  obtain ⟨m, hlast, rfl⟩ := Option.map_eq_some_iff.1 h
  have hmem := List.mem_of_getLast? hlast
  rw [List.mem_filter] at hmem
  obtain ⟨hmem, hm⟩ := hmem
  have hf : m.2 ≠ 0 := (of_decide_eq_true hm).2
  refine ⟨hf, ?_⟩
  clear hlast h hm
  induction mounts generalizing file with
  | nil => cases hmem
  | cons m' mounts ih =>
    rw [pinned, List.foldl_cons]
    by_cases hm : m'.2 = m.2
    · apply pinned_of_pin
      rw [hm, if_neg hf, Function.update_self]
    · have hmem' : m ∈ mounts := by
        rcases List.mem_cons.1 hmem with rfl | hmem'
        · exact absurd rfl hm
        · exact hmem'
      have hrest := ih (if m'.2 = 0 then file else Function.update file m'.2 (file m'.2).pin) hmem'
      rw [pinned] at hrest
      rw [hrest]
      split
      · rfl
      · rw [Function.update_of_ne (Ne.symm hm)]

end Canonical

end KernelTest.Vfs
