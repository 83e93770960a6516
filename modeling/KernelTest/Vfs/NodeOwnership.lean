import KernelTest.Framework.Exec
import KernelTest.Vfs.Kopen

/-!
# Who owns the nodes of a lookup

`kopen` and `fclose` on `FILE` structures with addresses: which of them lookup allocates, which are freed,
and whose callback `close` is called. A count of references of -1 stands for a static node, and the copy of
a mounted node has it, too.
-/

namespace KernelTest.Vfs

open Libc

/-- Where a `FILE` is: one that was there before, or the `n`-th one that lookup allocates. -/
inductive NodeAddr
  | fixed (a : Nat)
  | made (n : Nat)
  deriving DecidableEq, Repr

/-- A `FILE *`, with `(FILE*)-k` for `err k`. -/
inductive NodePtr
  | null
  | err (k : Nat)
  | node (p : NodeAddr)
  deriving DecidableEq, Repr

/-- What `finddir` returns. -/
inductive FoundNode (ρ : Type)
  | none
  /-- A node that is allocated for the caller. -/
  | fresh (f : File ρ)
  /-- An entry of a table of the driver. -/
  | entry (a : Nat)

/-- The callbacks by their addresses, on a state `ω` of the file systems. They leave the counts of
references alone. -/
structure Drivers (ρ ω : Type) where
  /-- `open(node, flags)`: the other fields afterwards, and the result. -/
  openNode : Nat → File ρ → Nat → ω → (ρ × Int) × ω
  /-- `close(node)` -/
  closeNode : Nat → File ρ → ω → ω
  /-- `finddir(node, name)` -/
  finddir : Nat → File ρ → List UInt8 → ω → FoundNode ρ × ω
  /-- `readlink(node, buf, MAX_SYMLINK_SIZE)`: the result, and the buffer afterwards. -/
  readlink : Nat → File ρ → Buf → ω → (Int × Buf) × ω

structure NodeStore (ρ ω : Type) where
  file : NodeAddr → Option (File ρ)
  /-- How many nodes lookup has allocated. -/
  count : Nat
  /-- The entries of tables of drivers that were looked up. -/
  entries : List Nat
  /-- The calls of `free`. -/
  freed : List NodeAddr
  /-- The calls of callbacks `close`. -/
  closed : List NodeAddr
  world : ω

abbrev NodeM (ρ ω : Type) := Exec VfsFault (NodeStore ρ ω)

namespace NodeStore

variable {ρ ω : Type} (D : Drivers ρ ω) (junk : Nat → UInt8) (vfs : Mounts ρ)

def start (world : ω) : NodeStore ρ ω where
  file
    | .fixed a => some (vfs.file a)
    | .made _ => none
  count := 0
  entries := []
  freed := []
  closed := []
  world := world

def put (p : NodeAddr) (f : File ρ) (s : NodeStore ρ ω) : NodeStore ρ ω :=
  { s with file := Function.update s.file p (some f) }

def push (f : File ρ) (s : NodeStore ρ ω) : NodeStore ρ ω :=
  { s.put (.made s.count) f with count := s.count + 1 }

/-- `*node` -/
def read (p : NodeAddr) : NodeM ρ ω (File ρ) := do
  match (← get).file p with
  | some f => pure f
  | none => throw .wildPointer

/-- `malloc(sizeof(FILE))` and what is copied there. -/
def allocNode (f : File ρ) : NodeM ρ ω NodeAddr := do
  let s ← get
  set (s.push f)
  pure (.made s.count)

def callback {α : Type} (f : ω → α × ω) : NodeM ρ ω α := fun s =>
  .ok ((f s.world).1, { s with world := (f s.world).2 })

/-- `fopen(node, flags)` -/
def fopen (node : NodePtr) (flags : Nat) : NodeM ρ ω Int :=
  match node with
  | .null => pure (-1)
  | .err _ => throw .wildPointer
  | .node p => do
    let f ← read p
    let f := if f.refcount ≥ 0 then { f with refcount := f.refcount + 1 } else f
    modify (put p f)
    if f.openFn = 0 then pure (-1)
    else do
      let (rest, result) ← callback (D.openNode f.openFn f flags)
      modify (put p { f with rest := rest })
      pure result

/-- `if(node->close) node->close(node); free(node);` -/
def release (p : NodeAddr) (f : File ρ) (s : NodeStore ρ ω) : NodeStore ρ ω :=
  if f.closeFn ≠ 0 then
    { s with
      closed := p :: s.closed
      freed := p :: s.freed
      world := D.closeNode f.closeFn f s.world }
  else { s with freed := p :: s.freed }

/-- `fclose(node)` -/
def fclose (node : NodePtr) : NodeM ρ ω Int :=
  match node with
  | .null => pure (-1)
  | .err _ => throw .wildPointer
  | .node p => do
    let f ← read p
    if f.refcount = -1 then pure (-1)
    else do
      let f := { f with refcount := f.refcount - 1 }
      modify fun s => if f.refcount = 0 then (s.put p f).release D p f else s.put p f
      pure 0

/-- `fs_finddir(node, name)` -/
def fsFinddir (node : NodePtr) (name : Block) : NodeM ρ ω NodePtr :=
  match node with
  | .null => pure .null
  | .err _ => throw .wildPointer
  | .node p => do
    let f ← read p
    if fsIsDir f ∧ f.finddirFn ≠ 0 then do
      let n ← Exec.lift (liftString (strlen name))
      match ← callback (D.finddir f.finddirFn f (name.take n)) with
      | .none => pure .null
      | .fresh f => do
        let p ← allocNode f
        pure (.node p)
      | .entry a => do
        modify fun s => { s with entries := a :: s.entries }
        pure (.node (.fixed a))
    else pure .null

/-- The walk of `get_mount_point(path, path_depth, &outpath, &outdepth)`. -/
def walkMounts (path : Block) (pathDepth outpath : Nat) : Except Fault MountPoint := do
  let stop ← skipStrings path (pathDepth + 1) 0
  mountWalk path stop (stop + 1) vfs.root outpath 1 ⟨vfs.fsRoot, outpath, 0⟩

/-- `get_mount_point(path, path_depth, &outpath, &outdepth)` -/
def getMountPoint (path : Block) (pathDepth outpath : Nat) : NodeM ρ ω (NodePtr × Nat × Nat) := do
  let found ← Exec.lift (liftString (walkMounts vfs path pathDepth outpath))
  if found.last = 0 then pure (.null, found.outpath, found.outdepth)
  else do
    let f ← read (.fixed found.last)
    let clone ← allocNode f
    pure (.node clone, found.outpath, found.outdepth)

/-- The recursive call of `kopen_recur`. -/
abbrev Reopen (ρ ω : Type) := Block → Nat → Nat → Block → NodeM ρ ω NodePtr

inductive Outcome
  /-- `return p` -/
  | done (p : NodePtr)
  /-- `node_ptr = p` -/
  | go (p : NodePtr)

/-- `fclose(node_ptr); return (FILE*)-k;` -/
def giveUp (node : NodeAddr) (k : Nat) : NodeM ρ ω Outcome := do
  let _ ← fclose D (.node node)
  pure (.done (.err k))

/-- The part of the loop that follows the symbolic link `node`. -/
def followLink (reopen : Reopen ρ ω) (path : Block) (pathLen flags symlinkDepth depth : Nat)
    (leaf : Prop) [Decidable leaf] (node : NodeAddr) : NodeM ρ ω Outcome :=
  if flags &&& oNofollow ≠ 0 ∧ leaf then giveUp D node 1
  else if symlinkDepth ≥ maxSymlinkDepth then giveUp D node 2
  else do
    let f ← read node
    if f.readlinkFn = 0 then throw .nullPointer
    else do
      let (len, buf) ← callback (D.readlink f.readlinkFn f junk)
      if len < 0 then giveUp D node 3
      else do
        let symlinkBuf := malloc buf maxSymlinkSize
        let c ← Exec.lift (liftString (loadByte symlinkBuf len.toNat))
        if c ≠ 0 then giveUp D node 4
        else do
          let relpath ← Exec.lift (liftString (relativePath junk path pathLen depth))
          let target ← reopen symlinkBuf 0 (symlinkDepth + 1) relpath
          let _ ← fclose D (.node node)
          pure (if target = .null then .done (.err 5) else .go target)

/-- The loop `for(; depth < path_depth; ++depth)`, with `k` steps to go. -/
def searchFrom (reopen : Reopen ρ ω) (path : Block) (pathLen flags symlinkDepth pathDepth : Nat) :
    Nat → Nat → NodePtr → Nat → NodeM ρ ω NodePtr
  | 0, _, _, _ => pure .null
  | k + 1, depth, node, pathOffset => do
    let next ← fsFinddir D node (path.drop pathOffset)
    let _ ← fclose D node
    match next with
    | .null => pure .null
    | .err _ => throw .wildPointer
    | .node p => do
      let f ← read p
      let outcome ←
        (if f.flags &&& fsSymlink ≠ 0 ∧
            ¬ (flags &&& oNofollow ≠ 0 ∧ flags &&& oPath ≠ 0 ∧ depth = pathDepth - 1) then
          followLink D junk reopen path pathLen flags symlinkDepth depth (depth = pathDepth - 1) p
        else pure (.go (.node p)))
      match outcome with
      | .done p => pure p
      | .go node =>
        if depth = pathDepth - 1 then do
          let _ ← fopen D node flags
          pure node
        else do
          let n ← Exec.lift (liftString (strlen (path.drop pathOffset)))
          searchFrom reopen path pathLen flags symlinkDepth pathDepth k (depth + 1) node
            (pathOffset + n + 1)

/-- `kopen_recur(filename, flags, symlink_depth, relative_to)` after the path is canonical, with what the
recursive calls do. -/
def kopenPath (reopen : Reopen ρ ω) (flags symlinkDepth : Nat) (path : Block) (pathLen : Nat) :
    NodeM ρ ω NodePtr :=
  if pathLen = 1 then
    if vfs.fsRoot = 0 then throw .nullPointer
    else do
      let f ← read (.fixed vfs.fsRoot)
      let root ← allocNode f
      let _ ← fopen D (.node root) flags
      pure (.node root)
  else do
    let pathDepth := (path.take pathLen).count pathSeparator
    let path := chop path pathLen
    let (node, pathOffset, depth) ← getMountPoint vfs path pathDepth 1
    if node = .null then pure .null
    else if pathOffset ≥ pathLen then do
      let _ ← fopen D node flags
      pure node
    else
      searchFrom D junk reopen path pathLen flags symlinkDepth pathDepth (pathDepth - depth) depth node
        pathOffset

/-- The canonical path of a file and its length. -/
def canonical (relativeTo filename : Block) : VfsM (Block × Nat) := do
  let path ← liftString (canonicalizePath junk relativeTo filename)
  let pathLen ← liftString (strlen path)
  pure (path, pathLen)

/-- `kopen_recur(filename, flags, symlink_depth, relative_to)`, with a bound on the nested calls. -/
def kopenRecur : Nat → Block → Nat → Nat → Block → NodeM ρ ω NodePtr
  | 0, _, _, _, _ => throw .endless
  | k + 1, filename, flags, symlinkDepth, relativeTo => do
    let (path, pathLen) ← Exec.lift (canonical junk relativeTo filename)
    kopenPath D junk vfs (kopenRecur k) flags symlinkDepth path pathLen

/-- `kopen(filename, flags)` with the working directory of the task. -/
def kopen (workDirpath filename : Block) (flags : Nat) : NodeM ρ ω NodePtr :=
  kopenRecur D junk vfs (maxSymlinkDepth + 1) filename flags 0 workDirpath

/-- Nodes that are not made yet are not there, and the nodes of `S` are static and have not been freed. -/
structure Inv (S : NodeAddr → Prop) (s : NodeStore ρ ω) : Prop where
  unmade : ∀ n, s.count ≤ n → s.file (.made n) = none ∧ .made n ∉ s.freed
  pinned : ∀ p, S p → p ∉ s.freed ∧ ∃ f, s.file p = some f ∧ f.refcount = -1

section Inv

variable {D junk vfs} {S : NodeAddr → Prop} {s : NodeStore ρ ω} {p : NodeAddr} {f f' : File ρ}

theorem Inv.put (h : s.Inv S) (hp : s.file p = some f)
    (hpin : f.refcount = -1 → f'.refcount = -1) : (s.put p f').Inv S := by
  constructor
  case unmade =>
    intro n hn
    obtain ⟨hnone, hfreed⟩ := h.unmade n hn
    have hne : NodeAddr.made n ≠ p := by
      rintro rfl
      rw [hnone] at hp
      cases hp
    exact ⟨(Function.update_of_ne hne ..).trans hnone, hfreed⟩
  case pinned =>
    intro q hq
    obtain ⟨hfreed, g, hg, hcount⟩ := h.pinned q hq
    by_cases hqp : q = p
    · subst hqp
      rw [hg] at hp
      cases hp
      exact ⟨hfreed, f', Function.update_self .., hpin hcount⟩
    · exact ⟨hfreed, g, (Function.update_of_ne hqp ..).trans hg, hcount⟩

theorem Inv.other (h : s.Inv S) {entries : List Nat} {closed : List NodeAddr} {world : ω} :
    Inv S { s with entries := entries, closed := closed, world := world } :=
  ⟨h.unmade, h.pinned⟩

theorem Inv.release (h : s.Inv S) (hp : s.file p = some f) (hcount : f.refcount ≠ -1) :
    (s.release D p f).Inv S := by
  have hfile : (s.release D p f).file = s.file ∧ (s.release D p f).count = s.count ∧
      (s.release D p f).freed = p :: s.freed := by
    rw [NodeStore.release]
    split <;> exact ⟨rfl, rfl, rfl⟩
  obtain ⟨hfile, hsame, hcons⟩ := hfile
  constructor
  case unmade =>
    intro n hn
    rw [hsame] at hn
    rw [hfile, hcons]
    obtain ⟨hnone, hfreed⟩ := h.unmade n hn
    refine ⟨hnone, fun hmem => ?_⟩
    rcases List.mem_cons.mp hmem with rfl | hmem
    · rw [hnone] at hp
      cases hp
    · exact hfreed hmem
  case pinned =>
    intro q hq
    rw [hfile, hcons]
    obtain ⟨hfreed, g, hg, hpin⟩ := h.pinned q hq
    refine ⟨fun hmem => ?_, g, hg, hpin⟩
    rcases List.mem_cons.mp hmem with rfl | hmem
    · rw [hg] at hp
      cases hp
      exact hcount hpin
    · exact hfreed hmem

theorem Inv.push (h : s.Inv S) : (s.push f).Inv S := by
  constructor
  case unmade =>
    intro n hn
    change s.count + 1 ≤ n at hn
    obtain ⟨hnone, hfreed⟩ := h.unmade n (by omega)
    have hne : NodeAddr.made n ≠ .made s.count := by
      intro heq
      cases heq
      omega
    exact ⟨(Function.update_of_ne hne ..).trans hnone, hfreed⟩
  case pinned =>
    intro q hq
    obtain ⟨hfreed, g, hg, hpin⟩ := h.pinned q hq
    have hne : q ≠ .made s.count := by
      rintro rfl
      rw [(h.unmade s.count (Nat.le_refl _)).1] at hg
      cases hg
    exact ⟨hfreed, g, (Function.update_of_ne hne ..).trans hg, hpin⟩

theorem Inv.push_pinned (h : s.Inv S) (hf : f.refcount = -1) :
    (s.push f).Inv fun p => S p ∨ p = .made s.count := by
  refine ⟨h.push.unmade, fun p hp => ?_⟩
  rcases hp with hp | rfl
  · exact h.push.pinned p hp
  · exact ⟨(h.unmade s.count (Nat.le_refl _)).2, f, Function.update_self .., hf⟩

theorem Inv.mono {T : NodeAddr → Prop} (h : s.Inv T) (hT : ∀ p, S p → T p) : s.Inv S :=
  ⟨h.unmade, fun p hp => h.pinned p (hT p hp)⟩

theorem read_ok (hp : s.file p = some f) : read p s = .ok (f, s) := by
  rw [read, Exec.get_bind, hp]
  rfl

theorem of_read_bind {α : Type} {k : File ρ → NodeM ρ ω α} {r : α × NodeStore ρ ω}
    (h : (read p >>= k) s = .ok r) : ∃ f, s.file p = some f ∧ k f s = .ok r := by
  cases hp : s.file p with
  | none =>
    have hread : (read p : NodeM ρ ω (File ρ)) s = .error .wildPointer := by
      rw [read, Exec.get_bind, hp]
      rfl
    rw [Exec.bind_error hread] at h
    cases h
  | some f =>
    rw [Exec.bind_ok (read_ok hp)] at h
    exact ⟨f, rfl, h⟩

theorem keeps_read : Exec.Keeps (Inv S) (read p : NodeM ρ ω (File ρ)) := by
  intro s f t h hrun
  cases hp : s.file p with
  | none =>
    rw [read, Exec.get_bind, hp] at hrun
    cases hrun
  | some g =>
    rw [read_ok hp] at hrun
    cases hrun
    exact h

theorem keeps_allocNode : Exec.Keeps (Inv S) (allocNode f : NodeM ρ ω NodeAddr) := by
  intro s p t h hrun
  cases hrun
  exact h.push

theorem keeps_fopen {node : NodePtr} {flags : Nat} :
    Exec.Keeps (Inv S) (fopen D node flags : NodeM ρ ω Int) := by
  cases node with
  | null => exact Exec.keeps_pure
  | err k => exact Exec.keeps_throw
  | node p =>
    intro s result t h hrun
    rw [fopen] at hrun
    obtain ⟨f, hp, hrun⟩ := of_read_bind hrun
    let g : File ρ := if f.refcount ≥ 0 then { f with refcount := f.refcount + 1 } else f
    have hpin : f.refcount = -1 → g.refcount = -1 := by
      intro hf
      rw [show g = f from if_neg (by omega)]
      exact hf
    have hput : (s.put p g).Inv S := h.put hp hpin
    change (if g.openFn = 0 then pure (-1) else do
      let (rest, result) ← callback (D.openNode g.openFn g flags)
      modify (put p { g with rest := rest })
      pure result : NodeM ρ ω Int) (s.put p g) = .ok (result, t) at hrun
    split at hrun
    · cases hrun
      exact hput
    · cases hrun
      apply Inv.put (f := g) hput.other (Function.update_self ..)
      exact fun hcount => hcount

theorem keeps_fclose {node : NodePtr} : Exec.Keeps (Inv S) (fclose D node : NodeM ρ ω Int) := by
  cases node with
  | null => exact Exec.keeps_pure
  | err k => exact Exec.keeps_throw
  | node p =>
    intro s result t h hrun
    rw [fclose] at hrun
    obtain ⟨f, hp, hrun⟩ := of_read_bind hrun
    by_cases hpin : f.refcount = -1
    · rw [if_pos hpin] at hrun
      cases hrun
      exact h
    · rw [if_neg hpin] at hrun
      let g : File ρ := { f with refcount := f.refcount - 1 }
      have hput : (s.put p g).Inv S := h.put hp fun hf => absurd hf hpin
      cases hrun
      change Inv S (if g.refcount = 0 then (s.put p g).release D p g else s.put p g)
      split
      · next hzero => exact hput.release (Function.update_self ..) (by omega)
      · exact hput

theorem keeps_callback {α : Type} {g : ω → α × ω} :
    Exec.Keeps (Inv S) (callback g : NodeM ρ ω α) := by
  intro s a t h hrun
  cases hrun
  exact h.other

theorem keeps_fsFinddir {node : NodePtr} {name : Block} :
    Exec.Keeps (Inv S) (fsFinddir D node name : NodeM ρ ω NodePtr) := by
  cases node with
  | null => exact Exec.keeps_pure
  | err k => exact Exec.keeps_throw
  | node p =>
    apply keeps_read.bind
    intro f
    split
    · refine Exec.Keeps.bind Exec.keeps_lift fun n => ?_
      apply keeps_callback.bind
      intro found
      cases found with
      | none => exact Exec.keeps_pure
      | fresh f => exact keeps_allocNode.bind fun _ => Exec.keeps_pure
      | entry a =>
        apply Exec.Keeps.bind
        · exact Exec.keeps_modify fun _ h => h.other
        · exact fun _ => Exec.keeps_pure
    · exact Exec.keeps_pure

theorem keeps_giveUp {k : Nat} : Exec.Keeps (Inv S) (giveUp D p k : NodeM ρ ω Outcome) :=
  keeps_fclose.bind fun _ => Exec.keeps_pure

section Search

variable {reopen : Reopen ρ ω} {path : Block} {pathLen flags symlinkDepth pathDepth : Nat}

theorem keeps_followLink (hreopen : ∀ b n d r, Exec.Keeps (Inv S) (reopen b n d r)) {depth : Nat}
    {leaf : Prop} [Decidable leaf] : Exec.Keeps (Inv S)
      (followLink D junk reopen path pathLen flags symlinkDepth depth leaf p) := by
  rw [followLink]
  split
  · exact keeps_giveUp
  · split
    · exact keeps_giveUp
    · apply keeps_read.bind
      intro f
      split
      · exact Exec.keeps_throw
      · apply keeps_callback.bind
        intro result
        dsimp only
        split
        · exact keeps_giveUp
        · refine Exec.Keeps.bind Exec.keeps_lift fun c => ?_
          split
          · exact keeps_giveUp
          · refine Exec.Keeps.bind Exec.keeps_lift fun relpath => ?_
            refine Exec.Keeps.bind (hreopen _ _ _ _) fun target => ?_
            exact keeps_fclose.bind fun _ => Exec.keeps_pure

theorem keeps_searchFrom (hreopen : ∀ b n d r, Exec.Keeps (Inv S) (reopen b n d r)) {k depth : Nat}
    {node : NodePtr} {pathOffset : Nat} : Exec.Keeps (Inv S)
      (searchFrom D junk reopen path pathLen flags symlinkDepth pathDepth k depth node pathOffset) := by
  induction k generalizing depth node pathOffset with
  | zero => exact Exec.keeps_pure
  | succ k ih =>
    rw [searchFrom]
    apply keeps_fsFinddir.bind
    intro next
    apply keeps_fclose.bind
    intro _
    cases next with
    | null => exact Exec.keeps_pure
    | err k => exact Exec.keeps_throw
    | node p =>
      apply keeps_read.bind
      intro f
      apply Exec.Keeps.bind
      · split
        · exact keeps_followLink hreopen
        · exact Exec.keeps_pure
      · intro outcome
        cases outcome with
        | done p => exact Exec.keeps_pure
        | go node =>
          dsimp only
          split
          · exact keeps_fopen.bind fun _ => Exec.keeps_pure
          · exact Exec.Keeps.bind Exec.keeps_lift fun n => ih

theorem keeps_getMountPoint {outpath : Nat} : Exec.Keeps (Inv S)
    (getMountPoint vfs path pathDepth outpath : NodeM ρ ω (NodePtr × Nat × Nat)) := by
  refine Exec.Keeps.bind Exec.keeps_lift fun found => ?_
  split
  · exact Exec.keeps_pure
  · exact keeps_read.bind fun f => keeps_allocNode.bind fun _ => Exec.keeps_pure

theorem keeps_kopenPath (hreopen : ∀ b n d r, Exec.Keeps (Inv S) (reopen b n d r)) :
    Exec.Keeps (Inv S) (kopenPath D junk vfs reopen flags symlinkDepth path pathLen) := by
  rw [kopenPath]
  split
  · split
    · exact Exec.keeps_throw
    · apply keeps_read.bind
      intro f
      apply keeps_allocNode.bind
      intro root
      exact keeps_fopen.bind fun _ => Exec.keeps_pure
  · apply keeps_getMountPoint.bind
    intro point
    dsimp only
    split
    · exact Exec.keeps_pure
    · split
      · exact keeps_fopen.bind fun _ => Exec.keeps_pure
      · exact keeps_searchFrom hreopen

end Search

theorem keeps_kopenRecur {k : Nat} {b r : Block} {flags symlinkDepth : Nat} :
    Exec.Keeps (Inv S) (kopenRecur D junk vfs k b flags symlinkDepth r) := by
  induction k generalizing b r flags symlinkDepth with
  | zero => exact Exec.keeps_throw
  | succ k ih => exact Exec.Keeps.bind Exec.keeps_lift fun _ => keeps_kopenPath fun _ _ _ _ => ih

end Inv

end NodeStore

end KernelTest.Vfs
