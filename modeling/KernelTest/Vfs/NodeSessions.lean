import KernelTest.Vfs.NodeOwnership

/-!
# Opening and closing files

Runs of `kopen` and `fclose`, and whether the nodes that lookup allocates are freed when every file is
closed again. A lookup that meets a mounted file copies a static node, and the copy is never freed.
-/

namespace KernelTest.Vfs

open Libc

variable {ρ ω : Type} (D : Drivers ρ ω) (junk : Nat → UInt8) (vfs : Mounts ρ)

def Mounts.Mounted (a : Nat) : Prop := a ≠ 0 ∧ ∃ e, vfs.root.Mem e ∧ e.file = a

/-- The file that a lookup copies first: `fs_root` for the path `/`, and else the last one that is mounted
on the way. -/
def Mounts.firstNode (workDirpath filename : Block) : VfsM Nat := do
  let (path, pathLen) ← NodeStore.canonical junk workDirpath filename
  if pathLen = 1 then pure vfs.fsRoot
  else do
    let found ← liftString (NodeStore.walkMounts vfs (chop path pathLen)
      ((path.take pathLen).count pathSeparator) 1)
    pure found.last

def Mounts.Meets (workDirpath filename : Block) : Prop :=
  ∃ a, a ≠ 0 ∧ vfs.firstNode junk workDirpath filename = .ok a

inductive NodeCall
  | kopen (workDirpath filename : Block) (flags : Nat)
  | fclose (p : NodeAddr)

/-- The nodes, the files that are open, and those opened so far whose callback `close` has to be called: the
files that are no static nodes and have one. -/
structure NodeSession (ρ ω : Type) where
  store : NodeStore ρ ω
  opened : List NodeAddr
  counted : List NodeAddr

namespace NodeSession

/-- The file has a callback `close` and is no static node. -/
def Counts (s : NodeStore ρ ω) (p : NodeAddr) : Prop :=
  ∃ f, s.file p = some f ∧ f.refcount ≠ -1 ∧ f.closeFn ≠ 0

/-- One call: a file is opened, or `kopen` returns none, or an open file is closed. -/
inductive Step (s : NodeSession ρ ω) : NodeCall → NodeSession ρ ω → Prop
  | counted {w b : Block} {flags : Nat} {p : NodeAddr} {t : NodeStore ρ ω}
    (hrun : NodeStore.kopen D junk vfs w b flags s.store = .ok (.node p, t)) (hp : Counts t p) :
    Step s (.kopen w b flags) ⟨t, p :: s.opened, p :: s.counted⟩
  | opened {w b : Block} {flags : Nat} {p : NodeAddr} {t : NodeStore ρ ω}
    (hrun : NodeStore.kopen D junk vfs w b flags s.store = .ok (.node p, t)) (hp : ¬ Counts t p) :
    Step s (.kopen w b flags) ⟨t, p :: s.opened, s.counted⟩
  | failed {w b : Block} {flags : Nat} {r : NodePtr} {t : NodeStore ρ ω}
    (hrun : NodeStore.kopen D junk vfs w b flags s.store = .ok (r, t)) (hr : ∀ p, r ≠ .node p) :
    Step s (.kopen w b flags) { s with store := t }
  | closed {p : NodeAddr} {result : Int} {t : NodeStore ρ ω} (hp : p ∈ s.opened)
    (hrun : NodeStore.fclose D (.node p) s.store = .ok (result, t)) :
    Step s (.fclose p) { s with store := t, opened := s.opened.erase p }

inductive Run (world : ω) : List NodeCall → NodeSession ρ ω → Prop
  | start : Run world [] ⟨.start vfs world, [], []⟩
  | call {calls : List NodeCall} {call : NodeCall} {s s' : NodeSession ρ ω} :
    Run world calls s → Step D junk vfs s call s' → Run world (calls ++ [call]) s'

/-- Callbacks `close` are called once for each time a file is opened, what lookup allocates is freed once,
and no node that is mounted or in a table of a driver is freed. -/
structure Owned (s : NodeSession ρ ω) : Prop where
  closes : ∀ p ∈ s.counted, s.store.closed.count p = s.counted.count p
  freed : ∀ n < s.store.count, s.store.freed.count (.made n) = 1
  kept : ∀ a, vfs.Mounted a ∨ a ∈ s.store.entries → .fixed a ∉ s.store.freed

end NodeSession

namespace NodeStore

section Kopen

variable {D junk vfs} {s t : NodeStore ρ ω} {path w b : Block} {pathDepth flags : Nat} {r : NodePtr}

private theorem of_liftString {β : Type} {x : Except Fault β} {a : β} (h : liftString x = .ok a) :
    x = .ok a := by
  cases x with
  | error e => cases h
  | ok a =>
    cases h
    rfl

theorem findChild_mem {name : Block} {ts : List (Tree VfsEntry)} {child : Tree VfsEntry}
    (h : findChild name ts = .ok (some child)) : child ∈ ts := by
  induction ts with
  | nil => cases h
  | cons t ts ih =>
    rw [findChild] at h
    obtain ⟨d, -, h⟩ := Exec.of_bind_eq_ok h
    split at h
    · cases h
      exact List.mem_cons_self
    · exact List.mem_cons_of_mem _ (ih h)

theorem mountWalk_last {P : Nat → Prop} {stop k i depth : Nat} {node : Tree VfsEntry}
    {found found' : MountPoint} (hnode : node.All fun e => e.file ≠ 0 → P e.file)
    (hfound : found.last ≠ 0 → P found.last)
    (hrun : mountWalk path stop k node i depth found = .ok found') :
    found'.last ≠ 0 → P found'.last := by
  induction k generalizing node i depth found with
  | zero => cases hrun
  | succ k ih =>
    rw [mountWalk] at hrun
    split at hrun
    · cases hrun
      exact hfound
    · obtain ⟨child, hchild, hrun⟩ := Exec.of_bind_eq_ok hrun
      cases child with
      | none =>
        cases hrun
        exact hfound
      | some child =>
        obtain ⟨n, -, hrun⟩ := Exec.of_bind_eq_ok hrun
        have hbelow := hnode.children child (findChild_mem hchild)
        apply ih hbelow ?_ hrun
        split
        · exact hfound
        · exact hbelow.value

theorem firstNode_mounted {a : Nat} (hw : vfs.WellFormed) (h : vfs.firstNode junk w b = .ok a)
    (ha : a ≠ 0) : vfs.Mounted a := by
  have htree : vfs.root.All fun e => e.file ≠ 0 → vfs.Mounted e.file := by
    apply Tree.all_of_mem
    exact fun e he hne => ⟨hne, e, he, rfl⟩
  have hroot : vfs.fsRoot ≠ 0 → vfs.Mounted vfs.fsRoot := by
    rw [← hw.root]
    exact htree.value
  rw [Mounts.firstNode] at h
  obtain ⟨⟨path, pathLen⟩, -, h⟩ := Exec.of_bind_eq_ok h
  dsimp only at h
  split at h
  · cases h
    exact hroot ha
  · obtain ⟨found, hwalk, h⟩ := Exec.of_bind_eq_ok h
    cases h
    obtain ⟨stop, -, hwalk⟩ := Exec.of_bind_eq_ok (of_liftString hwalk)
    exact mountWalk_last (P := vfs.Mounted) htree hroot hwalk ha

theorem getMountPoint_cases {outpath pathOffset depth : Nat} {node : NodePtr}
    (h : getMountPoint vfs path pathDepth outpath s = .ok ((node, pathOffset, depth), t)) :
    ∃ found, walkMounts vfs path pathDepth outpath = .ok found ∧
      (found.last = 0 ∧ node = .null ∧ t = s ∨
        found.last ≠ 0 ∧ node ≠ .null ∧ ∃ f, s.file (.fixed found.last) = some f ∧ t = s.push f) := by
  rw [getMountPoint] at h
  obtain ⟨found, hwalk, h⟩ := Exec.of_lift_bind_ok h
  refine ⟨found, of_liftString hwalk, ?_⟩
  split at h
  · next hzero =>
    cases h
    exact .inl ⟨hzero, rfl, rfl⟩
  · next hne =>
    obtain ⟨f, hf, h⟩ := of_read_bind h
    cases h
    exact .inr ⟨hne, NodePtr.noConfusion, f, hf, rfl⟩

theorem kopen_cases (h : kopen D junk vfs w b flags s = .ok (r, t)) :
    ∃ a, vfs.firstNode junk w b = .ok a ∧
      (a = 0 ∧ r = .null ∧ t = s ∨
        a ≠ 0 ∧ ∃ f, s.file (.fixed a) = some f ∧ ∃ rest : NodeM ρ ω NodePtr,
          (∀ S, Exec.Keeps (Inv S) rest) ∧ rest (s.push f) = .ok (r, t)) := by
  rw [kopen, kopenRecur] at h
  obtain ⟨⟨path, pathLen⟩, hpath, h⟩ := Exec.of_lift_bind_ok h
  rw [Mounts.firstNode, hpath, Exec.ok_bind]
  dsimp only at h ⊢
  rw [kopenPath] at h
  split at h
  · next hlen =>
    rw [if_pos hlen]
    refine ⟨_, rfl, ?_⟩
    split at h
    · cases h
    · next hroot =>
      obtain ⟨f, hf, h⟩ := of_read_bind h
      exact .inr ⟨hroot, f, hf, _, fun S => keeps_fopen.bind fun _ => Exec.keeps_pure, h⟩
  · next hlen =>
    rw [if_neg hlen]
    obtain ⟨⟨node, pathOffset, depth⟩, u, hpoint, hrest⟩ := Exec.of_bind_ok h
    obtain ⟨found, hwalk, hcase⟩ := getMountPoint_cases hpoint
    rw [hwalk]
    refine ⟨_, rfl, ?_⟩
    dsimp only at hrest
    rcases hcase with ⟨hzero, rfl, rfl⟩ | ⟨hne, hnode, f, hf, rfl⟩
    · cases hrest
      exact .inl ⟨hzero, rfl, rfl⟩
    · rw [if_neg hnode] at hrest
      refine .inr ⟨hne, f, hf, _, fun S => ?_, hrest⟩
      split
      · exact keeps_fopen.bind fun _ => Exec.keeps_pure
      · exact keeps_searchFrom fun _ _ _ _ => keeps_kopenRecur

def IsMounted (vfs : Mounts ρ) (p : NodeAddr) : Prop := ∃ a, p = .fixed a ∧ vfs.Mounted a

theorem kopen_leaks (hw : vfs.WellFormed) (h : s.Inv (IsMounted vfs)) (hmeets : vfs.Meets junk w b)
    (hrun : kopen D junk vfs w b flags s = .ok (r, t)) : ∃ n, t.Inv fun p => p = .made n := by
  obtain ⟨a, hfirst, hcase⟩ := kopen_cases hrun
  obtain ⟨a', hne, hfirst'⟩ := hmeets
  rw [hfirst] at hfirst'
  cases hfirst'
  rcases hcase with ⟨rfl, -, -⟩ | ⟨-, f, hf, rest, hkeeps, hrest⟩
  · exact absurd rfl hne
  · obtain ⟨-, g, hg, hpin⟩ := h.pinned (.fixed a) ⟨a, rfl, firstNode_mounted hw hfirst hne⟩
    rw [hf] at hg
    cases hg
    have hpushed : (s.push f).Inv fun p => p = .made s.count :=
      (h.push_pinned hpin).mono fun _ => .inr
    exact ⟨s.count, hkeeps _ _ _ _ hpushed hrest⟩

theorem kopen_null (hmeets : ¬ vfs.Meets junk w b) (hrun : kopen D junk vfs w b flags s = .ok (r, t)) :
    r = .null ∧ t = s := by
  obtain ⟨a, hfirst, hcase⟩ := kopen_cases hrun
  rcases hcase with ⟨-, hr, ht⟩ | ⟨hne, -⟩
  · exact ⟨hr, ht⟩
  · exact absurd ⟨a, hne, hfirst⟩ hmeets

theorem inv_start (hs : vfs.Static) (world : ω) : (start vfs world).Inv (IsMounted vfs) := by
  constructor
  case unmade => exact fun n _ => ⟨rfl, List.not_mem_nil⟩
  case pinned =>
    rintro p ⟨a, rfl, hne, e, he, rfl⟩
    exact ⟨List.not_mem_nil, vfs.file e.file, rfl, hs.of_mem he hne⟩

theorem Inv.not_freed {n : Nat} (h : s.Inv fun p => p = .made n) :
    n < s.count ∧ s.freed.count (.made n) = 0 := by
  obtain ⟨hfreed, f, hf, -⟩ := h.pinned (.made n) rfl
  refine ⟨?_, List.count_eq_zero.mpr hfreed⟩
  by_contra hn
  rw [(h.unmade n (by omega)).1] at hf
  cases hf

end Kopen

end NodeStore

namespace NodeSession

variable {D junk vfs} {world : ω} {calls : List NodeCall} {call : NodeCall} {s s' : NodeSession ρ ω}

theorem Step.inv {S : NodeAddr → Prop} (hstep : Step D junk vfs s call s') (h : s.store.Inv S) :
    s'.store.Inv S := by
  cases hstep with
  | counted hrun => exact NodeStore.keeps_kopenRecur _ _ _ h hrun
  | opened hrun => exact NodeStore.keeps_kopenRecur _ _ _ h hrun
  | failed hrun => exact NodeStore.keeps_kopenRecur _ _ _ h hrun
  | closed hp hrun => exact NodeStore.keeps_fclose _ _ _ h hrun

theorem Run.inv (hs : vfs.Static) (hrun : Run D junk vfs world calls s) :
    s.store.Inv (NodeStore.IsMounted vfs) := by
  induction hrun with
  | start => exact NodeStore.inv_start hs world
  | call _ hstep ih => exact hstep.inv ih

theorem Run.leaks (hw : vfs.WellFormed) (hs : vfs.Static) (hrun : Run D junk vfs world calls s)
    {w b : Block} {flags : Nat} (hcall : .kopen w b flags ∈ calls) (hmeets : vfs.Meets junk w b) :
    ∃ n, s.store.Inv fun p => p = .made n := by
  induction hrun with
  | start => cases hcall
  | call hrun hstep ih =>
    rcases List.mem_append.mp hcall with hcall | hcall
    · obtain ⟨n, hn⟩ := ih hcall
      exact ⟨n, hstep.inv hn⟩
    · cases List.mem_singleton.mp hcall
      have hinv := hrun.inv hs
      cases hstep with
      | counted hopen => exact NodeStore.kopen_leaks hw hinv hmeets hopen
      | opened hopen => exact NodeStore.kopen_leaks hw hinv hmeets hopen
      | failed hopen => exact NodeStore.kopen_leaks hw hinv hmeets hopen

theorem Run.nothing (hrun : Run D junk vfs world calls s)
    (hnone : ∀ w b flags, .kopen w b flags ∈ calls → ¬ vfs.Meets junk w b) :
    s = ⟨.start vfs world, [], []⟩ := by
  induction hrun with
  | start => rfl
  | @call calls call s s' hrun hstep ih =>
    have hs := ih fun w b flags hcall => hnone w b flags (List.mem_append_left _ hcall)
    have hlast : ∀ w b flags, call = .kopen w b flags → ¬ vfs.Meets junk w b := by
      rintro w b flags rfl
      exact hnone w b flags (List.mem_append_right _ List.mem_cons_self)
    subst hs
    cases hstep with
    | counted hopen => cases (NodeStore.kopen_null (hlast _ _ _ rfl) hopen).1
    | opened hopen => cases (NodeStore.kopen_null (hlast _ _ _ rfl) hopen).1
    | failed hopen =>
      obtain ⟨-, rfl⟩ := NodeStore.kopen_null (hlast _ _ _ rfl) hopen
      rfl
    | closed hp => cases hp

theorem owned_start : Owned vfs (⟨.start vfs world, [], []⟩ : NodeSession ρ ω) := by
  constructor
  case closes => exact fun p hp => absurd hp List.not_mem_nil
  case freed => exact fun n hn => absurd hn (Nat.not_lt_zero n)
  case kept => exact fun a _ => List.not_mem_nil

theorem not_owned {n : Nat} (h : s.store.Inv fun p => p = .made n) : ¬ Owned vfs s := by
  intro howned
  obtain ⟨hn, hfreed⟩ := h.not_freed
  have hone := howned.freed n hn
  omega

/-- Lookups and closes treat the nodes well exactly if no lookup meets a mounted file, which means that it
finds nothing. -/
theorem owned_iff {file : Nat → File ρ} {mounts : List (Option Block × Nat)}
    (hmount : mountAll junk (vfsInstall file) mounts = .ok vfs) (hrun : Run D junk vfs world calls s) :
    Owned vfs s ↔ ∀ w b flags, .kopen w b flags ∈ calls → ¬ vfs.Meets junk w b := by
  have hw := (wellFormed_vfsInstall file).mountAll hmount
  have hs := (static_vfsInstall file).mountAll hmount
  constructor
  · intro howned w b flags hcall hmeets
    obtain ⟨n, hn⟩ := hrun.leaks hw hs hcall hmeets
    exact not_owned hn howned
  · intro hnone
    rw [hrun.nothing hnone]
    exact owned_start

/-! A file is mounted at `/`, and opened and closed there: its copy is static, and is not freed. -/

def plainFile : File Unit := ⟨2, 0, 0, 0, 0, 0, ()⟩

def plainMounts : Mounts Unit :=
  ⟨.node ⟨[91, 114, 111, 111, 116, 93, 0], 1⟩ [], 1, Function.update (fun _ => plainFile) 1 plainFile.pin⟩

def idleDrivers : Drivers Unit Unit where
  openNode _ _ _ w := (((), 0), w)
  closeNode _ _ w := w
  finddir _ _ _ w := (.none, w)
  readlink _ _ b w := ((0, b), w)

def rootOpened : NodeStore Unit Unit :=
  ((NodeStore.start plainMounts ()).push plainFile.pin).put (.made 0) plainFile.pin

def rootCalls : List NodeCall := [.kopen [47, 0] [46, 0] 0, .fclose (.made 0)]

theorem plainMounts_mounted :
    mountAll (fun _ => 0) (vfsInstall fun _ => plainFile) [(some [47, 0], 1)] = .ok plainMounts := rfl

theorem run_rootCalls : Run idleDrivers (fun _ => 0) plainMounts () rootCalls ⟨rootOpened, [], []⟩ := by
  have hopen : Step idleDrivers (fun _ => 0) plainMounts ⟨.start plainMounts (), [], []⟩
      (.kopen [47, 0] [46, 0] 0) ⟨rootOpened, [.made 0], []⟩ := by
    apply Step.opened rfl
    rintro ⟨f, hf, hcount, -⟩
    cases hf
    exact hcount rfl
  have hclose : Step idleDrivers (fun _ => 0) plainMounts ⟨rootOpened, [.made 0], []⟩
      (.fclose (.made 0)) ⟨rootOpened, [], []⟩ :=
    .closed List.mem_cons_self rfl
  exact Run.call (Run.call .start hopen) hclose

theorem owned_iff_root : Owned plainMounts ⟨rootOpened, [], []⟩ ↔
    ∀ w b flags, .kopen w b flags ∈ rootCalls → ¬ plainMounts.Meets (fun _ => 0) w b :=
  owned_iff plainMounts_mounted run_rootCalls

/-- Every file is closed again, and the copy of the root is not freed. -/
theorem not_owned_root :
    mountAll (fun _ => 0) (vfsInstall fun _ => plainFile) [(some [47, 0], 1)] = .ok plainMounts ∧
      ∃ s : NodeSession Unit Unit, Run idleDrivers (fun _ => 0) plainMounts () rootCalls s ∧
        s.opened = [] ∧ ¬ Owned plainMounts s := by
  refine ⟨plainMounts_mounted, _, run_rootCalls, rfl, fun howned => ?_⟩
  have hfreed := howned.freed 0 Nat.one_pos
  cases hfreed

end NodeSession

end KernelTest.Vfs
