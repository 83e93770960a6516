import KernelTest.Vfs.Lookup
import KernelTest.Vfs.Symlinks

/-!
# Calls of a directory

`fs_mkdir`, `fs_create_file`, `fs_unlink` and `fs_symlink` look up the directory of a path and call its
driver with the last name of the path.
-/

namespace KernelTest.Vfs

open Libc

/-- The callbacks of a `FILE` for these calls. -/
structure DirectoryFns where
  createFn : Nat
  mkdirFn : Nat
  unlinkFn : Nat
  symlinkFn : Nat
  deriving DecidableEq

inductive DriverCall (ρ : Type)
  | mkdir (fn : Nat) (node : File ρ) (name : Block) (permission : Nat)
  | create (fn : Nat) (node : File ρ) (name : Block) (permission : Nat)
  | unlink (fn : Nat) (node : File ρ) (name : Block)
  | symlink (fn : Nat) (node : File ρ) (target name : Block)
  deriving DecidableEq

/-- The directory that the driver is called for. -/
def DriverCall.node {ρ : Type} : DriverCall ρ → File ρ
  | .mkdir _ node _ _ | .create _ node _ _ | .unlink _ node _ | .symlink _ node _ _ => node

def DriverCall.name {ρ : Type} : DriverCall ρ → Block
  | .mkdir _ _ name _ | .create _ _ name _ | .unlink _ _ name | .symlink _ _ _ name => name

/-- `struct parent_path_packet`, with `f_path` as an offset into the path. -/
structure ParentPathPacket (ρ : Type) where
  parent : FilePtr ρ
  fPath : Nat

/-- What a call comes to: the calls of the driver, whether the node of the parent is freed, and the value
that is returned. -/
structure RequestResult (ρ : Type) where
  calls : List (DriverCall ρ)
  parentFreed : Bool
  value : Int
  deriving DecidableEq

variable {ρ : Type} (cb : Callbacks ρ) (junk : Nat → UInt8) (vfs : Mounts ρ)
  (fns : ρ → DirectoryFns) (driver : DriverCall ρ → File ρ) (workDirpath : Block)

/-- The loop of `get_parent`, with `f_path` at the offset `i`. -/
def scanBack (path : Block) : Nat → Except Fault Nat
  | 0 => pure 0
  | i + 1 => do
    let c ← loadByte path (i + 1)
    if c = pathSeparator then pure (i + 2) else scanBack path i

/-- `f_path` of a path of the given length. -/
def leafOffset (path : Block) : Nat → Except Fault Nat
  -- the byte in front of the path
  | 0 => throw .overrun
  | n + 1 => do
    let i ← scanBack path n
    let c ← loadByte path i
    pure (if c = pathSeparator then i + 1 else i)

/-- `get_parent(path)`. -/
def getParent (path : Block) : VfsM (ParentPathPacket ρ) := do
  let n ← liftString (strlen path)
  let parentPath := path.take n ++ pathSeparator :: pathUp ++ [0]
  let fPath ← liftString (leafOffset path n)
  let parent ← kopen cb junk vfs workDirpath (some parentPath) 0
  pure ⟨parent, fPath⟩

/-- `fclose(node)` frees the node. -/
def fcloseFrees (node : File ρ) : Bool := decide (node.refcount ≠ -1 ∧ node.refcount - 1 = 0)

/-- The body of the four functions. They differ in the callback, in what it is called with, and in
whether the node is given to `fclose` or to `free` after that. -/
def callParent (fn : DirectoryFns → Nat) (call : Nat → File ρ → Block → DriverCall ρ)
    (closes : Bool) (filename : Block) : VfsM (RequestResult ρ) := do
  let canonPath ← liftString (canonicalizePath junk workDirpath filename)
  let packet ← getParent cb junk vfs workDirpath canonPath
  match packet.parent with
  | .null => pure ⟨[], false, -1⟩
  | .err _ => throw .wildPointer
  | .node f =>
    if fn (fns f.rest) ≠ 0 then
      let c := call (fn (fns f.rest)) f (canonPath.drop packet.fPath)
      pure ⟨[c], if closes then fcloseFrees (driver c) else true, 0⟩
    else pure ⟨[], true, -1⟩

/-- `fs_mkdir(dirname, permission)`. -/
def fsMkdir (dirname : Block) (permission : Nat) : VfsM (RequestResult ρ) :=
  callParent cb junk vfs fns driver workDirpath DirectoryFns.mkdirFn
    (fun fn node name => .mkdir fn node name permission) true dirname

/-- `fs_create_file(filename, permission)`. -/
def fsCreateFile (filename : Block) (permission : Nat) : VfsM (RequestResult ρ) :=
  callParent cb junk vfs fns driver workDirpath DirectoryFns.createFn
    (fun fn node name => .create fn node name permission) false filename

/-- `fs_unlink(filename)`. -/
def fsUnlink (filename : Block) : VfsM (RequestResult ρ) :=
  callParent cb junk vfs fns driver workDirpath DirectoryFns.unlinkFn
    (fun fn node name => .unlink fn node name) false filename

/-- `fs_symlink(target, filename)`. -/
def fsMakeSymlink (target filename : Block) : VfsM (RequestResult ρ) :=
  callParent cb junk vfs fns driver workDirpath DirectoryFns.symlinkFn
    (fun fn node name => .symlink fn node target name) true filename

/-- One of the four calls, but for the path. -/
inductive DirectoryRequest
  | mkdir (permission : Nat)
  | createFile (permission : Nat)
  | unlink
  | symlink (target : Block)

namespace DirectoryRequest

def fn : DirectoryRequest → DirectoryFns → Nat
  | .mkdir _ => DirectoryFns.mkdirFn
  | .createFile _ => DirectoryFns.createFn
  | .unlink => DirectoryFns.unlinkFn
  | .symlink _ => DirectoryFns.symlinkFn

def call : DirectoryRequest → Nat → File ρ → Block → DriverCall ρ
  | .mkdir permission, fn, node, name => .mkdir fn node name permission
  | .createFile permission, fn, node, name => .create fn node name permission
  | .unlink, fn, node, name => .unlink fn node name
  | .symlink target, fn, node, name => .symlink fn node target name

/-- The node is given to `fclose`. -/
def closes : DirectoryRequest → Bool
  | .mkdir _ | .symlink _ => true
  | .createFile _ | .unlink => false

def run (filename : Block) : DirectoryRequest → VfsM (RequestResult ρ)
  | .mkdir permission => fsMkdir cb junk vfs fns driver workDirpath filename permission
  | .createFile permission => fsCreateFile cb junk vfs fns driver workDirpath filename permission
  | .unlink => fsUnlink cb junk vfs fns driver workDirpath filename
  | .symlink target => fsMakeSymlink cb junk vfs fns driver workDirpath target filename

end DirectoryRequest

/-- What is asked of a call for the canonical path with the components `cs`, where `parent` is what
`kopen` returns for its parent. -/
structure RequestResult.Proper (r : RequestResult ρ) (parent : VfsM (FilePtr ρ))
    (cs : List (List UInt8)) : Prop where
  once : r.calls.length ≤ 1
  place : ∀ call ∈ r.calls, parent = .ok (.node call.node) ∧
    ∃ c, cs.getLast? = some c ∧ CString call.name c ∧ c ≠ [] ∧ pathSeparator ∉ c
  refused : cs = [] ∨ (∀ f, parent ≠ .ok (.node f)) → r.calls = [] ∧ r.value = -1
  released : ∀ f, parent = .ok (.node f) → r.parentFreed

variable {cb junk vfs fns driver workDirpath}

theorem scanBack_leaf {pre c : List UInt8} (hc : pathSeparator ∉ c) {rest : Block} :
    ∀ j ≤ c.length, scanBack (pre ++ pathSeparator :: c ++ rest) (pre.length + j) =
      .ok (if pre = [] then 0 else pre.length + 1) := by
  intro j
  induction j with
  | zero =>
    intro _
    cases hlen : pre.length with
    | zero =>
      rw [if_pos (List.length_eq_zero_iff.mp hlen)]
      rfl
    | succ n =>
      have hne : pre ≠ [] := List.ne_nil_of_length_eq_add_one hlen
      have hload := loadByte_append pre pathSeparator (c ++ rest)
      rw [hlen] at hload
      rw [scanBack, List.append_assoc, List.cons_append, hload, if_neg hne]
      rfl
  | succ j ih =>
    intro hj
    have hlt : j < c.length := hj
    have hload : loadByte (pre ++ pathSeparator :: c ++ rest) (pre.length + j + 1) = .ok (c.get ⟨j, hlt⟩) := by
      rw [loadByte, List.getElem?_append_left (by simp; omega), List.getElem?_append_right (by omega)]
      have hoff : pre.length + j + 1 - pre.length = j + 1 := by omega
      rw [hoff, List.getElem?_cons_succ, List.getElem?_eq_getElem hlt]
      rfl
    have hsep : c.get ⟨j, hlt⟩ ≠ pathSeparator := fun heq => hc (heq ▸ List.get_mem c ⟨j, hlt⟩)
    rw [← Nat.add_assoc, scanBack, hload]
    change (if c.get ⟨j, hlt⟩ = pathSeparator then _ else _) = _
    rw [if_neg hsep]
    exact ih (by omega)

theorem leafOffset_eq {pre c : List UInt8} (hc : pathSeparator ∉ c) (hne : c = [] → pre = []) :
    leafOffset (pre ++ pathSeparator :: c ++ [0]) (pre.length + c.length + 1) =
      .ok (pre.length + 1) := by
  rw [leafOffset, scanBack_leaf hc c.length (Nat.le_refl _)]
  by_cases hpre : pre = []
  · rw [if_pos hpre, hpre]
    rfl
  · cases c with
    | nil => exact absurd (hne rfl) hpre
    | cons a c =>
      have ha : a ≠ pathSeparator := fun heq => hc (heq ▸ List.mem_cons_self)
      have hload : loadByte (pre ++ pathSeparator :: (a :: c) ++ [0]) (pre.length + 1) = .ok a := by
        have happend := loadByte_append (pre ++ [pathSeparator]) a (c ++ [0])
        simpa using happend
      rw [if_neg hpre]
      change (loadByte (pre ++ pathSeparator :: (a :: c) ++ [0]) (pre.length + 1) >>= _) = _
      rw [hload]
      change Except.ok (if a = pathSeparator then _ else _) = _
      rw [if_neg ha]

def leafName (cs : List (List UInt8)) : List UInt8 := cs.getLast?.getD []

theorem joinPath_leaf (cs : List (List UInt8)) :
    joinPath cs = joined pathSeparator cs.dropLast ++ pathSeparator :: leafName cs := by
  rcases List.eq_nil_or_concat' cs with rfl | ⟨ds, c, rfl⟩
  · rfl
  · simp [joinPath, leafName]

section Parent

variable {cs : List (List UInt8)}

theorem leafName_spec (hcs : ∀ c ∈ cs, IsComponent c) :
    0 ∉ leafName cs ∧ pathSeparator ∉ leafName cs := by
  rw [leafName]
  cases hlast : cs.getLast? with
  | none => exact ⟨List.not_mem_nil, List.not_mem_nil⟩
  | some c =>
    have hc := hcs c (List.mem_of_getLast? hlast)
    exact ⟨hc.no_nul, hc.no_separator⟩

theorem isComponent_dropLast (hcs : ∀ c ∈ cs, IsComponent c) : ∀ c ∈ cs.dropLast, IsComponent c :=
  fun c hc => hcs c (List.dropLast_subset _ hc)

theorem kopen_components (hw : vfs.WellFormed) (hcs : ∀ c ∈ cs, IsComponent c) :
    kopen cb junk vfs workDirpath (some (joinPath cs ++ [0])) 0 =
      openPath cb junk vfs (maxSymlinkDepth + 1) cs 0 0 :=
  kopen_canonical hw ⟨cs, hcs, _, cString_terminated (nul_notMem_joinPath fun c hc => (hcs c hc).no_nul)⟩ workDirpath 0

theorem kopen_up (hw : vfs.WellFormed) (hcs : ∀ c ∈ cs, IsComponent c) :
    kopen cb junk vfs workDirpath (some (joinPath cs ++ pathSeparator :: pathUp ++ [0])) 0 =
      openPath cb junk vfs (maxSymlinkDepth + 1) cs.dropLast 0 0 := by
  have hnul : 0 ∉ joinPath cs ++ pathSeparator :: pathUp := by
    rw [List.mem_append, not_or]
    exact ⟨nul_notMem_joinPath fun c hc => (hcs c hc).no_nul, by decide⟩
  have hhead : (joinPath cs ++ pathSeparator :: pathUp).head? = some pathSeparator := by
    rw [List.head?_append, head?_joinPath]
    rfl
  have hup : tokens pathSeparator pathUp = [pathUp] := by decide
  have hpop : pathStep cs pathUp = cs.dropLast := by
    rw [pathStep, if_neg (by decide), if_pos rfl]
  have hrelative : joinPath cs ++ pathSeparator :: pathUp ≠ [] →
      (joinPath cs ++ pathSeparator :: pathUp).head? ≠ some pathSeparator →
        CString workDirpath [] := fun _ h => absurd hhead h
  have hopen : kopen cb junk vfs workDirpath
      (some (joinPath cs ++ pathSeparator :: pathUp ++ [0])) 0 = _ :=
    kopenRecur_eq cb junk hw 0 0 (cString_terminated hnul) hrelative
  have hstart : startComponents [] (joinPath cs ++ pathSeparator :: pathUp) = [] :=
    if_neg fun h => h.2 hhead
  rw [hstart, tokens_append_cons, tokens_joinPath hcs, hup, List.foldl_append,
    foldl_pathStep_components hcs, List.nil_append, List.foldl_cons, hpop] at hopen
  exact hopen

theorem getParent_eq (hw : vfs.WellFormed) (hcs : ∀ c ∈ cs, IsComponent c) :
    getParent cb junk vfs workDirpath (joinPath cs ++ [0]) =
      openPath cb junk vfs (maxSymlinkDepth + 1) cs.dropLast 0 0 >>= fun parent =>
        pure ⟨parent, (joined pathSeparator cs.dropLast).length + 1⟩ := by
  have hlen : (joinPath cs).length =
      (joined pathSeparator cs.dropLast).length + (leafName cs).length + 1 := by
    rw [joinPath_leaf, List.length_append, List.length_cons]
    omega
  have hroot : leafName cs = [] → joined pathSeparator cs.dropLast = [] := by
    rcases List.eq_nil_or_concat' cs with rfl | ⟨ds, c, rfl⟩
    · exact fun _ => rfl
    · intro hleaf
      have hc : c = [] := by simpa [leafName] using hleaf
      exact absurd hc (hcs c (by simp)).ne_nil
  have hleaf : leafOffset (joinPath cs ++ [0]) (joinPath cs).length =
      .ok ((joined pathSeparator cs.dropLast).length + 1) := by
    rw [hlen, joinPath_leaf]
    exact leafOffset_eq (leafName_spec hcs).2 hroot
  rw [getParent, strlen_eq (cString_terminated (nul_notMem_joinPath fun c hc => (hcs c hc).no_nul)), liftString_bind]
  simp only [hleaf, liftString_bind, List.take_left, kopen_up hw hcs]

end Parent

def answer (fns : ρ → DirectoryFns) (driver : DriverCall ρ → File ρ) (r : DirectoryRequest)
    (leaf : List UInt8) : FilePtr ρ → VfsM (RequestResult ρ)
  | .null => pure ⟨[], false, -1⟩
  | .err _ => throw .wildPointer
  | .node f =>
    if r.fn (fns f.rest) ≠ 0 then
      let c := r.call (r.fn (fns f.rest)) f (leaf ++ [0])
      pure ⟨[c], if r.closes then fcloseFrees (driver c) else true, 0⟩
    else pure ⟨[], true, -1⟩

theorem run_eq_callParent (r : DirectoryRequest) (filename : Block) :
    r.run cb junk vfs fns driver workDirpath filename =
      callParent cb junk vfs fns driver workDirpath r.fn r.call r.closes filename := by
  cases r <;> rfl

theorem run_request (r : DirectoryRequest) (hw : vfs.WellFormed) {cwd input : List UInt8}
    {filename : Block} (hcwd : Canonical cwd) (hwork : CString workDirpath cwd)
    (hinput : CString filename input) (hne : input ≠ []) :
    r.run cb junk vfs fns driver workDirpath filename =
      openPath cb junk vfs (maxSymlinkDepth + 1) (stackSemantics cwd input).dropLast 0 0 >>=
        answer fns driver r (leafName (stackSemantics cwd input)) := by
  have hcanon : canonicalizePath junk workDirpath filename =
      .ok (joinPath (stackSemantics cwd input) ++ [0]) := by
    rw [canonicalizePath_eq junk cwd (fun _ _ => hwork) hinput, stackSemantics_eq hne]
  have hcs : ∀ c ∈ stackSemantics cwd input, IsComponent c := fun c hc =>
    isComponent_stackSemantics hcwd hinput.1 hc
  generalize stackSemantics cwd input = cs at hcanon hcs ⊢
  have hdrop : (joinPath cs ++ [0]).drop ((joined pathSeparator cs.dropLast).length + 1) =
      leafName cs ++ [0] := by
    rw [joinPath_leaf, List.append_assoc, List.drop_append]
    simp
  rw [run_eq_callParent, callParent, hcanon]
  change (getParent cb junk vfs workDirpath (joinPath cs ++ [0]) >>= _) = _
  rw [getParent_eq hw hcs]
  cases openPath cb junk vfs (maxSymlinkDepth + 1) cs.dropLast 0 0 with
  | error e => rfl
  | ok p =>
    cases p with
    | null => rfl
    | err k => rfl
    | node f =>
      change (if r.fn (fns f.rest) ≠ 0 then _ else _) = if r.fn (fns f.rest) ≠ 0 then _ else _
      rw [hdrop]

theorem fcloseFrees_iff {node : File ρ} : fcloseFrees node ↔ node.refcount = 1 := by
  simp only [fcloseFrees, decide_eq_true_eq]
  omega

/-- The call is proper for a parent that can be opened: it has a last name if the driver is called, and
`fclose` frees the node if it is given to `fclose` then. -/
def CallFits (fns : ρ → DirectoryFns) (driver : DriverCall ρ → File ρ) (r : DirectoryRequest)
    (cs : List (List UInt8)) (f : File ρ) : Prop :=
  r.fn (fns f.rest) ≠ 0 →
    cs ≠ [] ∧ (r.closes → (driver (r.call (r.fn (fns f.rest)) f (leafName cs ++ [0]))).refcount = 1)

section Answer

variable {r : DirectoryRequest} {cs : List (List UInt8)} {x : VfsM (FilePtr ρ)}

theorem answer_null (hx : x = .ok .null) :
    ∃ res, (x >>= answer fns driver r (leafName cs)) = .ok res ∧ res.Proper x cs := by
  refine ⟨⟨[], false, -1⟩, by rw [hx]; rfl, ?_⟩
  constructor
  case once => exact Nat.zero_le 1
  case place => exact fun _ hcall => absurd hcall List.not_mem_nil
  case refused => exact fun _ => ⟨rfl, rfl⟩
  case released =>
    intro f hf
    rw [hx] at hf
    cases hf

theorem answer_node (hcs : ∀ c ∈ cs, IsComponent c) {f : File ρ} (hx : x = .ok (.node f)) :
    (∃ res, (x >>= answer fns driver r (leafName cs)) = .ok res ∧ res.Proper x cs) ↔
      CallFits fns driver r cs f := by
  have hrun : (x >>= answer fns driver r (leafName cs)) =
      answer fns driver r (leafName cs) (.node f) := by
    rw [hx]
    rfl
  have hown : ∀ g, x = .ok (.node g) → f = g := by
    intro g hg
    rw [hx] at hg
    cases hg
    rfl
  rw [hrun, answer, CallFits]
  by_cases hfn : r.fn (fns f.rest) = 0
  · rw [if_neg (not_not.mpr hfn)]
    refine iff_of_true ⟨_, rfl, ?_⟩ fun hne => absurd hfn hne
    constructor
    case once => exact Nat.zero_le 1
    case place => exact fun _ hcall => absurd hcall List.not_mem_nil
    case refused => exact fun _ => ⟨rfl, rfl⟩
    case released => exact fun _ _ => rfl
  · rw [if_pos hfn]
    constructor
    · intro hproper _
      obtain ⟨res, hres, hproper⟩ := hproper
      cases hres
      constructor
      · intro hnil
        cases (hproper.refused (Or.inl hnil)).1
      · intro hcloses
        have hfreed := hproper.released f hx
        rw [if_pos hcloses] at hfreed
        exact fcloseFrees_iff.mp hfreed
    · intro hfits
      obtain ⟨hne, hcount⟩ := hfits hfn
      refine ⟨_, rfl, ?_⟩
      constructor
      case once => exact Nat.le_refl 1
      case place =>
        intro call hcall
        have hlast := List.getLast?_eq_some_getLast hne
        have hleaf : leafName cs = cs.getLast hne := by
          rw [leafName, hlast]
          rfl
        have hc := hcs _ (List.getLast_mem hne)
        have hname : CString call.name (cs.getLast hne) ∧ call.node = f := by
          rw [List.mem_singleton.mp hcall, hleaf]
          have hstring := cString_terminated hc.no_nul
          cases r <;> exact ⟨hstring, rfl⟩
        refine ⟨by rw [hname.2]; exact hx, _, hlast, hname.1, hc.ne_nil, hc.no_separator⟩
      case refused =>
        intro hrefused
        cases hrefused with
        | inl hnil => exact absurd hnil hne
        | inr hnone => exact absurd hx (hnone f)
      case released =>
        intro g _
        change (if r.closes = true then _ else _) = true
        split
        · next hcloses => exact fcloseFrees_iff.mpr (hcount hcloses)
        · rfl

theorem answer_fails (hx : Fails FilePtr.IsErr x) {res : RequestResult ρ} :
    (x >>= answer fns driver r (leafName cs)) ≠ .ok res := by
  intro hres
  rcases hx with ⟨e, _, hx⟩ | ⟨p, ⟨k, rfl⟩, hx⟩
  · rw [hx] at hres
    cases hres
  · rw [hx] at hres
    cases hres

end Answer

/-- The four calls do what they are for exactly when the links on the way to the parent can be followed,
the driver is not called for `/`, and `fclose` frees the node of the parent where it is used. -/
theorem request_proper_iff {file : Nat → File ρ} {calls : List (Option Block × Nat)}
    (hmount : mountAll junk (vfsInstall file) calls = .ok vfs) (r : DirectoryRequest)
    {cwd input : List UInt8} {filename : Block} (hcwd : Canonical cwd) (hwork : CString workDirpath cwd)
    (hinput : CString filename input) (hne : input ≠ []) :
    (∃ res, r.run cb junk vfs fns driver workDirpath filename = .ok res ∧
        res.Proper (kopen cb junk vfs workDirpath
          (some (joinPath (stackSemantics cwd input).dropLast ++ [0])) 0)
          (stackSemantics cwd input)) ↔
      LinksOpen cb junk vfs maxSymlinkDepth (stackSemantics cwd input).dropLast 0 ∧
        ∀ f, resolve cb junk vfs maxSymlinkDepth (stackSemantics cwd input).dropLast 0 = some f →
          CallFits fns driver r (stackSemantics cwd input) f := by
  have hw := (wellFormed_vfsInstall file).mountAll hmount
  have hcs : ∀ c ∈ stackSemantics cwd input, IsComponent c := fun c hc =>
    isComponent_stackSemantics hcwd hinput.1 hc
  rw [run_request r hw hcwd hwork hinput hne]
  generalize stackSemantics cwd input = cs at hcs ⊢
  have hparent := isComponent_dropLast hcs
  rw [kopen_components hw hparent]
  have hagrees : Agrees (openPath cb junk vfs (maxSymlinkDepth + 1) cs.dropLast 0 0)
      (resolve cb junk vfs maxSymlinkDepth cs.dropLast 0)
      (LinksOpen cb junk vfs maxSymlinkDepth cs.dropLast 0) :=
    openPath_agrees _ 0 0 (Nat.zero_add _) fun c hc => (hparent c hc).no_nul
  generalize openPath cb junk vfs (maxSymlinkDepth + 1) cs.dropLast 0 0 = x at hagrees ⊢
  by_cases hlinks : LinksOpen cb junk vfs maxSymlinkDepth cs.dropLast 0
  · have hx := hagrees.1 hlinks
    cases hfound : resolve cb junk vfs maxSymlinkDepth cs.dropLast 0 with
    | none =>
      rw [hfound] at hx
      refine iff_of_true (answer_null hx) ⟨hlinks, fun f hf => ?_⟩
      cases hf
    | some f =>
      rw [hfound] at hx
      rw [answer_node hcs hx]
      constructor
      · intro hfits
        refine ⟨hlinks, fun g hg => ?_⟩
        cases hg
        exact hfits
      · exact fun h => h.2 f rfl
  · refine iff_of_false (fun hres => ?_) fun h => hlinks h.1
    obtain ⟨res, hres, _⟩ := hres
    exact answer_fails (hagrees.2 hlinks) hres

/-- A file system whose root has the four callbacks and a link `d` to nothing. -/
def rootDriver : Callbacks DirectoryFns where
  openNode := fun _ node _ => (node, 0)
  finddir := fun _ _ name => if name = [100] then some ⟨32, 0, 0, 0, 0, 1, ⟨0, 0, 0, 0⟩⟩ else none
  readlink := fun _ _ _ => (2, fun i => [47, 120].getD i 0)

def rootNode : File DirectoryFns := ⟨2, -1, 0, 0, 1, 0, ⟨1, 2, 3, 4⟩⟩

def rootMounted : Mounts DirectoryFns where
  root := .node ⟨[91, 114, 111, 111, 116, 93, 0], 1⟩ []
  fsRoot := 1
  file := Function.update (fun _ => { rootNode with refcount := 0 }) 1 rootNode

theorem mountAll_rootMounted : mountAll (fun _ => 7)
    (vfsInstall fun _ => { rootNode with refcount := 0 }) [(some [47, 0], 1)] = .ok rootMounted := rfl

/-- The file `x` is unlinked. -/
theorem request_proper_unlink :
    ∃ res, DirectoryRequest.unlink.run rootDriver (fun _ => 7) rootMounted id DriverCall.node [47, 0]
        [120, 0] = .ok res ∧
      res.Proper (kopen rootDriver (fun _ => 7) rootMounted [47, 0] (some [47, 0]) 0) [[120]] := by
  have hcwd : Canonical [47] := ⟨[], by simp, rfl⟩
  have hwork : CString [47, 0] [47] := cString_terminated (by decide)
  have hinput : CString [120, 0] [120] := cString_terminated (by decide)
  apply (request_proper_iff mountAll_rootMounted .unlink hcwd hwork hinput (by decide)).mpr
  constructor
  · exact Nat.one_ne_zero
  · intro f _ _
    refine ⟨by decide, fun hcloses => ?_⟩
    cases hcloses

/-- For `/` the driver is called with an empty name. -/
theorem not_proper_mkdir_root :
    ¬ ∃ res, (DirectoryRequest.mkdir 493).run rootDriver (fun _ => 7) rootMounted id DriverCall.node
        [47, 0] [47, 0] = .ok res ∧
      res.Proper (kopen rootDriver (fun _ => 7) rootMounted [47, 0] (some [47, 0]) 0) [] := by
  intro hres
  obtain ⟨res, hres, hproper⟩ := hres
  have hrun : (DirectoryRequest.mkdir 493).run rootDriver (fun _ => 7) rootMounted id DriverCall.node
      [47, 0] [47, 0] = .ok ⟨[.mkdir 2 rootNode [0] 493], false, 0⟩ := by decide +kernel
  rw [hrun] at hres
  cases hres
  cases (hproper.refused (Or.inl rfl)).1

/-- The node of a mounted directory is not freed behind a new directory, and the value that `kopen` returns
for the link `d` is used as a node. -/
theorem mkdir_leak_and_fault :
    (DirectoryRequest.mkdir 493).run rootDriver (fun _ => 7) rootMounted id DriverCall.node [47, 0]
        [120, 0] = .ok ⟨[.mkdir 2 rootNode [120, 0] 493], false, 0⟩ ∧
      (DirectoryRequest.mkdir 493).run rootDriver (fun _ => 7) rootMounted id DriverCall.node [47, 0]
        [100, 47, 120, 0] = .error .wildPointer := by
  decide +kernel

end KernelTest.Vfs
