import KernelTest.Vfs.Kopen

/-!
# Opening a file by its components

The search of `kopen_recur` on the list of the components of the path. The offsets into the chopped
path and the counters `depth` and `path_depth` are gone; the two searches agree.
-/

namespace KernelTest.Vfs

open Libc

variable {ρ : Type} (cb : Callbacks ρ) (junk : Nat → UInt8) (vfs : Mounts ρ)

structure IsName (c : List UInt8) : Prop where
  ne_nil : c ≠ []
  no_nul : 0 ∉ c
  no_separator : pathSeparator ∉ c

/-- The components that `target` names, seen from the directory `before`. -/
def targetComponents (before : List (List UInt8)) (target : List UInt8) : List (List UInt8) :=
  (tokens pathSeparator target).foldl pathStep
    (if target ≠ [] ∧ target.head? ≠ some pathSeparator then before else [])

/-- The string at the beginning of the buffer that `readlink` filled. -/
def linkText (buf : Buf) : List UInt8 := (malloc buf maxSymlinkSize).takeWhile (· ≠ 0)

/-- The deepest mount point on the way to `cs`, and the components behind it. -/
def Mounts.mountPoint (cs : List (List UInt8)) : Nat × List (List UInt8) :=
  Tree.deepest VfsEntry.key VfsEntry.mounted cs vfs.root (vfs.fsRoot, cs)

def walkLink (reopen : List (List UInt8) → Nat → Nat → VfsM (FilePtr ρ)) (flags symlinkDepth : Nat)
    (leaf : Prop) [Decidable leaf] (before : List (List UInt8)) (node : File ρ) :
    VfsM (Outcome ρ) :=
  if flags &&& oNofollow ≠ 0 ∧ leaf then pure (.done (.err 1))
  else if symlinkDepth ≥ maxSymlinkDepth then pure (.done (.err 2))
  else if node.readlinkFn = 0 then throw .nullPointer
  else
    let (len, buf) := cb.readlink node.readlinkFn node junk
    if len < 0 then pure (.done (.err 3))
    else if len.toNat ≥ maxSymlinkSize then throw (.string .overrun)
    else if buf len.toNat ≠ 0 then pure (.done (.err 4))
    else do
      let target ← reopen (targetComponents before (linkText buf)) 0 (symlinkDepth + 1)
      pure (if target matches .null then .done (.err 5) else .go target)

/-- The search from `node`, the directory `before`, along the rest of the components. -/
def walk (reopen : List (List UInt8) → Nat → Nat → VfsM (FilePtr ρ)) (flags symlinkDepth : Nat) :
    List (List UInt8) → FilePtr ρ → List (List UInt8) → VfsM (FilePtr ρ)
  | _, node, [] => do
    let (node, _) ← fopen cb node flags
    pure node
  | before, node, c :: rest => do
    let next ← fsFinddir cb node (c ++ [0])
    match next with
    | none => pure .null
    | some f => do
      let outcome ←
        (if f.flags &&& fsSymlink ≠ 0 ∧
            ¬ (flags &&& oNofollow ≠ 0 ∧ flags &&& oPath ≠ 0 ∧ rest = []) then
          walkLink cb junk reopen flags symlinkDepth (rest = []) before f
        else pure (.go (.node f)))
      match outcome with
      | .done p => pure p
      | .go node => walk reopen flags symlinkDepth (before ++ [c]) node rest

def openPath : Nat → List (List UInt8) → Nat → Nat → VfsM (FilePtr ρ)
  | 0, _, _, _ => throw .endless
  | k + 1, cs, flags, symlinkDepth =>
    if cs = [] then
      if vfs.fsRoot = 0 then throw .nullPointer
      else pure (.node (fopenNode cb (vfs.file vfs.fsRoot) flags).1)
    else
      let (last, rest) := vfs.mountPoint cs
      if last = 0 then pure .null
      else
        walk cb junk (openPath k) flags symlinkDepth (cs.take (cs.length - rest.length))
          (.node (vfs.file last)) rest

variable {path : Block} {i : Nat} {c : List UInt8} {cs : List (List UInt8)}

theorem nul_notMem_joined (h : ∀ c ∈ cs, 0 ∉ c) : 0 ∉ joined pathSeparator cs := by
  simp only [joined, List.mem_flatMap, List.mem_cons, not_exists, not_and, not_or]
  exact fun c hc => ⟨by decide, h c hc⟩

theorem nul_notMem_joinPath (h : ∀ c ∈ cs, 0 ∉ c) : 0 ∉ joinPath cs := by
  rw [joinPath]
  split
  · decide
  · exact nul_notMem_joined h

theorem rebuild_eq (before todo rest : List (List UInt8)) (hb : ∀ c ∈ before, IsName c)
    (ht : ∀ c ∈ todo, IsName c) (ptr : Nat) (hptr : ptr ≤ (joined pathSeparator before).length) :
    rebuild todo.length ptr (joined pathSeparator before ++ (joined 0 (todo ++ rest) ++ [0])) =
      .ok (joined pathSeparator (before ++ todo) ++ (joined 0 rest ++ [0])) := by
  induction todo generalizing before ptr with
  | nil =>
    rw [List.append_nil]
    rfl
  | cons c todo ih =>
    have hdrop : CString ((joined pathSeparator before ++
        (joined 0 (c :: todo ++ rest) ++ [0])).drop ptr)
        ((joined pathSeparator before).drop ptr) := by
      refine ⟨fun h => nul_notMem_joined (fun c hc => (hb c hc).no_nul) (List.mem_of_mem_drop h),
        c ++ joined 0 (todo ++ rest) ++ [0], ?_⟩
      rw [List.drop_append_of_le_length hptr]
      simp
    have hend : ptr + ((joined pathSeparator before).drop ptr).length =
        (joined pathSeparator before).length := by
      rw [List.length_drop]
      omega
    have hset : (joined pathSeparator before ++ (joined 0 (c :: todo ++ rest) ++ [0])).set
        (joined pathSeparator before).length pathSeparator =
        joined pathSeparator (before ++ [c]) ++ (joined 0 (todo ++ rest) ++ [0]) := by
      rw [List.set_append_right _ _ (Nat.le_refl _), Nat.sub_self]
      simp
    have hstore : storeByte (joined pathSeparator before ++ (joined 0 (c :: todo ++ rest) ++ [0]))
        (joined pathSeparator before).length pathSeparator =
        .ok (joined pathSeparator (before ++ [c]) ++ (joined 0 (todo ++ rest) ++ [0])) := by
      rw [storeByte, if_pos (by simp), hset]
    have hrest := ih (before ++ [c])
      (by simpa [or_imp, forall_and] using ⟨hb, ht c (by simp)⟩)
      (fun d hd => ht d (by simp [hd])) (joined pathSeparator before).length (by simp)
    rw [List.length_cons, rebuild, strlen_eq hdrop]
    show (storeByte _ (ptr + _) _ >>= _) = _
    rw [hend, hstore]
    show rebuild todo.length _ _ = _
    rw [hrest, List.append_assoc]
    rfl

theorem relativePath_eq (before rest : List (List UInt8)) (hb : ∀ c ∈ before, IsName c) {n : Nat}
    (hn : n + 1 = (joined 0 (before ++ rest) ++ [0]).length) :
    ∃ b, relativePath junk (joined 0 (before ++ rest) ++ [0]) n before.length = .ok b ∧
      CString b (joined pathSeparator before) := by
  have hcopy : memcpy (malloc junk (n + 1)) 0 (joined 0 (before ++ rest) ++ [0]) (n + 1) =
      .ok (joined 0 (before ++ rest) ++ [0]) := by
    rw [memcpy, if_pos (by simp [malloc, hn]), hn, List.take_length]
    simp [malloc]
  have hrebuild := rebuild_eq [] before rest (by simp) hb 0 (Nat.zero_le _)
  rw [relativePath, hcopy]
  refine ⟨_, hrebuild, nul_notMem_joined fun c hc => (hb c hc).no_nul, (joined 0 rest ++ [0]).tail, ?_⟩
  cases rest <;> simp

theorem findChild_eq {name : Block} {ts : List (Tree VfsEntry)} (hname : CString name c)
    (hts : ∀ t ∈ ts, NamesTerminated t) :
    findChild name ts = .ok (Tree.child VfsEntry.key c ts) := by
  induction ts with
  | nil => rfl
  | cons t ts ih =>
    obtain ⟨d, hd, hiff⟩ := strcmp_child (hts t (by simp)) hname
    rw [findChild, hd]
    show (if d = 0 then _ else _) = _
    by_cases hkey : t.value.key = c
    · rw [if_pos (hiff.2 hkey)]
      simp [Tree.child, hkey]
      rfl
    · rw [if_neg fun h => hkey (hiff.1 h), ih fun u hu => hts u (by simp [hu])]
      simp [Tree.child, hkey]

structure MountPoint.Is (found : MountPoint) (path : Block) (total : Nat)
    (point : Nat × List (List UInt8)) : Prop where
  last : found.last = point.1
  rest : Rest path found.outpath point.2
  depth : found.outdepth + point.2.length = total

theorem mountWalk_eq {k depth total : Nat} {node : Tree VfsEntry} {found : MountPoint}
    {point : Nat × List (List UInt8)} (hnode : NamesTerminated node) (hcs : ∀ c ∈ cs, IsName c)
    (hrest : Rest path i cs) (hk : cs.length < k) (htotal : depth + cs.length = total + 1)
    (hfound : found.Is path total point) :
    ∃ found', mountWalk path path.length k node i depth found = .ok found' ∧
      found'.Is path total (Tree.deepest VfsEntry.key VfsEntry.mounted cs node point) := by
  induction cs generalizing k i depth node found point with
  | nil =>
    obtain ⟨k, rfl⟩ : ∃ j, k = j + 1 := ⟨k - 1, by simp at hk; omega⟩
    rw [mountWalk, if_pos hrest.length_le]
    exact ⟨found, rfl, hfound⟩
  | cons c cs ih =>
    obtain ⟨k, rfl⟩ : ∃ j, k = j + 1 := ⟨k - 1, by simp at hk; omega⟩
    have hlt := hrest.lt_length
    have hname := hrest.cString (hcs c (by simp)).no_nul
    rw [mountWalk, if_neg (by omega), findChild_eq hname hnode.children, Tree.deepest]
    cases hchild : Tree.child VfsEntry.key c node.children with
    | none => exact ⟨found, rfl, hfound⟩
    | some child =>
      have hmem := List.mem_of_find?_eq_some hchild
      rw [List.length_cons] at hk htotal
      show ∃ found', (strlen (path.drop i) >>= _) = _ ∧ _
      rw [strlen_eq hname]
      refine ih (hnode.children child hmem) (fun d hd => hcs d (by simp [hd])) hrest.next
        (by omega) (by omega) ?_
      rw [VfsEntry.mounted]
      split
      · exact hfound
      · exact ⟨rfl, hrest.next, by simp; omega⟩

theorem skipStrings_eq (hcs : ∀ c ∈ cs, IsName c) (hrest : Rest path i cs)
    (hi : cs = [] → i = path.length) : skipStrings path cs.length i = .ok path.length := by
  induction cs generalizing i with
  | nil => rw [hi rfl]; rfl
  | cons c cs ih =>
    have hname := hrest.cString (hcs c (by simp)).no_nul
    have hlt := hrest.lt_length
    rw [List.length_cons, skipStrings, strlen_eq hname]
    refine ih (fun d hd => hcs d (by simp [hd])) hrest.next fun hnil => ?_
    have hend := hrest.next
    rw [hnil] at hend
    have := hend.length_le
    omega

variable {vfs}

theorem getMountPoint_eq (hw : vfs.WellFormed) (hcs : ∀ c ∈ cs, IsName c) (hne : cs ≠ []) :
    ∃ found : MountPoint, found.Is (joined 0 cs ++ [0]) cs.length (vfs.mountPoint cs) ∧
      getMountPoint vfs (joined 0 cs ++ [0]) cs.length 1 =
        .ok (if found.last = 0 then .null else .node (vfs.file found.last),
          found.outpath, found.outdepth) := by
  have hrest := rest_chopped cs
  have hfirst : CString ((joined 0 cs ++ [0]).drop 0) [] := by
    refine ⟨by simp, (joined 0 cs ++ [0]).tail, ?_⟩
    cases cs <;> simp
  have hskip : skipStrings (joined 0 cs ++ [0]) (cs.length + 1) 0 =
      .ok (joined 0 cs ++ [0]).length := by
    rw [skipStrings, strlen_eq hfirst]
    exact skipStrings_eq hcs hrest fun h => absurd h hne
  have hcount := hrest.length_lt (by simp)
  have hstart : MountPoint.Is ⟨vfs.fsRoot, 1, 0⟩ (joined 0 cs ++ [0]) cs.length
      (vfs.fsRoot, cs) := ⟨rfl, hrest, Nat.zero_add _⟩
  obtain ⟨found, hrun, hfound⟩ := mountWalk_eq (k := (joined 0 cs ++ [0]).length + 1) hw.names hcs
    hrest (by omega) (Nat.add_comm 1 cs.length) hstart
  refine ⟨found, hfound, ?_⟩
  rw [getMountPoint, hskip]
  show (mountWalk _ _ _ _ _ _ _ >>= _) = _
  rw [hrun]
  show (if found.last = 0 then _ else _) = _
  split <;> rfl

theorem mountPoint_suffix (vfs : Mounts ρ) (cs : List (List UInt8)) :
    (vfs.mountPoint cs).2 <:+ cs :=
  Tree.deepest_suffix (List.suffix_refl cs) (List.suffix_refl cs)

section Search

variable {cb junk} {reopen : Reopen ρ} {reopen' : List (List UInt8) → Nat → Nat → VfsM (FilePtr ρ)}
  {flags symlinkDepth : Nat} {before rest : List (List UInt8)}

def SameReopen (reopen : Reopen ρ)
    (reopen' : List (List UInt8) → Nat → Nat → VfsM (FilePtr ρ)) : Prop :=
  ∀ {b bw s w} flags symlinkDepth, CString b s → CString bw w →
    reopen b flags symlinkDepth bw =
      reopen' ((tokens pathSeparator s).foldl pathStep (startComponents w s)) flags symlinkDepth

private theorem loadByte_malloc (buf : Buf) (n i : Nat) :
    loadByte (malloc buf n) i = if i < n then .ok (buf i) else .error .overrun := by
  rw [loadByte, malloc]
  by_cases hi : i < n
  · simp [hi]
  · simp [hi]

private theorem startComponents_joined (hb : ∀ c ∈ before, IsName c) (s : List UInt8) :
    (tokens pathSeparator s).foldl pathStep (startComponents (joined pathSeparator before) s) =
      targetComponents before s := by
  rw [startComponents, targetComponents,
    tokens_joined fun c hc => ⟨(hb c hc).ne_nil, (hb c hc).no_separator⟩]

theorem followLink_eq (hsame : SameReopen reopen reopen') (hb : ∀ c ∈ before, IsName c)
    {pathLen : Nat} (hlen : pathLen + 1 = (joined 0 (before ++ rest) ++ [0]).length) (leaf : Prop)
    [Decidable leaf] (f : File ρ) :
    followLink cb junk reopen (joined 0 (before ++ rest) ++ [0]) pathLen flags symlinkDepth
        before.length leaf f =
      walkLink cb junk reopen' flags symlinkDepth leaf before f := by
  rw [followLink, walkLink]
  by_cases hnofollow : flags &&& oNofollow ≠ 0 ∧ leaf
  · rw [if_pos hnofollow, if_pos hnofollow]
    rfl
  rw [if_neg hnofollow, if_neg hnofollow]
  by_cases hdepth : symlinkDepth ≥ maxSymlinkDepth
  · rw [if_pos hdepth, if_pos hdepth]
    rfl
  rw [if_neg hdepth, if_neg hdepth]
  by_cases hread : f.readlinkFn = 0
  · rw [if_pos hread, if_pos hread]
  rw [if_neg hread, if_neg hread]
  rcases cb.readlink f.readlinkFn f junk with ⟨len, buf⟩
  dsimp only
  by_cases hneg : len < 0
  · rw [if_pos hneg, if_pos hneg]
    rfl
  rw [if_neg hneg, if_neg hneg, loadByte_malloc]
  by_cases hbig : len.toNat ≥ maxSymlinkSize
  · rw [if_neg (by omega), if_pos hbig]
    rfl
  rw [if_pos (by omega), if_neg hbig]
  show (if buf len.toNat ≠ 0 then _ else _) = _
  by_cases hnul : buf len.toNat ≠ 0
  · rw [if_pos hnul, if_pos hnul]
    rfl
  rw [if_neg hnul, if_neg hnul]
  obtain ⟨bw, hrel, hbw⟩ := relativePath_eq junk before rest hb hlen
  have hmem : 0 ∈ malloc buf maxSymlinkSize := by
    rw [malloc, List.mem_map]
    exact ⟨len.toNat, List.mem_range.2 (by omega), not_not.1 hnul⟩
  have htext : CString (malloc buf maxSymlinkSize) (linkText buf) := cString_takeWhile hmem
  rw [hrel]
  show (reopen (malloc buf maxSymlinkSize) 0 (symlinkDepth + 1) bw >>= _) = _
  rw [hsame _ _ htext hbw, startComponents_joined hb]
  rfl

theorem fsFinddir_node {b : Block} (hname : CString b c) (f : File ρ) :
    fsFinddir cb (.node f) b = .ok (fsFinddirNode cb f c) := by
  rw [fsFinddir, strlen_eq hname]
  obtain ⟨_, r, rfl⟩ := hname
  show Except.ok (fsFinddirNode cb f ((c ++ 0 :: r).take c.length)) = _
  rw [List.take_left]

private theorem walkLink_congr {leaf leaf' : Prop} [Decidable leaf] [Decidable leaf']
    (h : leaf ↔ leaf') (f : File ρ) :
    walkLink cb junk reopen' flags symlinkDepth leaf before f =
      walkLink cb junk reopen' flags symlinkDepth leaf' before f := by
  simp only [walkLink, h]

theorem searchFrom_eq (hsame : SameReopen reopen reopen') {all : List (List UInt8)}
    (hall : before ++ rest = all) (hcs : ∀ c ∈ all, IsName c) (hne : rest ≠ []) {pathLen i : Nat}
    (hlen : pathLen + 1 = (joined 0 all ++ [0]).length)
    (hrest : Rest (joined 0 all ++ [0]) i rest) (node : FilePtr ρ) :
    searchFrom cb junk reopen (joined 0 all ++ [0]) pathLen flags symlinkDepth
        all.length rest.length before.length node i =
      walk cb junk reopen' flags symlinkDepth before node rest := by
  induction rest generalizing before i node with
  | nil => exact absurd rfl hne
  | cons c rest ih =>
    have hb : ∀ d ∈ before, IsName d := fun d hd => hcs d (by simp [← hall, hd])
    have hname := hrest.cString (hcs c (by simp [← hall])).no_nul
    have hleaf : before.length = all.length - 1 ↔ rest = [] := by
      rw [← List.length_eq_zero_iff, ← hall]
      simp
    rw [List.length_cons, searchFrom, walk]
    cases node with
    | null => rfl
    | err k => rfl
    | node f =>
      rw [fsFinddir_node hname, fsFinddir_node (cString_terminated hname.1)]
      cases hnext : fsFinddirNode cb f c with
      | none => rfl
      | some g =>
        have hstep : (if g.flags &&& fsSymlink ≠ 0 ∧ ¬ (flags &&& oNofollow ≠ 0 ∧
              flags &&& oPath ≠ 0 ∧ before.length = all.length - 1) then
            followLink cb junk reopen (joined 0 all ++ [0]) pathLen flags symlinkDepth
              before.length (before.length = all.length - 1) g
            else pure (.go (.node g))) =
            if g.flags &&& fsSymlink ≠ 0 ∧
                ¬ (flags &&& oNofollow ≠ 0 ∧ flags &&& oPath ≠ 0 ∧ rest = []) then
              walkLink cb junk reopen' flags symlinkDepth (rest = []) before g
            else pure (.go (.node g)) := by
          subst hall
          rw [followLink_eq hsame hb hlen, walkLink_congr hleaf]
          simp only [hleaf]
        show ((if g.flags &&& fsSymlink ≠ 0 ∧ ¬ (flags &&& oNofollow ≠ 0 ∧
              flags &&& oPath ≠ 0 ∧ before.length = all.length - 1) then
            followLink cb junk reopen (joined 0 all ++ [0]) pathLen flags symlinkDepth
              before.length (before.length = all.length - 1) g
            else pure (.go (.node g))) >>= _) = (_ >>= _)
        rw [hstep]
        refine congrArg _ (funext fun outcome => ?_)
        cases outcome with
        | done p => rfl
        | go node =>
          show (if before.length = all.length - 1 then _ else _) = _
          cases rest with
          | nil =>
            rw [if_pos (hleaf.2 rfl)]
            rfl
          | cons d rest =>
            rw [if_neg fun h => List.cons_ne_nil d rest (hleaf.1 h), strlen_eq hname]
            have hall' : (before ++ [c]) ++ d :: rest = all := by simpa using hall
            have hrec := ih hall' (by simp) hrest.next node
            rw [List.length_append] at hrec
            exact hrec

end Search

theorem isName_resolved {s w : List UInt8} (hs : 0 ∉ s)
    (hw : s ≠ [] → s.head? ≠ some pathSeparator → 0 ∉ w) :
    ∀ c ∈ (tokens pathSeparator s).foldl pathStep (startComponents w s), IsName c := by
  intro c hc
  rcases mem_foldl_pathStep hc with hc | ⟨hc, _⟩
  · rw [startComponents] at hc
    split at hc
    · next hrel =>
      obtain ⟨hne, hsep, hsub⟩ := mem_tokens hc
      exact ⟨hne, fun h0 => hw hrel.1 hrel.2 (hsub h0), hsep⟩
    · exact absurd hc List.not_mem_nil
  · obtain ⟨hne, hsep, hsub⟩ := mem_tokens hc
    exact ⟨hne, fun h0 => hs (hsub h0), hsep⟩

private theorem count_separators (hcs : ∀ c ∈ cs, IsName c) :
    (joined pathSeparator cs).count pathSeparator = cs.length := by
  induction cs with
  | nil => rfl
  | cons c cs ih =>
    have hc := List.count_eq_zero_of_not_mem (hcs c (by simp)).no_separator
    rw [joined_cons, List.count_append, ih fun d hd => hcs d (by simp [hd]), List.count_cons_self,
      hc, List.length_cons]
    omega

private theorem length_joined_chopped :
    (joined pathSeparator cs).length + 1 = (joined 0 cs ++ [0]).length := by
  simp [joined]

theorem kopenRecur_eq (hw : vfs.WellFormed) {k : Nat} {b bw : Block} {s w : List UInt8}
    (flags symlinkDepth : Nat) (hs : CString b s)
    (hbw : s ≠ [] → s.head? ≠ some pathSeparator → CString bw w) :
    kopenRecur cb junk vfs k (some b) flags symlinkDepth bw =
      openPath cb junk vfs k ((tokens pathSeparator s).foldl pathStep (startComponents w s)) flags
        symlinkDepth := by
  induction k generalizing b bw s w flags symlinkDepth with
  | zero => rfl
  | succ k ih =>
    have hnames := isName_resolved hs.1 fun h h' => (hbw h h').1
    rw [kopenRecur, canonicalizePath_eq junk w hbw hs]
    generalize (tokens pathSeparator s).foldl pathStep (startComponents w s) = cs at hnames
    have hsame : SameReopen (fun b => kopenRecur cb junk vfs k (some b))
        (openPath cb junk vfs k) := fun flags symlinkDepth hb hbw =>
      ih flags symlinkDepth hb fun _ _ => hbw
    have hnul : 0 ∉ joinPath cs := nul_notMem_joinPath fun c hc => (hnames c hc).no_nul
    show (liftString (strlen (joinPath cs ++ [0])) >>= _) = _
    rw [strlen_eq (cString_terminated hnul), openPath]
    show (if (joinPath cs).length = 1 then _ else _) = _
    by_cases hnil : cs = []
    · subst hnil
      have hone : (joinPath []).length = 1 := rfl
      rw [if_pos hone, if_pos rfl]
      rfl
    have hjoin : joinPath cs = joined pathSeparator cs := if_neg hnil
    have hlong : (joined pathSeparator cs).length ≠ 1 := by
      obtain ⟨c, cs, rfl⟩ := List.exists_cons_of_ne_nil hnil
      have hpos := List.length_pos_of_ne_nil (hnames c (by simp)).ne_nil
      rw [joined_cons, List.length_append, List.length_cons]
      omega
    obtain ⟨found, hfound, hmount⟩ := getMountPoint_eq hw hnames hnil
    have hcount : ((joined pathSeparator cs ++ [0]).take (joined pathSeparator cs).length).count
        pathSeparator = cs.length := by
      rw [List.take_left, count_separators hnames]
    rw [hjoin, if_neg hlong, if_neg hnil, hcount,
      chop_joined fun c hc => (hnames c hc).no_separator, hmount]
    obtain ⟨last, outpath, outdepth⟩ := found
    obtain ⟨hlast, hrest, hdepth⟩ := hfound
    obtain ⟨before, hbefore⟩ := mountPoint_suffix vfs cs
    generalize vfs.mountPoint cs = point at hlast hrest hdepth hbefore
    obtain ⟨last', rest⟩ := point
    dsimp only at hlast hrest hdepth hbefore
    subst hlast
    have hlen := congrArg List.length hbefore
    rw [List.length_append] at hlen
    have htake : cs.take (cs.length - rest.length) = before := by
      rw [← hbefore, List.length_append, Nat.add_sub_cancel, List.take_left]
    have hcounter : outdepth = before.length := by omega
    by_cases hlast0 : last = 0
    · rw [if_pos hlast0]
      show _ = if last = 0 then _ else _
      rw [if_pos hlast0]
      rfl
    rw [if_neg hlast0]
    show (if outpath ≥ (joined pathSeparator cs).length then _ else _) = if last = 0 then _ else _
    rw [if_neg hlast0, htake]
    cases rest with
    | nil =>
      have hend := hrest.length_le
      rw [← length_joined_chopped] at hend
      rw [if_pos (by omega)]
      rfl
    | cons c rest =>
      have hlt := hrest.lt_length
      rw [← length_joined_chopped] at hlt
      have hpos := List.length_pos_of_ne_nil (hnames c (by simp [← hbefore])).ne_nil
      have hleft : cs.length - outdepth = (c :: rest).length := by omega
      rw [if_neg (by omega), hleft, hcounter]
      exact searchFrom_eq hsame hbefore hnames (by simp) length_joined_chopped hrest _

end KernelTest.Vfs
