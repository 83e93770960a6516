import KernelTest.Ext2.BlockTables

/-!
# Block numbers that are set and looked up

For which file blocks `get_block_number` finds what `set_block_number` stored, and which others it
still finds where they were.
-/

namespace KernelTest.Ext2

open Ext2Fs

theorem Place.cases_table (pl : Place) : (∃ i, pl = .direct i) ∨ (∃ t e, pl.table = some (t, e)) ∨
    ¬ pl.Exists := by
  cases pl with
  | direct i => exact Or.inl ⟨i, rfl⟩
  | single i => exact Or.inr (Or.inl ⟨_, _, rfl⟩)
  | double c d => exact Or.inr (Or.inl ⟨_, _, rfl⟩)
  | triple d f g => exact Or.inr (Or.inl ⟨_, _, rfl⟩)
  | outOfRange => exact Or.inr (Or.inr id)
  | divideByZero => exact Or.inr (Or.inr id)

theorem Place.exists_of_table {pl : Place} {te : Table × Nat} (h : pl.table = some te) :
    pl.Exists := by
  cases pl with
  | outOfRange => cases h
  | divideByZero => cases h
  | _ => trivial

theorem Place.index_lt {p : Nat} {pl : Place} (hin : pl.InTable p) {t : Table} {e : Nat}
    (h : pl.table = some (t, e)) : e < p := by
  cases pl <;> cases h
  · exact hin
  · exact hin.2
  · exact hin.2.2

section Lookups

variable {fs : Ext2Fs} {x : Buf}

theorem lookup_table (h : PointersOk fs) {pl : Place} (hin : pl.InTable fs.pointerPerBlock)
    {t : Table} {e : Nat} (hte : pl.table = some (t, e))
    (hroot : Inode.block x (ext2DirectBlocks + tableRoot t) ≠ 0) :
    fs.lookup x pl = fs.entry (fs.followAt x t) e := by
  cases pl <;> cases hte
  · exact lookup_single h hin hroot
  · exact lookup_double h hin.1 hin.2 hroot
  · exact lookup_triple h hin.1 hin.2.1 hin.2.2 hroot

theorem root_of_exists {t : Table} (h : fs.tableAt x t ≠ 0) :
    Inode.block x (ext2DirectBlocks + tableRoot t) ≠ 0 := by
  induction t with
  | root k => exact h
  | child t i ih => exact ih (tableAt_parent h)

theorem lookup_of_exists (h : PointersOk fs) {pl : Place} (hin : pl.InTable fs.pointerPerBlock)
    {t : Table} {e : Nat} (hte : pl.table = some (t, e)) (hne : fs.tableAt x t ≠ 0) :
    fs.lookup x pl = fs.entry (fs.tableAt x t) e := by
  rw [lookup_table h hin hte (root_of_exists hne), followAt_of_exists hne]

theorem lookup_congr {fs' : Ext2Fs} {x' : Buf} (h : PointersOk fs) (h' : PointersOk fs')
    (hp : fs'.pointerPerBlock = fs.pointerPerBlock)
    (htables : ∀ t, IsTable t → fs'.tableAt x' t = fs.tableAt x t) {pl : Place}
    (hin : pl.InTable fs.pointerPerBlock) {t : Table} {e : Nat} (hte : pl.table = some (t, e))
    (hroot : Inode.block x (ext2DirectBlocks + tableRoot t) ≠ 0)
    (hentry : fs.tableAt x t ≠ 0 →
      fs'.entry (fs.tableAt x t) e = fs.entry (fs.tableAt x t) e) :
    fs'.lookup x' pl = fs.lookup x pl := by
  -- an entry of a table of tables is itself a table
  have hinner : ∀ t i, IsTable t → 0 < tableLevel t → fs.tableAt x t ≠ 0 →
      fs'.entry (fs.tableAt x t) i = fs.entry (fs.tableAt x t) i := by
    intro t i ht hlevel hne
    have hchild := htables (.child t i) ⟨ht, hlevel⟩
    rwa [tableAt_child hne, tableAt_child (by rwa [htables t ht]), htables t ht] at hchild
  have hfollow : ∀ t, IsTable t → Inode.block x (ext2DirectBlocks + tableRoot t) ≠ 0 →
      fs'.followAt x' t = fs.followAt x t := by
    intro t
    induction t with
    | root k => exact fun ht _ => htables (.root k) ht
    | child t i ih =>
      rintro ⟨ht, hlevel⟩ hne
      obtain ⟨hstop, hcases⟩ := stopAt_cases fs x ht
      have hlevel' : 0 < tableLevel (fs.stopAt x t) := by
        rcases hcases with heq | hlt
        · rwa [heq]
        · omega
      have hne' : Inode.block x (ext2DirectBlocks + tableRoot t) ≠ 0 := hne
      have hsame := hinner _ i hstop hlevel' (stopAt_exists fs hne')
      rw [followAt, followAt, ih ht hne', follow, follow, followAt_eq hne', hsame]
  obtain ⟨ht, hleaf⟩ := Place.isTable hte
  obtain ⟨hstop, hcases⟩ := stopAt_cases fs x ht
  have hne' := stopAt_exists fs hroot
  have hroot' : Inode.block x' (ext2DirectBlocks + tableRoot t) ≠ 0 := by
    have hr := htables (.root (tableRoot t)) (isTable_root ht)
    rw [tableAt_root, tableAt_root] at hr
    rwa [hr]
  rw [lookup_table h hin hte hroot, lookup_table h' (by rwa [hp]) hte hroot', hfollow t ht hroot,
    followAt_eq hroot]
  rcases hcases with heq | hlt
  · rw [heq] at hne' ⊢
    exact hentry hne'
  · exact hinner _ e hstop (by omega) hne'

end Lookups

section Stores

variable {Inv : (Nat → Prop) → Nat → Ext2Fs → Prop} (hsrc : BlockSource Inv)
variable {U V : Nat → Prop} {k n : Nat} {fs fs' : Ext2Fs} {x x' tmp : Buf} {t : Table}

structure EntryStored (V : Nat → Prop) (fs : Ext2Fs) (x : Buf) (t : Table) (e v : Nat)
    (fs' : Ext2Fs) : Prop where
  tables : ∀ t', IsTable t' → fs'.tableAt x t' = fs.tableAt x t'
  entries : ∀ t' e', IsTable t' → fs.tableAt x t' ≠ 0 →
    fs'.entry (fs.tableAt x t') e' = if t' = t ∧ e' = e then v else fs.entry (fs.tableAt x t') e'
  kept : Kept (fun c _ => c = fs.tableAt x t) V fs fs'

include hsrc

theorem Reaches.store (h : Reaches Inv n U k fs x t V fs' x') (ht : IsTable t)
    (hleaf : tableLevel t = 0) {e v : Nat} (he : 4 * e + 4 ≤ fs'.blockSize) (hv : v < 4294967296)
    (htmp : SameBytes fs'.blockSize tmp (fs'.block (fs'.tableAt x' t))) :
    Inv V (k - fs.missing x t) (fs'.store (fs'.tableAt x' t) (setTableEntry tmp e v)) ∧
      EntryStored V fs' x' t e v (fs'.store (fs'.tableAt x' t) (setTableEntry tmp e v)) := by
  have htree := h.added.tree
  have huse := htree.used t ht h.table
  have hs := hsrc.blockSize h.inv
  have hall := fun c hc => hsrc.used h.inv (c := c) hc
  have hentries : ∀ t' e', IsTable t' → fs'.tableAt x' t' ≠ 0 →
      (fs'.store (fs'.tableAt x' t) (setTableEntry tmp e v)).entry (fs'.tableAt x' t') e' =
        if t' = t ∧ e' = e then v else fs'.entry (fs'.tableAt x' t') e' := by
    intro t' e' ht' hne
    rw [entry_storeEntry hs huse hall htmp he hv (htree.used t' ht' hne) e']
    by_cases heq : t' = t
    · rw [heq]
      simp only [true_and]
    · rw [if_neg fun hbad => heq (htree.distinct t' t ht' ht hne hbad.1),
        if_neg fun hbad => heq hbad.1]
  have hstores : PointerMap.StoresEntry IsTable (fs'.pointers x')
      ((fs'.store (fs'.tableAt x' t) (setTableEntry tmp e v)).pointers x') t e v := by
    refine ⟨?_, fun _ => rfl, ?_, ?_⟩
    · rintro i ⟨-, hlevel⟩
      omega
    · exact (hentries t e ht h.table).trans (if_pos ⟨rfl, rfl⟩)
    · intro t' i ht' hne hor
      refine (hentries t' i ht' hne).trans (if_neg ?_)
      rintro ⟨heq, hi⟩
      rcases hor with hbad | hbad
      · exact hbad heq
      · exact hbad hi
  refine ⟨hsrc.store _ h.inv huse, ?_, hentries, ?_⟩
  · exact fun t' ht' => hstores.tableAt_eq isTable_closed ht'
  · exact (kept_storeEntry hs huse hall htmp).mono fun _ _ _ hw => hw.1

end Stores

/-- The entry of a place is in the inode, or in a table that exists. -/
def Ext2Fs.HasEntry (fs : Ext2Fs) (x : Buf) (pl : Place) : Prop :=
  (∃ i, pl = .direct i) ∨ ∃ t e, pl.table = some (t, e) ∧ fs.tableAt x t ≠ 0

/-- The missing tables on the way to a place. -/
def Ext2Fs.missingFor (fs : Ext2Fs) (x : Buf) (pl : Place) : Nat :=
  match pl.table with
  | some (t, _) => fs.missing x t
  | none => 0

/-- Direct, single- and double-indirect blocks, for which `set_block_number` stores `rblock`. -/
def Place.Settable : Place → Prop
  | .direct _ => True
  | .single _ => True
  | .double _ _ => True
  | _ => False

/-- Block `j` of the inode is set to `r`; the blocks that had an entry are where they were. -/
structure BlockSet (n : Nat) (U : Nat → Prop) (fs : Ext2Fs) (x : Buf) (j r : Nat) (V : Nat → Prop)
    (fs' : Ext2Fs) (x' : Buf) : Prop where
  sub : ∀ c, U c → V c
  tree : BlockTree V n fs' x'
  same : ∀ t, IsTable t → fs.tableAt x t ≠ 0 → fs'.tableAt x' t = fs.tableAt x t
  new : ∀ t, IsTable t → fs.tableAt x t = 0 → fs'.tableAt x' t ≠ 0 →
    (∃ t' e, (place fs.pointerPerBlock j).table = some (t', e) ∧ OnPath t' t) ∧
      ¬ U (fs'.tableAt x' t)
  entry : fs'.HasEntry x' (place fs.pointerPerBlock j)
  self : fs'.lookup x' (place fs.pointerPerBlock j) = r
  direct : ∀ i, i < ext2DirectBlocks → place fs.pointerPerBlock j ≠ .direct i →
    Inode.block x' i = Inode.block x i
  leaf : ∀ t e, IsTable t → tableLevel t = 0 → fs.tableAt x t ≠ 0 →
    (place fs.pointerPerBlock j).table ≠ some (t, e) →
    fs'.entry (fs.tableAt x t) e = fs.entry (fs.tableAt x t) e
  kept : Kept (fun c i => fs.SlotBytes n c i ∨ ∃ t, IsTable t ∧ c = fs.tableAt x t) U fs fs'

def SameButPointers (x x' : Buf) : Prop := ∀ i, i < 40 ∨ 100 ≤ i → x' i = x i

theorem storedIn_of_settable {pl : Place} (h : pl.Settable) (table r : Nat) :
    storedIn table pl r = r := by
  cases pl with
  | triple d f g => cases h
  | _ => rfl

theorem pointers_setBlock (fs : Ext2Fs) (x : Buf) {i : Nat} (hi : i < ext2DirectBlocks) (r : Nat) :
    fs.pointers (Inode.setBlock x i r) = fs.pointers x := by
  have hroot : ∀ k, Inode.block (Inode.setBlock x i r) (ext2DirectBlocks + k) =
      Inode.block x (ext2DirectBlocks + k) := by
    intro k
    rw [Inode.block_setBlock, if_neg (by omega)]
  rw [pointers, pointers]
  simp only [hroot]

theorem storedIn_of_not_settable {pl : Place} (h : ¬ pl.Settable) {te : Table × Nat}
    (hte : pl.table = some te) (table r : Nat) : storedIn table pl r = table := by
  cases pl with
  | triple d f g => rfl
  | outOfRange => cases hte
  | divideByZero => cases hte
  | _ => exact absurd trivial h

theorem storedIn_lt (fs : Ext2Fs) (x : Buf) (t : Table) (pl : Place) {r : Nat}
    (hr : r < 4294967296) : storedIn (fs.tableAt x t) pl r < 4294967296 := by
  unfold storedIn
  split
  · exact tableAt_lt fs x t
  · exact hr

section SetBlock

variable {U : Nat → Prop} {k n : Nat} {fs : Ext2Fs} {x : Buf} {j r : Nat}
variable (hp : PointersOk fs) (htree : BlockTree U n fs x)
variable (hj : j < 4294967296) (hr : r < 4294967296)

theorem setBlockNumber_direct {i : Nat} (hpl : place fs.pointerPerBlock j = .direct i) :
    setBlockNumber x n j r fs = .ok ((.success, Inode.setBlock x i r), fs) := by
  rw [setBlockNumber, Exec.get_bind, hpl]
  rfl

theorem setBlockNumber_outOfRange (hpl : place fs.pointerPerBlock j = .outOfRange) :
    setBlockNumber x n j r fs = .ok ((.badBlock, x), fs) := by
  rw [setBlockNumber, Exec.get_bind, hpl]
  rfl

theorem setBlockNumber_fault (hpl : place fs.pointerPerBlock j = .divideByZero) :
    setBlockNumber x n j r fs = .error .divideByZero := by
  rw [setBlockNumber, Exec.get_bind, hpl]
  rfl

include hp htree hj hr

theorem blockSet_direct {i : Nat} (hpl : place fs.pointerPerBlock j = .direct i) :
    BlockSet n U fs x j r U fs (Inode.setBlock x i r) ∧
      SameButPointers x (Inode.setBlock x i r) := by
  have hi : i < ext2DirectBlocks := by
    have hin := place_inTable hp hj
    rwa [hpl] at hin
  have htables : ∀ t, fs.tableAt (Inode.setBlock x i r) t = fs.tableAt x t := by
    intro t
    rw [tableAt, pointers_setBlock fs x hi r, tableAt]
  refine ⟨⟨fun _ hc => hc, ⟨?_, ?_, ?_⟩, fun t _ _ => htables t, ?_, Or.inl ⟨i, hpl⟩, ?_, ?_, ?_,
    Kept.refl _ U fs⟩, ?_⟩
  · intro t ht hne
    rw [htables] at hne ⊢
    exact htree.used t ht hne
  · intro t ht
    rw [htables]
    exact htree.slot t ht
  · rw [pointers_setBlock fs x hi r]
    exact htree.distinct
  · intro t _ hzero hne
    exact absurd (htables t ▸ hzero) hne
  · rw [hpl, lookup, Inode.block_setBlock, if_pos rfl, u32_of_lt hr]
  · intro i' _ hne
    rw [Inode.block_setBlock, if_neg]
    exact fun heq => hne (heq ▸ hpl)
  · exact fun t e _ _ _ _ => rfl
  · intro b hb
    unfold ext2DirectBlocks at hi
    exact putLE_outside x (by omega)

variable {Inv : (Nat → Prop) → Nat → Ext2Fs → Prop} (hsrc : BlockSource Inv) (h : Inv U k fs)
variable (hok : SlotOk fs n) (hslot : U (fs.slotBlock n))

include hsrc h hok hslot

theorem blockSet_table {t : Table} {e : Nat}
    (hte : (place fs.pointerPerBlock j).table = some (t, e)) (hk : fs.missing x t ≤ k) :
    ∃ V fs' x' v, setBlockNumber x n j r fs = .ok ((.success, x'), fs') ∧
      Inv V (k - fs.missing x t) fs' ∧ BlockSet n U fs x j v V fs' x' ∧
        SameButPointers x x' ∧
        v = storedIn (fs'.tableAt x' t) (place fs.pointerPerBlock j) r := by
  obtain ⟨V, fs₁, x', tmp, hreach, htmp, hrun⟩ :=
    (setBlockNumber_setsEntry hsrc h hp htree hok hslot r hj hte).2 hk
  obtain ⟨ht, hleaf⟩ := Place.isTable hte
  have hadded := hreach.added
  have hpp := hadded.kept.pointerPerBlock_eq
  have hp₁ := hadded.kept.pointersOk hp
  have hfits : 4 * e + 4 ≤ fs₁.blockSize :=
    entry_fits hp₁ (by rw [hpp]; exact Place.index_lt (place_inTable hp hj) hte)
  have hv := storedIn_lt fs₁ x' t (place fs.pointerPerBlock j) hr
  generalize hval : storedIn (fs₁.tableAt x' t) (place fs.pointerPerBlock j) r = v at hrun hv
  obtain ⟨hinv, hstored⟩ := hreach.store hsrc ht hleaf hfits hv htmp
  generalize fs₁.store (fs₁.tableAt x' t) (setTableEntry tmp e v) = fs' at hrun hinv hstored
  have hp' := hstored.kept.pointersOk hp₁
  have hpp' : fs'.pointerPerBlock = fs.pointerPerBlock := by
    rw [hstored.kept.pointerPerBlock_eq, hpp]
  have hself : fs'.tableAt x' t ≠ 0 := by
    rw [hstored.tables t ht]
    exact hreach.table
  refine ⟨V, fs', x', v, hrun, hinv, ⟨hadded.sub, ⟨?_, ?_, ?_⟩, ?_, ?_, Or.inr ⟨t, e, hte, hself⟩, ?_, ?_,
    ?_, ?_⟩, ?_, ?_⟩
  · intro t' ht' hne
    rw [hstored.tables t' ht'] at hne ⊢
    exact hadded.tree.used t' ht' hne
  · intro t' ht'
    rw [hstored.tables t' ht', hstored.kept.slotBlock_eq]
    exact hadded.tree.slot t' ht'
  · intro t' t'' ht' ht'' hne heq
    have hd := hadded.tree.distinct t' t'' ht' ht''
    have h1 := hstored.tables t' ht'
    have h2 := hstored.tables t'' ht''
    unfold tableAt at h1 h2
    rw [h1] at hne heq
    rw [h2] at heq
    exact hd hne heq
  · intro t' ht' hne
    rw [hstored.tables t' ht', hadded.same t' ht' hne]
  · intro t' ht' hzero hne
    rw [hstored.tables t' ht'] at hne ⊢
    obtain ⟨hon, hunused⟩ := hadded.new t' ht' hzero hne
    exact ⟨⟨t, e, hte, hon⟩, hunused⟩
  · have hin : (place fs.pointerPerBlock j).InTable fs'.pointerPerBlock := by
      rw [hpp']
      exact place_inTable hp hj
    rw [lookup_of_exists hp' hin hte hself, hstored.tables t ht,
      hstored.entries t e ht hreach.table, if_pos ⟨rfl, rfl⟩]
  · intro i hi _
    exact hadded.inode.block hi
  · intro t' e' ht' hleaf' hex hne
    have hex₁ := hadded.exists_of_exists ht' hex
    have hentry := hstored.entries t' e' ht' hex₁
    rw [if_neg, hadded.same t' ht' hex] at hentry
    · rw [hentry]
      exact hadded.leaf t' e' ht' hleaf' hex
    · rintro ⟨rfl, rfl⟩
      exact hne hte
  · have hfirst : Kept (fun c i => fs.SlotBytes n c i ∨ ∃ t, IsTable t ∧ c = fs.tableAt x t) U
        fs fs₁ := by
      apply hadded.kept.mono
      rintro c i - (hslot | ⟨t, ht, -, heq⟩)
      · exact Or.inl hslot
      · exact Or.inr ⟨t, ht, heq⟩
    apply hfirst.trans hstored.kept hadded.sub
    intro c i hc heq
    right
    refine ⟨t, ht, ?_⟩
    by_cases hzero : fs.tableAt x t = 0
    · exact absurd (heq ▸ hc) (hadded.new t ht hzero hreach.table).2
    · rw [heq, hadded.same t ht hzero]
  · intro b hb
    exact hadded.inode b (by omega)
  · rw [hstored.tables t ht, hval]

theorem setBlockNumber_sets (hex : (place fs.pointerPerBlock j).Exists)
    (hk : fs.missingFor x (place fs.pointerPerBlock j) ≤ k) :
    ∃ V fs' x' v, setBlockNumber x n j r fs = .ok ((.success, x'), fs') ∧
      Inv V (k - fs.missingFor x (place fs.pointerPerBlock j)) fs' ∧
      BlockSet n U fs x j v V fs' x' ∧ SameButPointers x x' ∧
      ((place fs.pointerPerBlock j).Settable → v = r) ∧
      (¬ (place fs.pointerPerBlock j).Settable → ∃ t e,
        (place fs.pointerPerBlock j).table = some (t, e) ∧ v = fs'.tableAt x' t) := by
  rcases Place.cases_table (place fs.pointerPerBlock j) with ⟨i, hpl⟩ | ⟨t, e, hte⟩ | hnot
  · obtain ⟨hblock, hinode⟩ := blockSet_direct (n := n) hp htree hj hr hpl
    refine ⟨U, fs, _, r, setBlockNumber_direct hpl, ?_, hblock, hinode, fun _ => rfl, ?_⟩
    · rw [hpl]
      exact h
    · rw [hpl]
      exact fun hnot => absurd trivial hnot
  · rw [missingFor, hte] at hk ⊢
    obtain ⟨V, fs', x', v, hrun, hinv, hblock, hinode, hv⟩ :=
      blockSet_table hp htree hj hr hsrc h hok hslot hte hk
    refine ⟨V, fs', x', v, hrun, hinv, hblock, hinode, ?_, ?_⟩
    · intro hset
      rw [hv, storedIn_of_settable hset]
    · intro hset
      refine ⟨t, e, rfl, ?_⟩
      rw [hv, storedIn_of_not_settable hset hte]
  · exact absurd hex hnot

end SetBlock

namespace BlockSet

variable {n : Nat} {U V : Nat → Prop} {fs fs' : Ext2Fs} {x x' : Buf} {j r : Nat}

theorem pointersOk (h : BlockSet n U fs x j r V fs' x') (hp : PointersOk fs) : PointersOk fs' :=
  h.kept.pointersOk hp

theorem pointerPerBlock_eq (h : BlockSet n U fs x j r V fs' x') :
    fs'.pointerPerBlock = fs.pointerPerBlock := h.kept.pointerPerBlock_eq

theorem others (h : BlockSet n U fs x j r V fs' x') (hp : PointersOk fs) (hj : j < 4294967296)
    {i : Nat} (hi : i < 4294967296) (hne : i ≠ j)
    (hentry : fs.HasEntry x (place fs.pointerPerBlock i)) :
    fs'.HasEntry x' (place fs.pointerPerBlock i) ∧
      fs'.lookup x' (place fs.pointerPerBlock i) = fs.lookup x (place fs.pointerPerBlock i) := by
  have hin := place_inTable hp hi
  rcases hentry with ⟨d, hd⟩ | ⟨t, e, hte, hex⟩
  · refine ⟨Or.inl ⟨d, hd⟩, ?_⟩
    rw [hd] at hin ⊢
    apply h.direct d hin
    intro heq
    rw [← hd] at heq
    exact hne (place_injective hp hi hj (by rw [hd]; trivial) heq.symm)
  · obtain ⟨ht, hleaf⟩ := Place.isTable hte
    have hex' : fs'.tableAt x' t ≠ 0 := by rwa [h.same t ht hex]
    have hin' : (place fs.pointerPerBlock i).InTable fs'.pointerPerBlock := by
      rwa [h.pointerPerBlock_eq]
    refine ⟨Or.inr ⟨t, e, hte, hex'⟩, ?_⟩
    rw [lookup_of_exists (h.pointersOk hp) hin' hte hex', lookup_of_exists hp hin hte hex,
      h.same t ht hex]
    apply h.leaf t e ht hleaf hex
    intro heq
    exact hne (place_injective hp hi hj (Place.exists_of_table hte)
      (Place.table_injective hte heq))

theorem tables_of_entry (h : BlockSet n U fs x j r V fs' x')
    (hentry : fs.HasEntry x (place fs.pointerPerBlock j)) {t : Table} (ht : IsTable t) :
    fs'.tableAt x' t = fs.tableAt x t := by
  by_cases hzero : fs.tableAt x t = 0
  · rw [hzero]
    by_contra hne
    obtain ⟨⟨t', e, hte, hon⟩, -⟩ := h.new t ht hzero hne
    rcases hentry with ⟨i, hi⟩ | ⟨t'', e', hte', hex⟩
    · rw [hi] at hte
      cases hte
    · rw [hte] at hte'
      cases hte'
      exact onPath_exists hex hon hzero
  · exact h.same t ht hzero

end BlockSet

/-- The inode's own pointer on the way to a block is 0, so that the block is looked up in a buffer
that nothing was read into. -/
def ReadsFresh (x : Buf) (pl : Place) : Prop :=
  ∃ t e, pl.table = some (t, e) ∧ Inode.block x (ext2DirectBlocks + tableRoot t) = 0

/-- Block `j` is found where it was; or it is looked up in unread memory before and after. -/
def SameBlock (fs : Ext2Fs) (x : Buf) (fs' : Ext2Fs) (x' : Buf) (j : Nat) : Prop :=
  (ReadsFresh x (place fs.pointerPerBlock j) ∧ ReadsFresh x' (place fs.pointerPerBlock j)) ∨
    (getBlockNumber x' j fs').map Prod.fst = (getBlockNumber x j fs).map Prod.fst

/-- Whatever freshly allocated memory holds, setting block `iblock` to any number reports that
there is no space, or the number is found and every other block is found where it was. -/
def SetBlockOk (fs : Ext2Fs) (x : Buf) (n iblock : Nat) : Prop :=
  ∀ junk r, r < 4294967296 → ∃ e x' fs',
    setBlockNumber x n iblock r (fs.withJunk junk) = .ok ((e, x'), fs') ∧
    (e = .noSpace ∨ e = .success ∧ getBlockNumber x' iblock fs' = .ok (r, fs') ∧
      ∀ j, j < 4294967296 → j ≠ iblock → SameBlock (fs.withJunk junk) x fs' x' j)

section Agreement

variable {fs : Ext2Fs} {x : Buf}

theorem withJunk_tableAt (junk : Buf) (t : Table) :
    (fs.withJunk junk).tableAt x t = fs.tableAt x t := by
  have hpointers : (fs.withJunk junk).pointers x = fs.pointers x := rfl
  rw [tableAt, hpointers, tableAt]

theorem withJunk_missing (junk : Buf) (t : Table) :
    (fs.withJunk junk).missing x t = fs.missing x t := by
  induction t with
  | root k => rw [missing, missing, need, need, withJunk_tableAt]
  | child t i ih => rw [missing, missing, need, need, withJunk_tableAt, ih]

theorem BlockTree.withJunk {U : Nat → Prop} {n : Nat} (h : BlockTree U n fs x) (junk : Buf) :
    BlockTree U n (fs.withJunk junk) x := by
  refine ⟨?_, ?_, h.distinct⟩
  · intro t ht hne
    rw [withJunk_tableAt] at hne ⊢
    exact h.used t ht hne
  · intro t ht
    rw [withJunk_tableAt]
    exact h.slot t ht

theorem SlotOk.withJunk {n : Nat} (h : SlotOk fs n) (junk : Buf) : SlotOk (fs.withJunk junk) n :=
  ⟨h.plain, h.perGroup, h.group, h.memory, h.inBlock⟩

theorem PointersOk.withJunk (h : PointersOk fs) (junk : Buf) : PointersOk (fs.withJunk junk) :=
  ⟨h.blockSize, h.size_lt, h.pointers⟩

theorem sameBlock_of_lookup {fs' : Ext2Fs} {x' : Buf} {j : Nat} (hp : PointersOk fs)
    (hp' : PointersOk fs') (hpp : fs'.pointerPerBlock = fs.pointerPerBlock)
    (hplain : fs.diskCache = none) (hplain' : fs'.diskCache = none) (hj : j < 4294967296)
    (h : fs'.lookup x' (place fs.pointerPerBlock j) = fs.lookup x (place fs.pointerPerBlock j)) :
    SameBlock fs x fs' x' j := by
  right
  by_cases hfault : place fs.pointerPerBlock j = .divideByZero
  · rw [getBlockNumber_fault hfault, getBlockNumber_fault (by rw [hpp, hfault])]
  · rw [getBlockNumber_run hp hplain hj hfault, getBlockNumber_run hp' hplain' hj (by rwa [hpp]),
      hpp, h]
    rfl

theorem lookup_of_sameBlock {fs' : Ext2Fs} {x' : Buf} {j : Nat} (hp : PointersOk fs)
    (hp' : PointersOk fs') (hpp : fs'.pointerPerBlock = fs.pointerPerBlock)
    (hplain : fs.diskCache = none) (hplain' : fs'.diskCache = none) (hj : j < 4294967296)
    {t : Table} {e : Nat} (hte : (place fs.pointerPerBlock j).table = some (t, e))
    (hroot : Inode.block x' (ext2DirectBlocks + tableRoot t) ≠ 0) (h : SameBlock fs x fs' x' j) :
    fs'.lookup x' (place fs.pointerPerBlock j) = fs.lookup x (place fs.pointerPerBlock j) := by
  rcases h with ⟨-, t', e', hte', hzero⟩ | heq
  · rw [hte] at hte'
    cases hte'
    exact absurd hzero hroot
  · have hne : place fs.pointerPerBlock j ≠ .divideByZero := by
      intro hfault
      rw [hfault] at hte
      cases hte
    rw [getBlockNumber_run hp hplain hj hne, getBlockNumber_run hp' hplain' hj (by rwa [hpp]),
      hpp] at heq
    exact Except.ok.inj heq

variable {Inv : (Nat → Prop) → Nat → Ext2Fs → Prop} (hsrc : BlockSource Inv)
variable {U : Nat → Prop} {k n iblock : Nat}

theorem BlockSet.sameBlock {V : Nat → Prop} {fs' : Ext2Fs} {x' : Buf} {r j : Nat}
    (h : BlockSet n U fs x iblock r V fs' x') (hp : PointersOk fs) (hplain : fs.diskCache = none)
    (hplain' : fs'.diskCache = none) (hi : iblock < 4294967296)
    (hentry : fs.HasEntry x (place fs.pointerPerBlock iblock)) (hj : j < 4294967296)
    (hne : j ≠ iblock) : SameBlock fs x fs' x' j := by
  have hp' := h.pointersOk hp
  have hpp := h.pointerPerBlock_eq
  have htables : ∀ t, IsTable t → fs'.tableAt x' t = fs.tableAt x t :=
    fun t ht => h.tables_of_entry hentry ht
  have hin := place_inTable hp hj
  rcases Place.cases_table (place fs.pointerPerBlock j) with ⟨d, hd⟩ | ⟨t, e, hte⟩ | hnot
  · exact sameBlock_of_lookup hp hp' hpp hplain hplain' hj (h.others hp hi hj hne (Or.inl ⟨d, hd⟩)).2
  · obtain ⟨ht, hleaf⟩ := Place.isTable hte
    have hroot' := htables (.root (tableRoot t)) (isTable_root ht)
    by_cases hroot : Inode.block x (ext2DirectBlocks + tableRoot t) = 0
    · exact Or.inl ⟨⟨t, e, hte, hroot⟩, t, e, hte, hroot'.trans hroot⟩
    · apply sameBlock_of_lookup hp hp' hpp hplain hplain' hj
      apply lookup_congr hp hp' hpp htables hin hte hroot
      intro hex
      apply h.leaf t e ht hleaf hex
      intro heq
      exact hne (place_injective hp hj hi (Place.exists_of_table hte)
        (Place.table_injective hte heq))
  · apply sameBlock_of_lookup hp hp' hpp hplain hplain' hj
    cases hpl : place fs.pointerPerBlock j with
    | outOfRange => rfl
    | divideByZero => rfl
    | _ => exact absurd (by rw [hpl]; trivial) hnot

include hsrc

variable (h : Inv U k fs) (hp : PointersOk fs) (htree : BlockTree U n fs x) (hok : SlotOk fs n)
variable (hslot : U (fs.slotBlock n)) (hi : iblock < 4294967296)

include h hp htree hok hslot hi

private theorem setBlockOk_of_full {t : Table} {e : Nat}
    (hte : (place fs.pointerPerBlock iblock).table = some (t, e)) (hk : k < fs.missing x t) :
    SetBlockOk fs x n iblock := by
  intro junk r _
  obtain ⟨V, fs', x', -, hrun⟩ := (setBlockNumber_setsEntry hsrc (hsrc.junk junk h) (hp.withJunk junk)
    (htree.withJunk junk) (hok.withJunk junk) hslot r hi hte).1 (by rwa [withJunk_missing])
  exact ⟨.noSpace, x', fs', hrun, Or.inl rfl⟩

private theorem setBlockOk_of_entry (hset : (place fs.pointerPerBlock iblock).Settable)
    (hentry : fs.HasEntry x (place fs.pointerPerBlock iblock)) : SetBlockOk fs x n iblock := by
  intro junk r hr
  have hpj := hp.withJunk junk
  have htreej := htree.withJunk junk
  have hinvj := hsrc.junk junk h
  have hentryj : (fs.withJunk junk).HasEntry x (place fs.pointerPerBlock iblock) := by
    rcases hentry with hd | ⟨t, e, hte, hex⟩
    · exact Or.inl hd
    · exact Or.inr ⟨t, e, hte, by rwa [withJunk_tableAt]⟩
  obtain ⟨V, fs', x', m, hrun, hinv, hblock⟩ : ∃ V fs' x' m,
      setBlockNumber x n iblock r (fs.withJunk junk) = .ok ((.success, x'), fs') ∧
        Inv V m fs' ∧ BlockSet n U (fs.withJunk junk) x iblock r V fs' x' := by
    rcases hentry with ⟨i, hpl⟩ | ⟨t, e, hte, hex⟩
    · exact ⟨U, _, _, k, setBlockNumber_direct hpl, hinvj,
        (blockSet_direct hpj htreej hi hr hpl).1⟩
    · have hmissing : (fs.withJunk junk).missing x t ≤ k := by
        rw [withJunk_missing, missing_eq_zero.mpr hex]
        exact Nat.zero_le k
      obtain ⟨V, fs', x', v, hrun, hinv, hblock, -, hv⟩ :=
        blockSet_table hpj htreej hi hr hsrc hinvj (hok.withJunk junk) hslot hte hmissing
      have hsetj : (place (fs.withJunk junk).pointerPerBlock iblock).Settable := hset
      rw [storedIn_of_settable hsetj] at hv
      rw [hv] at hblock
      exact ⟨V, fs', x', _, hrun, hinv, hblock⟩
  have hplain' := hsrc.plain hinv
  refine ⟨.success, x', fs', hrun, Or.inr ⟨rfl, ?_, ?_⟩⟩
  · have hpl : place fs'.pointerPerBlock iblock = place fs.pointerPerBlock iblock := by
      rw [hblock.pointerPerBlock_eq]
      rfl
    rw [getBlockNumber_run (hblock.pointersOk hpj) hplain' hi, hpl]
    · exact congrArg (fun v => Except.ok (v, fs')) hblock.self
    · rw [hpl]
      intro hfault
      rw [hfault] at hset
      cases hset
  · intro j hj hne
    exact hblock.sameBlock hpj (hsrc.plain hinvj) hplain' hi hentryj hj hne

private theorem setBlockNumber_ends {t : Table} {e : Nat}
    (hte : (place fs.pointerPerBlock iblock).table = some (t, e)) (hk : fs.missing x t ≤ k)
    (junk : Buf) {r : Nat} (hr : r < 4294967296) :
    ∃ V fs₁ x' fs', setBlockNumber x n iblock r (fs.withJunk junk) = .ok ((.success, x'), fs') ∧
      TablesAdded (OnPath t) n U (fs.withJunk junk) x V fs₁ x' ∧ fs₁.tableAt x' t ≠ 0 ∧
      EntryStored V fs₁ x' t e
        (storedIn (fs₁.tableAt x' t) (place fs.pointerPerBlock iblock) r) fs' ∧
      fs'.diskCache = none ∧ PointersOk fs' ∧ fs'.pointerPerBlock = fs.pointerPerBlock := by
  have hpj := hp.withJunk junk
  obtain ⟨V, fs₁, x', tmp, hreach, htmp, hrun⟩ := (setBlockNumber_setsEntry hsrc
    (hsrc.junk junk h) hpj (htree.withJunk junk) (hok.withJunk junk) hslot r hi hte).2
      (by rwa [withJunk_missing])
  have hkept := hreach.added.kept
  have hp₁ := hkept.pointersOk hpj
  have hpp₁ : fs₁.pointerPerBlock = fs.pointerPerBlock := hkept.pointerPerBlock_eq
  have hfits : 4 * e + 4 ≤ fs₁.blockSize :=
    entry_fits hp₁ (by rw [hpp₁]; exact Place.index_lt (place_inTable hp hi) hte)
  have hv := storedIn_lt fs₁ x' t (place fs.pointerPerBlock iblock) hr
  obtain ⟨ht, hleaf⟩ := Place.isTable hte
  obtain ⟨hinv, hstored⟩ := hreach.store hsrc ht hleaf hfits hv htmp
  exact ⟨V, fs₁, x', _, hrun, hreach.added, hreach.table, hstored, hsrc.plain hinv,
    hstored.kept.pointersOk hp₁, hstored.kept.pointerPerBlock_eq.trans hpp₁⟩

private theorem lookup_of_setBlockOk {t : Table} {e : Nat}
    (hte : (place fs.pointerPerBlock iblock).table = some (t, e)) (hk : fs.missing x t ≤ k)
    (hall : SetBlockOk fs x n iblock) (junk : Buf) :
    ∃ V fs₁ x' fs', TablesAdded (OnPath t) n U (fs.withJunk junk) x V fs₁ x' ∧
      fs₁.tableAt x' t ≠ 0 ∧ EntryStored V fs₁ x' t e
        (storedIn (fs₁.tableAt x' t) (place fs.pointerPerBlock iblock) 0) fs' ∧ PointersOk fs' ∧
      fs'.pointerPerBlock = fs.pointerPerBlock ∧
      fs'.lookup x' (place fs.pointerPerBlock iblock) = 0 ∧
      ∀ j t' e', j < 4294967296 → j ≠ iblock →
        (place fs.pointerPerBlock j).table = some (t', e') → tableRoot t' = tableRoot t →
        fs'.lookup x' (place fs.pointerPerBlock j) =
          (fs.withJunk junk).lookup x (place fs.pointerPerBlock j) := by
  obtain ⟨V, fs₁, x', fs', hrun, hadded, hne, hstored, hplain', hp', hpp⟩ :=
    setBlockNumber_ends hsrc h hp htree hok hslot hi hte hk junk (r := 0) (by decide)
  obtain ⟨c, x'', fs'', hrun', hcases⟩ := hall junk 0 (by decide)
  rw [hrun] at hrun'
  cases hrun'
  rcases hcases with hbad | ⟨-, hself, hothers⟩
  · cases hbad
  obtain ⟨ht, -⟩ := Place.isTable hte
  have hroot : Inode.block x' (ext2DirectBlocks + tableRoot t) ≠ 0 := by
    have hsame : fs'.tableAt x' t ≠ 0 := by rwa [hstored.tables t ht]
    exact root_of_exists hsame
  refine ⟨V, fs₁, x', fs', hadded, hne, hstored, hp', hpp, ?_, ?_⟩
  · have hnot : place fs'.pointerPerBlock iblock ≠ .divideByZero := by
      rw [hpp]
      intro hfault
      rw [hfault] at hte
      cases hte
    rw [getBlockNumber_run hp' hplain' hi hnot, hpp] at hself
    exact (Prod.mk.inj (Except.ok.inj hself)).1
  · intro j t' e' hj hnej hte' htop
    rw [← htop] at hroot
    have hplainj := hsrc.plain (hsrc.junk junk h)
    have hsame := hothers j hj hnej
    have hppj : fs'.pointerPerBlock = (fs.withJunk junk).pointerPerBlock := hpp
    have htej : (place (fs.withJunk junk).pointerPerBlock j).table = some (t', e') := hte'
    have hlook := lookup_of_sameBlock (hp.withJunk junk) hp' hppj hplainj hplain' hj htej hroot
      hsame
    exact hlook

omit hsrc h hp htree hok hslot hi in
private theorem lookup_added {V V' : Nat → Prop} {P : Table → Prop} {fs₁ fs' : Ext2Fs} {x' : Buf}
    {t : Table} {e v : Nat} (hadded : TablesAdded P n U fs x V fs₁ x')
    (hstored : EntryStored V' fs₁ x' t e v fs') (hp' : PointersOk fs')
    (habsent : fs.tableAt x t = 0) (hne : fs₁.tableAt x' t ≠ 0) {pl : Place} {e' : Nat}
    (hin : pl.InTable fs'.pointerPerBlock) (hte : pl.table = some (t, e')) (he : e' ≠ e) :
    fs'.lookup x' pl = 0 := by
  obtain ⟨ht, hleaf⟩ := Place.isTable hte
  have hne' : fs'.tableAt x' t ≠ 0 := by rwa [hstored.tables t ht]
  rw [lookup_of_exists hp' hin hte hne', hstored.tables t ht, hstored.entries t e' ht hne,
    if_neg fun hbad => he hbad.2]
  exact hadded.empty t e' ht hleaf habsent hne

private theorem not_setBlockOk_single {i : Nat}
    (hpl : place fs.pointerPerBlock iblock = .single i) (habsent : fs.tableAt x (.root 0) = 0)
    (hk : fs.missing x (.root 0) ≤ k) : ¬ SetBlockOk fs x n iblock := by
  intro hall
  have hte : (place fs.pointerPerBlock iblock).table = some (.root 0, i) := by rw [hpl]; rfl
  have hmin := hp.cases.1
  obtain ⟨i', hi', hne⟩ : ∃ i', i' < fs.pointerPerBlock ∧ i' ≠ i := by
    by_cases hzero : i = 0
    · exact ⟨1, by omega, by omega⟩
    · exact ⟨0, by omega, Ne.symm hzero⟩
  obtain ⟨hj, hplj⟩ := place_single hp hi'
  have hte' : (place fs.pointerPerBlock (12 + i')).table = some (.root 0, i') := by rw [hplj]; rfl
  obtain ⟨V, fs₁, x', fs', hadded, hnew, hstored, hp', hpp, -, hothers⟩ :=
    lookup_of_setBlockOk hsrc h hp htree hok hslot hi hte hk hall (fun _ => 255)
  have hnej : 12 + i' ≠ iblock := by
    intro heq
    rw [heq, hpl] at hplj
    cases hplj
    exact hne rfl
  have hsame := hothers (12 + i') (.root 0) i' hj hnej hte' rfl
  have habsent' : (fs.withJunk fun _ => 255).tableAt x (.root 0) = 0 := by rwa [withJunk_tableAt]
  have hzero : fs'.lookup x' (place fs.pointerPerBlock (12 + i')) = 0 := by
    apply lookup_added hadded hstored hp' habsent' hnew _ hte' hne
    rw [hpp]
    exact place_inTable hp hj
  rw [hzero, hplj, lookup, show Inode.block x ext2DirectBlocks = 0 from habsent, load_zero] at hsame
  cases hsame

omit hsrc h htree hok hslot hi in
private theorem exists_other (c d : Nat) :
    ∃ d', d' < fs.pointerPerBlock ∧ d' ≠ c ∧ d' ≠ d := by
  have hmin := hp.cases.1
  by_cases h0 : 0 ≠ c ∧ 0 ≠ d
  · exact ⟨0, by omega, h0⟩
  · by_cases h1 : 1 ≠ c ∧ 1 ≠ d
    · exact ⟨1, by omega, h1⟩
    · exact ⟨2, by omega, by omega, by omega⟩

omit hsrc h htree hok hslot hi in
private theorem double_apart {c d c' d' : Nat} (hpl : place fs.pointerPerBlock iblock = .double c d)
    (hc : c' < fs.pointerPerBlock) (hd : d' < fs.pointerPerBlock) (hne : c' ≠ c ∨ d' ≠ d) :
    ∃ j, j < 4294967296 ∧ j ≠ iblock ∧ place fs.pointerPerBlock j = .double c' d' := by
  obtain ⟨hj, hplj⟩ := place_double hp.cases.1 (pointers_of_double hp hpl) hc hd
  refine ⟨_, hj, ?_, hplj⟩
  intro heq
  rw [heq, hpl] at hplj
  cases hplj
  rcases hne with hbad | hbad
  · exact hbad rfl
  · exact hbad rfl

private theorem not_setBlockOk_double {c d : Nat}
    (hpl : place fs.pointerPerBlock iblock = .double c d) (habsent : fs.tableAt x (.root 1) = 0)
    (hk : fs.missing x (.child (.root 1) c) ≤ k) : ¬ SetBlockOk fs x n iblock := by
  intro hall
  have hte : (place fs.pointerPerBlock iblock).table = some (.child (.root 1) c, d) := by
    rw [hpl]
    rfl
  have hin := place_inTable hp hi
  rw [hpl] at hin
  obtain ⟨d', hd', hdc, hdd⟩ := exists_other hp c d
  obtain ⟨j, hj, hnej, hplj⟩ := double_apart hp hpl hin.1 hd' (Or.inr hdd)
  have hte' : (place fs.pointerPerBlock j).table = some (.child (.root 1) c, d') := by
    rw [hplj]
    rfl
  let junk : Buf := put32 (fun _ => 0) (4 * d') 1
  obtain ⟨V, fs₁, x', fs', hadded, hnew, hstored, hp', hpp, -, hothers⟩ :=
    lookup_of_setBlockOk hsrc h hp htree hok hslot hi hte hk hall junk
  have hsame := hothers j _ d' hj hnej hte' rfl
  have hchild : (fs.withJunk junk).tableAt x (.child (.root 1) c) = 0 := by
    rw [withJunk_tableAt]
    exact PointerMap.tableAt_child_of_zero habsent c
  have hzero : fs'.lookup x' (place fs.pointerPerBlock j) = 0 := by
    apply lookup_added hadded hstored hp' hchild hnew _ hte' hdd
    rw [hpp]
    exact place_inTable hp hj
  have hc : tableEntry junk c = 0 := by
    rw [tableEntry, get32_put32_index, if_neg (Ne.symm hdc)]
    exact get32_zero fun _ _ _ => rfl
  have hd : tableEntry junk d' = 1 := by
    rw [tableEntry, get32_put32_index, if_pos rfl]
    rfl
  have hjunk : (fs.withJunk junk).junk = junk := rfl
  rw [hzero, hplj, lookup, show Inode.block x (ext2DirectBlocks + 1) = 0 from habsent] at hsame
  simp only [load_zero, hjunk, hc, hd] at hsame
  cases hsame

private theorem not_setBlockOk_double_sub {c d : Nat}
    (hpl : place fs.pointerPerBlock iblock = .double c d) (hfirst : fs.tableAt x (.root 1) ≠ 0)
    (habsent : fs.tableAt x (.child (.root 1) c) = 0)
    (hk : fs.missing x (.child (.root 1) c) ≤ k) : ¬ SetBlockOk fs x n iblock := by
  intro hall
  have hte : (place fs.pointerPerBlock iblock).table = some (.child (.root 1) c, d) := by
    rw [hpl]
    rfl
  have hin := place_inTable hp hi
  rw [hpl] at hin
  obtain ⟨V, fs₁, x', fs', hadded, hnew, hstored, hp', hpp, -, hothers⟩ :=
    lookup_of_setBlockOk hsrc h hp htree hok hslot hi hte hk hall fs.junk
  obtain ⟨d', hd', hdc, hdd⟩ := exists_other hp c d
  have hc : fs.entry (fs.tableAt x (.root 1)) c = 0 := by rwa [← tableAt_child hfirst]
  have hread : ∀ c' d', c' < fs.pointerPerBlock → d' < fs.pointerPerBlock →
      (fs.withJunk fs.junk).lookup x (.double c' d') =
        fs.entry (fs.follow (fs.tableAt x (.root 1)) c') d' :=
    fun c' d' hc' hd' => lookup_double (hp.withJunk fs.junk) hc' hd' hfirst
  have ht : IsTable (.root 1) := show 1 < 3 by decide
  have hroot : fs'.tableAt x' (.root 1) = fs.tableAt x (.root 1) := by
    rw [hstored.tables _ ht, hadded.same _ ht (by rwa [withJunk_tableAt]), withJunk_tableAt]
  have hfirst' : fs'.tableAt x' (.root 1) ≠ 0 := by rwa [hroot]
  by_cases hentry : fs.entry (fs.tableAt x (.root 1)) d' = 0
  · -- entry `c` of the first table is read for block `(d', c)` before and after, and is now set
    obtain ⟨j, hj, hnej, hplj⟩ := double_apart hp hpl hd' hin.1 (Or.inl hdc)
    have hte' : (place fs.pointerPerBlock j).table = some (.child (.root 1) d', c) := by
      rw [hplj]
      rfl
    have hsame := hothers j _ c hj hnej hte' rfl
    have hchild : fs'.tableAt x' (.child (.root 1) d') = 0 := by
      have htd : IsTable (.child (.root 1) d') := ⟨ht, show 0 < 1 by decide⟩
      rw [hstored.tables _ htd, hadded.tableAt_other htd, withJunk_tableAt, tableAt_child hfirst,
        hentry]
      rintro (heq | hon)
      · cases heq
        exact hdc rfl
      · cases hon
    have hstill : fs'.entry (fs'.tableAt x' (.root 1)) d' = 0 := by rwa [← tableAt_child hfirst']
    have hpd : d' < fs'.pointerPerBlock := by rwa [hpp]
    have hpc : c < fs'.pointerPerBlock := by
      rw [hpp]
      exact hin.1
    rw [hplj, hread d' c hd' hin.1, follow, if_pos hentry, hc,
      lookup_double hp' hpd hpc hfirst'] at hsame
    change fs'.entry (fs'.follow (fs'.tableAt x' (.root 1)) d') c = 0 at hsame
    rw [follow, if_pos hstill, ← tableAt_child hfirst',
      hstored.tables _ (Place.isTable hte).1] at hsame
    exact hnew hsame
  · obtain ⟨j, hj, hnej, hplj⟩ := double_apart hp hpl hin.1 hd' (Or.inr hdd)
    have hte' : (place fs.pointerPerBlock j).table = some (.child (.root 1) c, d') := by
      rw [hplj]
      rfl
    have hsame := hothers j _ d' hj hnej hte' rfl
    have hzero : fs'.lookup x' (place fs.pointerPerBlock j) = 0 := by
      apply lookup_added hadded hstored hp' (by rwa [withJunk_tableAt]) hnew _ hte' hdd
      rw [hpp]
      exact place_inTable hp hj
    rw [hzero, hplj, hread c d' hin.1 hd', follow, if_pos hc] at hsame
    exact hentry hsame.symm

private theorem not_setBlockOk_triple {d f g : Nat}
    (hpl : place fs.pointerPerBlock iblock = .triple d f g)
    (hk : fs.missing x (.child (.child (.root 2) d) f) ≤ k) : ¬ SetBlockOk fs x n iblock := by
  intro hall
  have hte : (place fs.pointerPerBlock iblock).table =
      some (.child (.child (.root 2) d) f, g) := by
    rw [hpl]
    rfl
  obtain ⟨V, fs₁, x', fs', hadded, hnew, hstored, hp', hpp, hself, -⟩ :=
    lookup_of_setBlockOk hsrc h hp htree hok hslot hi hte hk hall fs.junk
  obtain ⟨ht, -⟩ := Place.isTable hte
  have hne' : fs'.tableAt x' (.child (.child (.root 2) d) f) ≠ 0 := by rwa [hstored.tables _ ht]
  have hin : (place fs.pointerPerBlock iblock).InTable fs'.pointerPerBlock := by
    rw [hpp]
    exact place_inTable hp hi
  rw [lookup_of_exists hp' hin hte hne', hstored.tables _ ht, hstored.entries _ _ ht hnew,
    if_pos ⟨rfl, rfl⟩, hpl, storedIn] at hself
  exact hnew hself

private theorem entry_of_setBlockOk {t : Table} {e : Nat}
    (hte : (place fs.pointerPerBlock iblock).table = some (t, e)) (hk : fs.missing x t ≤ k)
    (hall : SetBlockOk fs x n iblock) : (place fs.pointerPerBlock iblock).Settable ∧
      fs.HasEntry x (place fs.pointerPerBlock iblock) := by
  cases hpl : place fs.pointerPerBlock iblock with
  | single i =>
    rw [hpl] at hte
    cases hte
    refine ⟨trivial, Or.inr ⟨_, _, rfl, ?_⟩⟩
    intro habsent
    exact not_setBlockOk_single hsrc h hp htree hok hslot hi hpl habsent hk hall
  | double c d =>
    rw [hpl] at hte
    cases hte
    refine ⟨trivial, Or.inr ⟨_, _, rfl, ?_⟩⟩
    intro habsent
    by_cases hfirst : fs.tableAt x (.root 1) = 0
    · exact not_setBlockOk_double hsrc h hp htree hok hslot hi hpl hfirst hk hall
    · exact not_setBlockOk_double_sub hsrc h hp htree hok hslot hi hpl hfirst habsent hk hall
  | triple d f g =>
    rw [hpl] at hte
    cases hte
    exact absurd hall (not_setBlockOk_triple hsrc h hp htree hok hslot hi hpl hk)
  | direct i =>
    rw [hpl] at hte
    cases hte
  | outOfRange =>
    rw [hpl] at hte
    cases hte
  | divideByZero =>
    rw [hpl] at hte
    cases hte

omit hsrc h hp htree hok hslot hi in
private theorem exists_of_setBlockOk (hall : SetBlockOk fs x n iblock) :
    (place fs.pointerPerBlock iblock).Exists := by
  obtain ⟨e, x', fs', hrun, hcases⟩ := hall fs.junk 0 (by decide)
  cases hpl : place fs.pointerPerBlock iblock with
  | outOfRange =>
    have hplj : place (fs.withJunk fs.junk).pointerPerBlock iblock = .outOfRange := hpl
    rw [setBlockNumber_outOfRange hplj] at hrun
    cases hrun
    rcases hcases with hbad | ⟨hbad, -⟩ <;> cases hbad
  | divideByZero =>
    have hplj : place (fs.withJunk fs.junk).pointerPerBlock iblock = .divideByZero := hpl
    rw [setBlockNumber_fault hplj] at hrun
    cases hrun
  | _ => trivial

/-- Setting a block works as it should exactly where no table has to be added and the block is not
triple-indirect, and where too few blocks are free for the missing tables. -/
theorem setBlockOk_iff : SetBlockOk fs x n iblock ↔
    ((place fs.pointerPerBlock iblock).Settable ∧
        fs.HasEntry x (place fs.pointerPerBlock iblock)) ∨
      k < fs.missingFor x (place fs.pointerPerBlock iblock) := by
  constructor
  · intro hall
    rcases Place.cases_table (place fs.pointerPerBlock iblock) with ⟨i, hpl⟩ | ⟨t, e, hte⟩ | hnot
    · left
      rw [hpl]
      exact ⟨trivial, Or.inl ⟨i, rfl⟩⟩
    · rw [missingFor, hte]
      by_cases hk : k < fs.missing x t
      · exact Or.inr hk
      · exact Or.inl (entry_of_setBlockOk hsrc h hp htree hok hslot hi hte (Nat.le_of_not_lt hk) hall)
    · exact absurd (exists_of_setBlockOk hall) hnot
  · rintro (⟨hset, hentry⟩ | hk)
    · exact setBlockOk_of_entry hsrc h hp htree hok hslot hi hset hentry
    · rw [missingFor] at hk
      split at hk
      · next hte => exact setBlockOk_of_full hsrc h hp htree hok hslot hi hte hk
      · cases hk

end Agreement

theorem tableAt_of_zero {fs : Ext2Fs} {x : Buf} (h : ∀ i, 12 ≤ i → i < 15 → Inode.block x i = 0)
    {t : Table} (ht : IsTable t) : fs.tableAt x t = 0 := by
  induction t with
  | root k =>
    have hk : k < 3 := ht
    exact h (12 + k) (by omega) (by omega)
  | child t i ih => exact PointerMap.tableAt_child_of_zero (ih ht.1) i

theorem blockTree_of_zero {U : Nat → Prop} {n : Nat} {fs : Ext2Fs} {x : Buf}
    (h : ∀ i, 12 ≤ i → i < 15 → Inode.block x i = 0) (hslot : fs.slotBlock n ≠ 0) :
    BlockTree U n fs x := by
  refine ⟨?_, ?_, ?_⟩
  · exact fun t ht hne => absurd (tableAt_of_zero h ht) hne
  · intro t ht heq
    rw [tableAt_of_zero h ht] at heq
    exact hslot heq.symm
  · exact fun t t' ht _ hne _ => absurd (tableAt_of_zero h ht) hne

theorem blockTree_empty {U : Nat → Prop} {n : Nat} {fs : Ext2Fs} (h : fs.slotBlock n ≠ 0) :
    BlockTree U n fs (fun _ => 0) :=
  blockTree_of_zero (fun _ _ _ => rfl) h

theorem blocksFromZero_slot : SlotOk blocksFromZeroFs 11 :=
  ⟨rfl, by decide +kernel, by decide +kernel, by decide +kernel, by decide +kernel⟩

theorem blocksFromZero_slotBlock : blocksFromZeroFs.slotBlock 11 = 4 := by decide +kernel

theorem setBlockOk_third_block : SetBlockOk blocksFromZeroFs (fun _ => 0) 11 3 ↔
    ((place blocksFromZeroFs.pointerPerBlock 3).Settable ∧
        blocksFromZeroFs.HasEntry (fun _ => 0) (place blocksFromZeroFs.pointerPerBlock 3)) ∨
      58 < blocksFromZeroFs.missingFor (fun _ => 0) (place blocksFromZeroFs.pointerPerBlock 3) :=
  setBlockOk_iff volume_source blocksFromZero_volumeWith
    blocksFromZero_volumeWith.mounted.pointersOk
    (blockTree_empty (by rw [blocksFromZero_slotBlock]; decide)) blocksFromZero_slot
    blocksFromZero_slotBlock (by decide)

/-- The first triple-indirect block of an empty inode, with 58 free blocks: the entry that is set
is the number of its own table. -/
theorem setBlock_fails_triple_indirect :
    VolumeWith (fun c => c = 4) 58 blocksFromZeroFs ∧
      BlockTree (fun c => c = 4) 11 blocksFromZeroFs (fun _ => 0) ∧
      262668 < 12 + 512 + 512 * 512 + 512 * 512 * 512 ∧
      ¬ SetBlockOk blocksFromZeroFs (fun _ => 0) 11 262668 := by
  have htree : BlockTree (fun c => c = 4) 11 blocksFromZeroFs (fun _ => 0) :=
    blockTree_empty (by rw [blocksFromZero_slotBlock]; decide)
  have hplace : place blocksFromZeroFs.pointerPerBlock 262668 = .triple 0 0 0 := by decide +kernel
  refine ⟨blocksFromZero_volumeWith, htree, by decide, ?_⟩
  apply not_setBlockOk_triple volume_source blocksFromZero_volumeWith
    blocksFromZero_volumeWith.mounted.pointersOk htree blocksFromZero_slot
    blocksFromZero_slotBlock (by decide) hplace
  decide +kernel

end KernelTest.Ext2
