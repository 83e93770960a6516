import KernelTest.Framework.WriteBackCache
import KernelTest.Ext2.BlockIO

/-!
# The block cache refines the plain device

A run of `read_block` and `write_block` calls through the cache returns what the same run without
a cache returns, and after `ext2_sync` leaves the same device.
-/

namespace KernelTest.Ext2

open Ext2Fs

/-- One call of `read_block` or `write_block`. -/
inductive BlockOp
  | read (blockNo : Nat) (buff : Buf)
  | write (blockNo : Nat) (buff : Buf)

def BlockOp.blockNo : BlockOp → Nat
  | .read b _ => b
  | .write b _ => b

/-- The call, with the error code and the buffer the caller is left with. -/
def runBlockOp : BlockOp → FsM (ECode × Option Buf)
  | .read b buff => do
    let r ← readBlock b buff
    return (r.1, some r.2)
  | .write b buff => do
    let code ← writeBlock b buff
    return (code, none)

def runBlockOps : List BlockOp → FsM (List (ECode × Option Buf))
  | [] => return []
  | op :: ops => do
    let r ← runBlockOp op
    let rs ← runBlockOps ops
    return r :: rs

def entryView (blockSize : Nat) : LineView CacheEntry Nat Buf where
  key e := e.blockNo
  dirty e := e.dirty
  val e := clip blockSize e.block

structure Separate (fs : Ext2Fs) (tracked : Nat → Prop) : Prop where
  nonzero : ∀ b, tracked b → b ≠ 0
  apart : ∀ b b', tracked b → tracked b' → fs.address b = fs.address b' → b = b'

/-- The cached file system `c` stands for the plain one `u` on the blocks in `tracked`. -/
structure CacheSim (tracked : Nat → Prop) (dc : List CacheEntry) (c u : Ext2Fs) : Prop where
  cache : c.diskCache = some dc
  plain : u.diskCache = none
  info : c.toMountInfo = u.toMountInfo
  using' : c.isUsingCache = true
  coherent : Coherent (entryView u.blockSize) tracked dc c.block u.block
  outside : ∀ x, (∀ b, tracked b → x < u.address b ∨ u.address b + u.blockSize ≤ x) →
    c.blockDevice x = u.blockDevice x
  stamps : ∀ (i : Nat) (e : CacheEntry), dc[i]? = some e → e.lastUse < uint32Max
  keys : ∀ (i : Nat) (e : CacheEntry), dc[i]? = some e → e.blockNo = 0 ∨ tracked e.blockNo
  nonempty : dc ≠ []

/-! ## The search loop -/

private theorem cacheSearch_found {b : Nat} {es : List CacheEntry} {i age k : Nat}
    {o : Option Nat} (h : cacheSearch b es i o age = .found k) :
    ∃ j e, k = i + j ∧ es[j]? = some e ∧ e.blockNo = b := by
  induction es generalizing i o age with
  | nil => cases h
  | cons e es ih =>
    rw [cacheSearch] at h
    by_cases hb : e.blockNo = b
    · rw [if_pos hb] at h
      cases h
      exact ⟨0, e, rfl, rfl, hb⟩
    · rw [if_neg hb] at h
      have hrest : ∃ j e', k = i + 1 + j ∧ es[j]? = some e' ∧ e'.blockNo = b := by
        split at h
        · exact ih h
        · exact ih h
      obtain ⟨j, e', hk, hj, he'⟩ := hrest
      exact ⟨j + 1, e', by omega, hj, he'⟩

private theorem cacheSearch_missing {b : Nat} {es : List CacheEntry} {i age : Nat}
    {o o' : Option Nat} (h : cacheSearch b es i o age = .missing o') :
    ∀ (j : Nat) (e : CacheEntry), es[j]? = some e → e.blockNo ≠ b := by
  induction es generalizing i o age with
  | nil =>
    intro j e he
    cases he
  | cons e es ih =>
    rw [cacheSearch] at h
    by_cases hb : e.blockNo = b
    · rw [if_pos hb] at h
      cases h
    · rw [if_neg hb] at h
      have hrest : ∀ (j : Nat) (e : CacheEntry), es[j]? = some e → e.blockNo ≠ b := by
        split at h
        · exact ih h
        · exact ih h
      intro j e' he'
      cases j with
      | zero =>
        cases he'
        exact hb
      | succ j => exact hrest j e' he'

private theorem cacheSearch_keeps_oldest {b : Nat} {es : List CacheEntry} {i age k : Nat}
    {o' : Option Nat} (h : cacheSearch b es i (some k) age = .missing o') :
    ∃ m, o' = some m ∧ (m = k ∨ i ≤ m ∧ m < i + es.length) := by
  induction es generalizing i age k with
  | nil =>
    cases h
    exact ⟨k, rfl, Or.inl rfl⟩
  | cons e es ih =>
    rw [cacheSearch] at h
    split at h
    · cases h
    split at h
    · obtain ⟨m, hm, hcase⟩ := ih h
      refine ⟨m, hm, Or.inr ?_⟩
      rw [List.length_cons]
      omega
    · obtain ⟨m, hm, hcase⟩ := ih h
      refine ⟨m, hm, ?_⟩
      rw [List.length_cons]
      omega

private theorem cacheSearch_victim {b : Nat} {es : List CacheEntry} {o' : Option Nat}
    (hne : es ≠ []) (hstamp : ∀ (i : Nat) (e : CacheEntry), es[i]? = some e → e.lastUse < uint32Max)
    (h : cacheSearch b es 0 none uint32Max = .missing o') :
    ∃ m e, o' = some m ∧ es[m]? = some e := by
  cases es with
  | nil => exact absurd rfl hne
  | cons e es =>
    rw [cacheSearch] at h
    split at h
    · cases h
    rw [if_pos (hstamp 0 e rfl)] at h
    obtain ⟨m, hm, hcase⟩ := cacheSearch_keeps_oldest h
    have hlt : m < (e :: es).length := by
      rw [List.length_cons]
      omega
    exact ⟨m, (e :: es)[m], hm, List.getElem?_eq_getElem hlt⟩

/-! ## Single steps of the cache -/

private theorem cacheEntry_run {fs : Ext2Fs} {dc : List CacheEntry} {i : Nat} {e : CacheEntry}
    (hdc : fs.diskCache = some dc) (he : dc[i]? = some e) : cacheEntry i fs = .ok (e, fs) := by
  unfold cacheEntry
  simp only [Exec.get_bind, hdc, he]
  rfl

/-- What the cache operations do to the file system: a device, a cache and a clock. -/
private def withCache (fs : Ext2Fs) (dc : List CacheEntry) (device : Buf) (time : Nat) : Ext2Fs :=
  { fs with diskCache := some dc, blockDevice := device, cacheTime := time }

private theorem setCacheEntry_run (fs : Ext2Fs) {dc : List CacheEntry} {i : Nat} {e : CacheEntry}
    (hdc : fs.diskCache = some dc) :
    setCacheEntry i e fs =
      .ok (⟨⟩, withCache fs (dc.set i e) fs.blockDevice fs.cacheTime) := by
  unfold setCacheEntry withCache
  simp only [Exec.modify_apply, hdc, Option.map_some]

private theorem cacheFlushDirty_run {fs : Ext2Fs} {dc : List CacheEntry} {i : Nat} {e : CacheEntry}
    (hdc : fs.diskCache = some dc) (he : dc[i]? = some e) :
    cacheFlushDirty i fs =
      .ok (.success, withCache fs (dc.set i { e with dirty := false })
        (fs.putBlock e.blockNo e.block).blockDevice fs.cacheTime) := by
  unfold cacheFlushDirty
  rw [Exec.get_bind, Exec.bind_ok (cacheEntry_run hdc he)]
  have hwrite : fwrite (u32 (e.blockNo * fs.blockSize)) fs.blockSize e.block fs =
      .ok (⟨⟩, fs.putBlock e.blockNo e.block) := rfl
  rw [Exec.bind_ok hwrite]
  rw [Exec.bind_ok (setCacheEntry_run (fs.putBlock e.blockNo e.block) hdc)]
  rfl

private theorem touch_run {fs : Ext2Fs} {dc : List CacheEntry} {i : Nat} {e : Nat → CacheEntry}
    {f : PUnit → FsM α} (hdc : fs.diskCache = some dc) :
    (getCacheTime >>= fun t => setCacheEntry i (e t) >>= f) fs =
      f ⟨⟩ (withCache fs (dc.set i (e fs.cacheTime)) fs.blockDevice (u32 (fs.cacheTime + 1))) := by
  let fs' : Ext2Fs := { fs with cacheTime := u32 (fs.cacheTime + 1) }
  have htime : getCacheTime fs = .ok (fs.cacheTime, fs') := rfl
  rw [Exec.bind_ok htime, Exec.bind_ok (setCacheEntry_run fs' hdc)]
  rfl

section Simulation

variable {tracked : Nat → Prop} {dc : List CacheEntry} {c u : Ext2Fs}

private theorem CacheSim.blockSize (h : CacheSim tracked dc c u) : c.blockSize = u.blockSize :=
  congrArg MountInfo.blockSize h.info

private theorem CacheSim.address (h : CacheSim tracked dc c u) (b : Nat) :
    c.address b = u.address b := by
  rw [Ext2Fs.address, Ext2Fs.address, h.blockSize]

private theorem block_putBlock_tracked {fs : Ext2Fs} (hs : fs.BlockSizeOk)
    (hsep : Separate fs tracked) {b b' : Nat} (buff : Buf) (hb : tracked b) (hb' : tracked b')
    (hne : b' ≠ b) : (fs.putBlock b buff).block b' = fs.block b' :=
  block_putBlock_other hs buff fun heq => hne (hsep.apart b' b hb' hb heq)

private theorem putBlock_outside {fs : Ext2Fs} {b x : Nat} {buff : Buf} (hb : tracked b)
    (hx : ∀ b, tracked b → x < fs.address b ∨ fs.address b + fs.blockSize ≤ x) :
    (fs.putBlock b buff).blockDevice x = fs.blockDevice x :=
  blit_outside (hx b hb)

private theorem CacheSim.makeRoom (h : CacheSim tracked dc c u) (hs : u.BlockSizeOk)
    (hsep : Separate u tracked) {i : Nat} {e : CacheEntry} (he : dc[i]? = some e) :
    ∃ dc' c' e', cacheMakeRoom i c = .ok (⟨⟩, c') ∧ CacheSim tracked dc' c' u ∧
      c'.cacheTime = c.cacheTime ∧ dc'[i]? = some e' ∧ e'.dirty = false ∧
      dc'.length = dc.length ∧
      (∀ (j : Nat) (a : CacheEntry), dc'[j]? = some a → ∃ a', dc[j]? = some a' ∧
        a.blockNo = a'.blockNo ∧ (a.dirty = true → a'.dirty = true)) := by
  have hentry := cacheEntry_run h.cache he
  cases hd : e.dirty with
  | false =>
    refine ⟨dc, c, e, ?_, h, rfl, he, hd, rfl, fun j a ha => ⟨a, ha, rfl, id⟩⟩
    rw [cacheMakeRoom, Exec.bind_ok hentry, hd]
    rfl
  | true =>
    let e' : CacheEntry := { e with dirty := false }
    let device := (c.putBlock e.blockNo e.block).blockDevice
    have ht : tracked e.blockNo := h.coherent.dirty i e he hd
    have hcs : c.BlockSizeOk := by
      rw [BlockSizeOk, h.blockSize]
      exact hs
    have hcsep : Separate c tracked := by
      refine ⟨hsep.nonzero, ?_⟩
      intro b b' hb hb' heq
      rw [h.address, h.address] at heq
      exact hsep.apart b b' hb hb' heq
    refine ⟨dc.set i e', withCache c (dc.set i e') device c.cacheTime, e', ?_, ?_, rfl, ?_, rfl,
      List.length_set, ?_⟩
    · rw [cacheMakeRoom, Exec.bind_ok hentry, hd, if_pos rfl,
        Exec.bind_ok (cacheFlushDirty_run h.cache he)]
      rfl
    · refine ⟨rfl, h.plain, h.info, h.using', ?_, ?_, ?_, ?_, ?_⟩
      · apply h.coherent.flush (b := e') he hd rfl rfl rfl
        · change (c.putBlock e.blockNo e.block).block e.blockNo = clip u.blockSize e.block
          rw [block_putBlock_same c e.blockNo e.block rfl, h.blockSize]
        · intro k hk hne
          exact block_putBlock_tracked hcs hcsep e.block ht hk hne
      · intro x hx
        have hcx : ∀ b, tracked b → x < c.address b ∨ c.address b + c.blockSize ≤ x := by
          intro b hb
          rw [h.address, h.blockSize]
          exact hx b hb
        exact (putBlock_outside ht hcx).trans (h.outside x hx)
      · intro j a ha
        by_cases hji : i = j
        · subst hji
          rw [List.getElem?_set_self (List.getElem?_eq_some_iff.mp he).choose] at ha
          cases ha
          exact h.stamps i e he
        · rw [List.getElem?_set_ne hji] at ha
          exact h.stamps j a ha
      · intro j a ha
        by_cases hji : i = j
        · subst hji
          rw [List.getElem?_set_self (List.getElem?_eq_some_iff.mp he).choose] at ha
          cases ha
          exact h.keys i e he
        · rw [List.getElem?_set_ne hji] at ha
          exact h.keys j a ha
      · intro hnil
        have hlen := congrArg List.length hnil
        rw [List.length_set] at hlen
        exact h.nonempty (List.length_eq_zero_iff.mp hlen)
    · exact List.getElem?_set_self (List.getElem?_eq_some_iff.mp he).choose
    · intro j a ha
      by_cases hji : i = j
      · subst hji
        rw [List.getElem?_set_self (List.getElem?_eq_some_iff.mp he).choose] at ha
        cases ha
        exact ⟨e, he, rfl, fun hdirty => by cases hdirty⟩
      · rw [List.getElem?_set_ne hji] at ha
        exact ⟨a, ha, rfl, id⟩

private theorem CacheSim.replace (h : CacheSim tracked dc c u) {u' : Ext2Fs} {i : Nat}
    {e : CacheEntry} {time : Nat} (hu : u'.diskCache = none)
    (hinfo : u'.toMountInfo = u.toMountInfo) (hstamp : e.lastUse < uint32Max)
    (hkey : e.blockNo = 0 ∨ tracked e.blockNo)
    (hcoherent : Coherent (entryView u.blockSize) tracked (dc.set i e) c.block u'.block)
    (houtside : ∀ x, (∀ b, tracked b → x < u.address b ∨ u.address b + u.blockSize ≤ x) →
      u'.blockDevice x = u.blockDevice x) :
    CacheSim tracked (dc.set i e) (withCache c (dc.set i e) c.blockDevice time) u' := by
  have hsize : u'.blockSize = u.blockSize := congrArg MountInfo.blockSize hinfo
  have haddr : ∀ b, u'.address b = u.address b := by
    intro b
    rw [Ext2Fs.address, Ext2Fs.address, hsize]
  refine ⟨rfl, hu, h.info.trans hinfo.symm, h.using', ?_, ?_, ?_, ?_, ?_⟩
  · rw [hsize]
    exact hcoherent
  · intro x hx
    have hxu : ∀ b, tracked b → x < u.address b ∨ u.address b + u.blockSize ≤ x := by
      intro b hb
      rw [← haddr, ← hsize]
      exact hx b hb
    exact (h.outside x hxu).trans (houtside x hxu).symm
  · intro j a ha
    by_cases hji : i = j
    · rw [List.getElem?_set, if_pos hji] at ha
      split at ha
      · cases ha
        exact hstamp
      · cases ha
    · rw [List.getElem?_set_ne hji] at ha
      exact h.stamps j a ha
  · intro j a ha
    by_cases hji : i = j
    · rw [List.getElem?_set, if_pos hji] at ha
      split at ha
      · cases ha
        exact hkey
      · cases ha
    · rw [List.getElem?_set_ne hji] at ha
      exact h.keys j a ha
  · intro hnil
    have hlen := congrArg List.length hnil
    rw [List.length_set] at hlen
    exact h.nonempty (List.length_eq_zero_iff.mp hlen)

private theorem load_of_sameBytes {fs : Ext2Fs} {b : Nat} {buff block : Buf} (hb : b ≠ 0)
    (h : SameBytes fs.blockSize block (fs.block b)) :
    blit buff 0 block 0 fs.blockSize = fs.load b buff := by
  funext i
  by_cases hi : i < fs.blockSize
  · rw [blit_whole hi, load_inside hb buff hi, h i hi]
  · rw [load, if_neg hb, blit_outside (by omega), blit_outside (by omega)]

theorem CacheSim.read (h : CacheSim tracked dc c u) (hs : u.BlockSizeOk) (hsep : Separate u tracked)
    {b : Nat} (hb : tracked b) (buff : Buf) (htime : c.cacheTime < uint32Max) :
    ∃ dc' c', readBlock b buff c = .ok ((.success, u.load b buff), c') ∧
      CacheSim tracked dc' c' u ∧ c'.cacheTime = c.cacheTime + 1 := by
  have hb0 : b ≠ 0 := hsep.nonzero b hb
  have hnext : u32 (c.cacheTime + 1) = c.cacheTime + 1 := by
    apply u32_of_lt
    unfold uint32Max at htime
    omega
  unfold readBlock
  rw [if_neg hb0, Exec.get_bind, h.cache]
  cases hsearch : cacheSearch b dc 0 none uint32Max with
  | found k =>
    obtain ⟨j, e, hk, he, heb⟩ := cacheSearch_found hsearch
    have hk : k = j := by omega
    subst hk
    let e' : CacheEntry := { e with lastUse := c.cacheTime }
    have hval : SameBytes u.blockSize e.block (u.block b) := by
      intro i hi
      have hcached := h.coherent.cached k e he (show tracked e.blockNo from heb ▸ hb)
      have hbyte : clip u.blockSize e.block i = u.block e.blockNo i := congrFun hcached i
      rwa [clip_of_lt _ hi, heb] at hbyte
    refine ⟨dc.set k e', withCache c (dc.set k e') c.blockDevice (c.cacheTime + 1), ?_, ?_, rfl⟩
    · simp only [hsearch]
      rw [Exec.bind_ok (cacheEntry_run h.cache he), touch_run h.cache, hnext, h.blockSize,
        load_of_sameBytes hb0 hval]
      rfl
    · exact h.replace (e := e') h.plain rfl htime (h.keys k e he)
        (h.coherent.touch (b := e') he rfl rfl rfl) fun x _ => rfl
  | missing o =>
    have hmiss := cacheSearch_missing hsearch
    obtain ⟨m, e, rfl, he⟩ := cacheSearch_victim h.nonempty h.stamps hsearch
    obtain ⟨dc', c', e', hroom, hsim, htime', he', hclean, -, hkeys⟩ := h.makeRoom hs hsep he
    have hblock : SameBytes u.blockSize (c'.block b) (u.block b) := by
      intro i _
      apply congrFun (hsim.coherent.absent b hb ?_)
      intro j a ha heq
      obtain ⟨a', ha', hkey, -⟩ := hkeys j a ha
      exact hmiss j a' ha' (hkey ▸ heq)
    let block := blit e'.block 0 c'.blockDevice (c'.address b) c'.blockSize
    have hread : SameBytes u.blockSize block (u.block b) := by
      intro i hi
      have hic : i < c'.blockSize := by
        rw [hsim.blockSize]
        exact hi
      rw [← hblock i hi, block_of_lt hic]
      change blit e'.block 0 c'.blockDevice (c'.address b) c'.blockSize i = _
      rw [blit_inside (Nat.zero_le i) (by omega), Nat.sub_zero]
    let e'' : CacheEntry := { blockNo := b, lastUse := c.cacheTime, dirty := false, block := block }
    refine ⟨dc'.set m e'', withCache c' (dc'.set m e'') c'.blockDevice (c.cacheTime + 1), ?_, ?_, rfl⟩
    · simp only [hsearch]
      have hfread : fread (u32 (b * c.blockSize)) c.blockSize e'.block c' = .ok (block, c') := by
        rw [h.blockSize, ← hsim.blockSize]
        rfl
      rw [Exec.bind_ok hroom, Exec.bind_ok (cacheEntry_run hsim.cache he'), Exec.bind_ok hfread,
        touch_run hsim.cache, htime', hnext, h.blockSize, load_of_sameBytes hb0 hread]
      rfl
    · apply hsim.replace (e := e'') hsim.plain rfl htime (Or.inr hb)
      · apply hsim.coherent.set_new_key (b := e'') he' hclean hb
        · intro j a ha heq
          obtain ⟨a', ha', hkey, -⟩ := hkeys j a ha
          exact hmiss j a' ha' (hkey ▸ heq)
        · exact clip_congr fun i hi => (hread i hi).trans (block_of_lt hi)
        · intro _
          exact hsim.coherent.absent b hb fun j a ha heq => by
            obtain ⟨a', ha', hkey, -⟩ := hkeys j a ha
            exact hmiss j a' ha' (hkey ▸ heq)
        · exact fun _ _ _ => rfl
      · exact fun x _ => rfl

theorem CacheSim.write (h : CacheSim tracked dc c u) (hs : u.BlockSizeOk)
    (hsep : Separate u tracked) {b : Nat} (hb : tracked b) (buff : Buf)
    (htime : c.cacheTime < uint32Max) :
    ∃ dc' c', writeBlock b buff c = .ok (.success, c') ∧
      CacheSim tracked dc' c' (u.putBlock b buff) ∧ c'.cacheTime = c.cacheTime + 1 := by
  have hb0 : b ≠ 0 := hsep.nonzero b hb
  have hnext : u32 (c.cacheTime + 1) = c.cacheTime + 1 := by
    apply u32_of_lt
    unfold uint32Max at htime
    omega
  have hmemory : ∀ k, tracked k → k ≠ b → (u.putBlock b buff).block k = u.block k :=
    fun k hk hne => block_putBlock_tracked hs hsep buff hb hk hne
  have hnew : ∀ old : Buf,
      clip u.blockSize (blit old 0 buff 0 u.blockSize) = (u.putBlock b buff).block b := by
    intro old
    rw [block_putBlock_same u b buff rfl]
    exact clip_congr fun i hi => blit_whole hi
  have houtside : ∀ x, (∀ b, tracked b → x < u.address b ∨ u.address b + u.blockSize ≤ x) →
      (u.putBlock b buff).blockDevice x = u.blockDevice x :=
    fun x hx => putBlock_outside hb hx
  have hplain : (u.putBlock b buff).diskCache = none := h.plain
  have hinfo : (u.putBlock b buff).toMountInfo = u.toMountInfo := rfl
  unfold writeBlock
  rw [if_neg hb0, Exec.get_bind, h.cache]
  cases hsearch : cacheSearch b dc 0 none uint32Max with
  | found k =>
    obtain ⟨j, e, hk, he, heb⟩ := cacheSearch_found hsearch
    have hk : k = j := by omega
    subst hk
    let e' : CacheEntry := { e with
      lastUse := c.cacheTime, dirty := true, block := blit e.block 0 buff 0 c.blockSize }
    refine ⟨dc.set k e', withCache c (dc.set k e') c.blockDevice (c.cacheTime + 1), ?_, ?_, rfl⟩
    · simp only [hsearch]
      rw [Exec.bind_ok (cacheEntry_run h.cache he), touch_run h.cache, hnext]
      rfl
    · refine h.replace (e := e') hplain hinfo htime (Or.inr (heb ▸ hb)) ?_ houtside
      apply h.coherent.set_same_key (b := e') he rfl
      · intro _
        change clip u.blockSize (blit e.block 0 buff 0 c.blockSize) = _
        rw [h.blockSize, hnew]
        exact congrArg _ heb.symm
      · intro _ hclean
        cases hclean
      · intro _
        change tracked e.blockNo
        rwa [heb]
      · exact fun _ _ _ => rfl
      · intro k hk hne
        exact hmemory k hk (heb ▸ hne)
  | missing o =>
    have hmiss := cacheSearch_missing hsearch
    obtain ⟨m, e, rfl, he⟩ := cacheSearch_victim h.nonempty h.stamps hsearch
    obtain ⟨dc', c', e', hroom, hsim, htime', he', hclean, -, hkeys⟩ := h.makeRoom hs hsep he
    let e'' : CacheEntry := { blockNo := b, lastUse := c.cacheTime, dirty := true,
                              block := blit e'.block 0 buff 0 c.blockSize }
    refine ⟨dc'.set m e'', withCache c' (dc'.set m e'') c'.blockDevice (c.cacheTime + 1), ?_, ?_, rfl⟩
    · simp only [hsearch]
      rw [Exec.bind_ok hroom, Exec.bind_ok (cacheEntry_run hsim.cache he'),
        touch_run hsim.cache, htime', hnext]
      rfl
    · refine hsim.replace (e := e'') hplain hinfo htime (Or.inr hb) ?_ houtside
      apply hsim.coherent.set_new_key (b := e'') he' hclean hb
      · intro j a ha heq
        obtain ⟨a', ha', hkey, -⟩ := hkeys j a ha
        exact hmiss j a' ha' (hkey ▸ heq)
      · change clip u.blockSize (blit e'.block 0 buff 0 c.blockSize) = _
        rw [h.blockSize, hnew]
        rfl
      · intro hclean'
        cases hclean'
      · exact hmemory

/-! ## Whole runs -/

theorem CacheSim.run (h : CacheSim tracked dc c u) (hs : u.BlockSizeOk) (hsep : Separate u tracked)
    (ops : List BlockOp) (hops : ∀ op ∈ ops, tracked op.blockNo)
    (htime : c.cacheTime + ops.length ≤ uint32Max) :
    ∃ results dc' c' u', runBlockOps ops c = .ok (results, c') ∧
      runBlockOps ops u = .ok (results, u') ∧ CacheSim tracked dc' c' u' ∧
      u'.toMountInfo = u.toMountInfo := by
  induction ops generalizing dc c u with
  | nil => exact ⟨[], dc, c, u, rfl, rfl, h, rfl⟩
  | cons op ops ih =>
    rw [List.length_cons] at htime
    have hnow : c.cacheTime < uint32Max := by omega
    have hb : tracked op.blockNo := hops op List.mem_cons_self
    have hb0 : op.blockNo ≠ 0 := hsep.nonzero _ hb
    -- one step of either kind, in both runs
    have hstep : ∃ r dc' c' u', runBlockOp op c = .ok (r, c') ∧ runBlockOp op u = .ok (r, u') ∧
        CacheSim tracked dc' c' u' ∧ c'.cacheTime = c.cacheTime + 1 ∧
        u'.toMountInfo = u.toMountInfo := by
      cases op with
      | read b buff =>
        change b ≠ 0 at hb0
        obtain ⟨dc', c', hrun, hsim, hclock⟩ := h.read (b := b) hs hsep hb buff hnow
        refine ⟨(.success, some (u.load b buff)), dc', c', u, ?_, ?_, hsim, hclock, rfl⟩
        · rw [runBlockOp, Exec.bind_ok hrun]
          rfl
        · rw [runBlockOp, Exec.bind_ok (readBlock_run h.plain b buff), if_neg hb0]
          rfl
      | write b buff =>
        change b ≠ 0 at hb0
        obtain ⟨dc', c', hrun, hsim, hclock⟩ := h.write (b := b) hs hsep hb buff hnow
        refine ⟨(.success, none), dc', c', u.putBlock b buff, ?_, ?_, hsim, hclock, rfl⟩
        · rw [runBlockOp, Exec.bind_ok hrun]
          rfl
        · rw [runBlockOp, Exec.bind_ok (writeBlock_run h.plain b buff), if_neg hb0,
            store_of_ne hb0]
          rfl
    obtain ⟨r, dc₁, c₁, u₁, hc₁, hu₁, hsim₁, hclock₁, hinfo₁⟩ := hstep
    have hsize₁ : u₁.blockSize = u.blockSize := congrArg MountInfo.blockSize hinfo₁
    have hs₁ : u₁.BlockSizeOk := by
      rw [BlockSizeOk, hsize₁]
      exact hs
    have hsep₁ : Separate u₁ tracked := by
      refine ⟨hsep.nonzero, ?_⟩
      intro b b' hb hb' heq
      rw [Ext2Fs.address, Ext2Fs.address, hsize₁] at heq
      exact hsep.apart b b' hb hb' heq
    obtain ⟨rs, dc₂, c₂, u₂, hc₂, hu₂, hsim₂, hinfo₂⟩ := ih hsim₁ hs₁ hsep₁
      (fun op hop => hops op (List.mem_cons_of_mem _ hop)) (by omega)
    refine ⟨r :: rs, dc₂, c₂, u₂, ?_, ?_, hsim₂, hinfo₂.trans hinfo₁⟩
    · rw [runBlockOps, Exec.bind_ok hc₁, Exec.bind_ok hc₂]
      rfl
    · rw [runBlockOps, Exec.bind_ok hu₁, Exec.bind_ok hu₂]
      rfl

theorem CacheSim.sync (h : CacheSim tracked dc c u) (hs : u.BlockSizeOk)
    (hsep : Separate u tracked) :
    ∃ s, ext2Sync c = .ok (0, s) ∧ s.blockDevice = u.blockDevice := by
  have hloop : ∃ s, Exec.forFrom syncEntry 0 dc.length c = .ok (⟨⟩, s) ∧
      ∃ dc', CacheSim tracked dc' s u ∧ dc'.length = dc.length ∧
        ∀ (j : Nat) (a : CacheEntry), j < 0 + dc.length → dc'[j]? = some a → a.dirty = false := by
    apply Exec.forFrom_invariant (I := fun k s => ∃ dc', CacheSim tracked dc' s u ∧
      dc'.length = dc.length ∧
        ∀ (j : Nat) (a : CacheEntry), j < k → dc'[j]? = some a → a.dirty = false)
    · exact ⟨dc, h, rfl, fun j a hj => absurd hj (Nat.not_lt_zero j)⟩
    · rintro k t - hk ⟨dc₁, hsim₁, hlen₁, hclean₁⟩
      have hk₁ : k < dc₁.length := by omega
      obtain ⟨dc₂, c₂, e₂, hroom, hsim₂, -, he₂, hce₂, hlen₂, hkeys⟩ :=
        hsim₁.makeRoom hs hsep (List.getElem?_eq_getElem hk₁)
      refine ⟨c₂, hroom, dc₂, hsim₂, hlen₂.trans hlen₁, ?_⟩
      intro j a hj ha
      by_cases hjk : j = k
      · rw [hjk, he₂] at ha
        cases ha
        exact hce₂
      · obtain ⟨a', ha', -, hdirty⟩ := hkeys j a ha
        have hca' := hclean₁ j a' (by omega) ha'
        by_contra hda
        rw [hdirty (by simpa using hda)] at hca'
        cases hca'
  obtain ⟨s, hrun, dc', hsim, hlen, hclean⟩ := hloop
  refine ⟨s, ?_, ?_⟩
  · rw [ext2Sync, Exec.get_bind, h.using', if_pos rfl, h.cache, Option.getD_some,
      Exec.bind_ok hrun]
    rfl
  · funext x
    by_cases hx : ∃ b, tracked b ∧ u.address b ≤ x ∧ x < u.address b + u.blockSize
    · obtain ⟨b, hb, hlo, hhi⟩ := hx
      have hstore := hsim.coherent.store_eq (fun i a ha => hclean i a
        (by have := (List.getElem?_eq_some_iff.mp ha).choose; omega) ha) hb
      have hbyte := congrFun hstore (x - u.address b)
      have hlt : x - u.address b < u.blockSize := by omega
      have hlt' : x - u.address b < s.blockSize := by
        rw [hsim.blockSize]
        exact hlt
      rw [block_of_lt hlt, block_of_lt hlt', hsim.address] at hbyte
      rwa [show u.address b + (x - u.address b) = x by omega] at hbyte
    · apply hsim.outside x
      intro b hb
      by_contra hin
      exact hx ⟨b, hb, by omega, by omega⟩

end Simulation

/-! ## The refinement -/

/-- The same mount with `DC` null. -/
def Ext2Fs.withoutCache (fs : Ext2Fs) : Ext2Fs := { fs with diskCache := none }

/-- `DC` as `mount_ext2` sets it up under `USE_CACHE`, with every entry unused. -/
structure FreshCache (fs : Ext2Fs) (dc : List CacheEntry) : Prop where
  cache : fs.diskCache = some dc
  entries : 2 ≤ dc.length
  unused : ∀ e ∈ dc, e.dirty = false ∧ e.blockNo = 0 ∧ e.lastUse = 0
  clock : fs.cacheTime = 0
  using' : fs.isUsingCache = true

/-- No two cache entries hold the same non-zero block number. -/
def NoDuplicateEntries (fs : Ext2Fs) : Prop :=
  ∀ dc, fs.diskCache = some dc → ∀ (i j : Nat) (a b : CacheEntry), dc[i]? = some a →
    dc[j]? = some b → a.blockNo ≠ 0 → a.blockNo = b.blockNo → i = j

/-- The calls return what they return without a cache, `ext2_sync` leaves the device they leave
without a cache, and after no call do two entries hold one block. -/
def CacheTransparent (fs : Ext2Fs) (ops : List BlockOp) : Prop :=
  ∃ results c u s, runBlockOps ops fs = .ok (results, c) ∧
    runBlockOps ops fs.withoutCache = .ok (results, u) ∧
    ext2Sync c = .ok (0, s) ∧ s.blockDevice = u.blockDevice ∧
    ∀ pre, pre <+: ops → ∃ rs t, runBlockOps pre fs = .ok (rs, t) ∧ NoDuplicateEntries t

private theorem FreshCache.sim {fs : Ext2Fs} {dc : List CacheEntry} (h : FreshCache fs dc)
    {tracked : Nat → Prop} (hsep : Separate fs tracked) :
    CacheSim tracked dc fs fs.withoutCache := by
  have hmem : ∀ (i : Nat) (e : CacheEntry), dc[i]? = some e → e ∈ dc :=
    fun i e he => List.mem_of_getElem? he
  refine ⟨h.cache, rfl, rfl, h.using', ?_, fun _ _ => rfl, ?_, ?_, ?_⟩
  · apply Coherent.initial
    · intro i e he ht
      exact hsep.nonzero _ ht (h.unused e (hmem i e he)).2.1
    · intro i e he
      exact (h.unused e (hmem i e he)).1
  · intro i e he
    rw [(h.unused e (hmem i e he)).2.2]
    decide
  · intro i e he
    exact Or.inl (h.unused e (hmem i e he)).2.1
  · intro hnil
    have hlen := h.entries
    rw [hnil] at hlen
    exact absurd hlen (by decide)

/-- The write-back cache refines the plain device on every run whose block numbers have distinct
32-bit byte offsets. -/
theorem cache_transparent {fs : Ext2Fs} {dc : List CacheEntry} {ops : List BlockOp}
    (hs : fs.BlockSizeOk) (hfresh : FreshCache fs dc) (hnonzero : ∀ op ∈ ops, op.blockNo ≠ 0)
    (hlen : ops.length < 4294967296)
    (hoffsets : ∀ op ∈ ops, ∀ op' ∈ ops,
      u32 (op.blockNo * fs.blockSize) = u32 (op'.blockNo * fs.blockSize) →
        op.blockNo = op'.blockNo) :
    CacheTransparent fs ops := by
  let tracked : Nat → Prop := fun b => ∃ op ∈ ops, op.blockNo = b
  have hsep : Separate fs tracked := by
    constructor
    · rintro b ⟨op, hop, rfl⟩
      exact hnonzero op hop
    · rintro b b' ⟨op, hop, rfl⟩ ⟨op', hop', rfl⟩ heq
      exact hoffsets op hop op' hop' heq
  have hsim := hfresh.sim hsep
  have hrun : ∀ pre, pre <+: ops → ∃ results dc' c u, runBlockOps pre fs = .ok (results, c) ∧
      runBlockOps pre fs.withoutCache = .ok (results, u) ∧ CacheSim tracked dc' c u ∧
      u.toMountInfo = fs.toMountInfo := by
    intro pre hpre
    apply hsim.run hs ⟨hsep.nonzero, hsep.apart⟩ pre
    · intro op hop
      exact ⟨op, hpre.subset hop, rfl⟩
    · have hle := hpre.length_le
      rw [hfresh.clock]
      unfold uint32Max
      omega
  obtain ⟨results, dc', c, u, hc, hu, hsim', hinfo⟩ := hrun ops (List.prefix_refl ops)
  have hsize : u.blockSize = fs.blockSize := congrArg MountInfo.blockSize hinfo
  have hs' : u.BlockSizeOk := by
    rw [BlockSizeOk, hsize]
    exact hs
  have hsep' : Separate u tracked := by
    refine ⟨hsep.nonzero, ?_⟩
    intro b b' hb hb' heq
    rw [Ext2Fs.address, Ext2Fs.address, hsize] at heq
    exact hsep.apart b b' hb hb' heq
  obtain ⟨s, hsync, hdevice⟩ := hsim'.sync hs' hsep'
  refine ⟨results, c, u, s, hc, hu, hsync, hdevice, ?_⟩
  intro pre hpre
  obtain ⟨rs, dc₁, t, u₁, ht, -, hsim₁, -⟩ := hrun pre hpre
  refine ⟨rs, t, ht, ?_⟩
  intro dc₂ hdc₂ i j a b ha hb hne heq
  rw [hsim₁.cache] at hdc₂
  cases hdc₂
  have htracked : tracked a.blockNo := (hsim₁.keys i a ha).resolve_left hne
  exact hsim₁.coherent.unique i j a b ha hb htracked heq

/-! ## Aliased block numbers -/

/-- A mount with 1 KiB blocks, a zeroed device and two unused cache entries. -/
def smallCachedFs : Ext2Fs where
  self := 4096
  blockSize := 1024
  pointerPerBlock := 256
  inodesPerGroup := 16
  blockGroupCount := 1
  bgdBlockSpan := 1
  bgdOffset := 2
  inodeSize := 128
  junk := fun _ => 0
  superblock := fun _ => 0
  blockGroups := fun _ => 0
  blockDevice := fun _ => 0
  diskCache := some [⟨0, 0, false, fun _ => 0⟩, ⟨0, 0, false, fun _ => 0⟩]
  cacheTime := 0
  isUsingCache := true

private theorem smallCachedFs_fresh :
    FreshCache smallCachedFs [⟨0, 0, false, fun _ => 0⟩, ⟨0, 0, false, fun _ => 0⟩] := by
  refine ⟨rfl, by decide, ?_, rfl, rfl⟩
  intro e he
  rcases List.mem_cons.mp he with rfl | he
  · exact ⟨rfl, rfl, rfl⟩
  · rw [List.mem_singleton.mp he]
    exact ⟨rfl, rfl, rfl⟩

theorem cache_transparent_two_blocks :
    CacheTransparent smallCachedFs [.write 3 (fun _ => 7), .read 5 (fun _ => 0)] := by
  apply cache_transparent (by decide) smallCachedFs_fresh
  · simp [BlockOp.blockNo]
  · decide
  · simp [BlockOp.blockNo, smallCachedFs, u32]

private def lastByte : Except Fault (List (ECode × Option Buf) × Ext2Fs) → Option UInt8
  | .ok (rs, _) => (rs.getLast?.bind Prod.snd).map fun buff => buff 0
  | .error _ => none

/-- Blocks 1 and 1 + 2^22 of 1 KiB have one 32-bit byte offset: a deferred write to the first is
seen by a plain read of the second and missed by a cached one. -/
theorem cache_not_transparent_when_offsets_wrap :
    smallCachedFs.BlockSizeOk ∧ (∃ dc, FreshCache smallCachedFs dc) ∧
      ¬ CacheTransparent smallCachedFs
        [.read 2 (fun _ => 0), .write 1 (fun _ => 7), .read 4194305 (fun _ => 0)] := by
  refine ⟨by decide, ⟨_, smallCachedFs_fresh⟩, ?_⟩
  rintro ⟨results, c, u, s, hc, hu, -⟩
  have hcached := congrArg lastByte hc
  have hplain := congrArg lastByte hu
  have hclash : some (0 : UInt8) = some 7 := hcached.trans hplain.symm
  exact absurd hclash (by decide)

end KernelTest.Ext2
