import KernelTest.Ext2.Directory

/-!
# Names copied from directory records

A record has room for 255 bytes of name, a `FILE` and a `struct dirent` for 128 with the terminator.
The copy is bounded by the length in the record alone, and what follows the name in a `FILE` is the
device.
-/

namespace KernelTest.Ext2

/-! ## Stores behind the name -/

theorem putFields_outside (fields : List (Nat × Nat)) (f : Buf) {i : Nat}
    (h : ∀ field ∈ fields, i < field.1 ∨ field.1 + 4 ≤ i) : putFields f fields i = f i := by
  induction fields generalizing f with
  | nil => rfl
  | cons field fields ih =>
    have hrest := ih (put32 f field.1 field.2) fun other hother =>
      h other (List.mem_cons_of_mem field hother)
    exact hrest.trans (put32_outside f (h field List.mem_cons_self))

theorem inodeFields_apart (h : Handlers) (inode : Buf) :
    ∀ field ∈ inodeFields h inode, 132 ≤ field.1 ∧ (field.1 + 4 ≤ 148 ∨ 152 ≤ field.1) := by
  intro field hfield
  have hkeys : field.1 ∈ (inodeFields h inode).map Prod.fst := List.mem_map_of_mem hfield
  have hall : ∀ o ∈ (inodeFields h inode).map Prod.fst, 132 ≤ o ∧ (o + 4 ≤ 148 ∨ 152 ≤ o) := by
    simp only [inodeFields, typeHandlers, List.map_append]
    split <;> split <;> split <;> simp only [List.map_cons, List.map_nil] <;> decide
  exact hall field.1 hkeys

theorem putFields_inode (h : Handlers) (inode f : Buf) {i : Nat}
    (hi : i < 132 ∨ 148 ≤ i ∧ i < 152) : putFields f (inodeFields h inode) i = f i := by
  apply putFields_outside
  intro field hfield
  have hapart := inodeFields_apart h inode field hfield
  omega

/-! ## The copy -/

def NameFits (d : Record) : Prop :=
  8 + Dir.nameLen d.bytes 0 ≤ d.size ∧ Dir.nameLen d.bytes 0 ≤ 127

instance (d : Record) : Decidable (NameFits d) :=
  inferInstanceAs (Decidable (8 + Dir.nameLen d.bytes 0 ≤ d.size ∧ Dir.nameLen d.bytes 0 ≤ 127))

def withName (d : Record) (dst : Buf) : Buf :=
  put8 (blit dst 0 d.bytes 8 (Dir.nameLen d.bytes 0)) (Dir.nameLen d.bytes 0) 0

theorem copyName_run {d : Record} {size : Nat} (dst : Buf) (fs : Ext2Fs)
    (hd : 8 + Dir.nameLen d.bytes 0 ≤ d.size) (hsize : Dir.nameLen d.bytes 0 + 1 ≤ size) :
    copyName d size dst fs = .ok (withName d dst, fs) := by
  rw [copyName, Exec.require_bind_of (by omega), Exec.require_bind_of ⟨hd, hsize⟩]
  rfl

theorem of_copyName_ok {d : Record} {size : Nat} {dst b : Buf} {fs fs' : Ext2Fs}
    (h : copyName d size dst fs = .ok (b, fs')) :
    8 + Dir.nameLen d.bytes 0 ≤ d.size ∧ Dir.nameLen d.bytes 0 + 1 ≤ size ∧
      b = withName d dst := by
  obtain ⟨_, hrest⟩ := Exec.of_require_bind_ok h
  obtain ⟨hfit, hret⟩ := Exec.of_require_bind_ok hrest
  cases hret
  exact ⟨hfit.1, hfit.2, rfl⟩

theorem withName_name (d : Record) (dst : Buf) {i : Nat} (hi : i < Dir.nameLen d.bytes 0) :
    withName d dst i = Dir.name d.bytes 0 i := by
  rw [withName, put8, putLE_outside _ (by omega), blit_inside (by omega) (by omega), Dir.name]
  congr 1

theorem withName_end (d : Record) (dst : Buf) : withName d dst (Dir.nameLen d.bytes 0) = 0 :=
  put8_same _ _ _

theorem withName_behind (d : Record) (dst : Buf) {i : Nat} (hi : Dir.nameLen d.bytes 0 < i) :
    withName d dst i = dst i := by
  rw [withName, put8, putLE_outside _ (by omega), blit_outside (by omega)]

/-! ## What is built from a record -/

/-- `b` starts with an array of 128 bytes that holds, up to a terminator, a prefix of the name. -/
def NamePrefix (d : Record) (b : Buf) : Prop :=
  ∃ k, k < 128 ∧ k ≤ Dir.nameLen d.bytes 0 ∧ b k = 0 ∧ ∀ i, i < k → b i = Dir.name d.bytes 0 i

def WholeName (d : Record) (b : Buf) : Prop :=
  (∀ i, i < Dir.nameLen d.bytes 0 → b i = Dir.name d.bytes 0 i) ∧ b (Dir.nameLen d.bytes 0) = 0

theorem NameFits.namePrefix {d : Record} (hd : NameFits d) {b : Buf} (h : WholeName d b) :
    NamePrefix d b := by
  have hlen := hd.2
  exists Dir.nameLen d.bytes 0
  constructor
  · omega
  constructor
  · exact Nat.le_refl _
  constructor
  · exact h.2
  · exact h.1

theorem NameFits.wholeName {d : Record} (hd : NameFits d) {b : Buf} (dst : Buf)
    (h : ∀ i, i < 128 → b i = withName d dst i) : WholeName d b := by
  have hlen := hd.2
  constructor
  · intro i hi
    rw [h i (by omega), withName_name d dst hi]
  · rw [h _ (by omega), withName_end]

/-- The node and the directory entry that are built from a record carry its inode number and its
name, the node also the device, and copying the name touches the name array alone. -/
structure NamesRight (d : Record) : Prop where
  node : ∀ (h : Handlers) (inode mem : Buf) (fs : Ext2Fs), ∃ f,
    nodeFromFile h inode d mem fs = .ok (f, fs) ∧ FileNode.device f = u32 fs.self ∧
      FileNode.inode f = Dir.inode d.bytes 0 ∧ NamePrefix d f
  dirent : ∀ (mem : Buf) (fs : Ext2Fs), ∃ e,
    direntFrom d mem fs = .ok (e, fs) ∧ direntIno e = Dir.inode d.bytes 0 ∧ NamePrefix d e
  copy : ∀ size ∈ [FileNode.size, direntSize], ∀ (dst : Buf) (fs : Ext2Fs), ∃ b,
    copyName d size dst fs = .ok (b, fs) ∧ ∀ i, 128 ≤ i → b i = dst i

theorem NameFits.node {d : Record} (hd : NameFits d) (h : Handlers) (inode mem : Buf)
    (fs : Ext2Fs) : ∃ f, nodeFromFile h inode d mem fs = .ok (f, fs) ∧
      FileNode.device f = u32 fs.self ∧ FileNode.inode f = Dir.inode d.bytes 0 ∧
      WholeName d f := by
  have hin := hd.1
  have hlen := hd.2
  have hnode : FileNode.size = 248 := rfl
  let start := FileNode.setInode (FileNode.setDevice mem fs.self) (Dir.inode d.bytes 0)
  have hkept (i : Nat) (hi : i < 132 ∨ 148 ≤ i ∧ i < 152) :
      putFields (withName d start) (inodeFields h inode) i = withName d start i :=
    putFields_inode h inode (withName d start) hi
  exists putFields (withName d start) (inodeFields h inode)
  constructor
  · rw [nodeFromFile, Exec.get_bind, Exec.require_bind_of (by omega),
      Exec.bind_ok (copyName_run start fs hin (by omega))]
    rfl
  constructor
  · have hdevice : FileNode.device start = u32 fs.self := by
      change get32 (put32 (put32 mem 128 fs.self) 148 _) 128 = _
      rw [get32_put32_disjoint _ _ (by omega), get32_put32]
    rw [← hdevice]
    apply get32_congr
    intro i hlow hhigh
    rw [hkept i (by omega), withName_behind d start (by omega)]
  constructor
  · have hinode : FileNode.inode start = Dir.inode d.bytes 0 := by
      change get32 (put32 _ 148 _) 148 = _
      rw [get32_put32]
      exact u32_of_lt (get32_lt d.bytes 0)
    rw [← hinode]
    apply get32_congr
    intro i hlow hhigh
    rw [hkept i (by omega), withName_behind d start (by omega)]
  · exact hd.wholeName start fun i hi => hkept i (by omega)

theorem NameFits.dirent {d : Record} (hd : NameFits d) (mem : Buf) (fs : Ext2Fs) :
    ∃ e, direntFrom d mem fs = .ok (e, fs) ∧ direntIno e = Dir.inode d.bytes 0 ∧
      WholeName d e := by
  have hin := hd.1
  have hlen := hd.2
  have hdirent : direntSize = 132 := rfl
  exists put32 (withName d mem) 128 (Dir.inode d.bytes 0)
  constructor
  · rw [direntFrom, Exec.bind_ok (copyName_run mem fs hin (by omega))]
    rfl
  constructor
  · rw [direntIno, get32_put32]
    exact u32_of_lt (get32_lt d.bytes 0)
  · exact hd.wholeName mem fun i hi => put32_outside _ (by omega)

theorem NameFits.copy {d : Record} (hd : NameFits d) {size : Nat} (hsize : 128 ≤ size) (dst : Buf)
    (fs : Ext2Fs) : ∃ b, copyName d size dst fs = .ok (b, fs) ∧ ∀ i, 128 ≤ i → b i = dst i := by
  have hlen := hd.2
  exists withName d dst
  constructor
  · exact copyName_run dst fs hd.1 (by omega)
  · intro i hi
    exact withName_behind d dst (by omega)

theorem NamesRight.nameFits {d : Record} (h : NamesRight d) (fs : Ext2Fs) : NameFits d := by
  obtain ⟨b, hcopy, hbehind⟩ := h.copy FileNode.size List.mem_cons_self (fun _ => 1) fs
  obtain ⟨hin, _, rfl⟩ := of_copyName_ok hcopy
  constructor
  · exact hin
  · apply Nat.le_of_not_lt
    intro hlong
    have hend := hbehind (Dir.nameLen d.bytes 0) (by omega)
    rw [withName_end] at hend
    cases hend

/-- Nodes, directory entries and the memory behind their names are right for the records with at
most 127 bytes of name, and for no others. -/
theorem namesRight_iff (d : Record) : NamesRight d ↔
    8 + Dir.nameLen d.bytes 0 ≤ d.size ∧ Dir.nameLen d.bytes 0 ≤ 127 := by
  constructor
  case mp =>
    intro h
    exact h.nameFits twoGroupFs
  case mpr =>
    intro hd
    have hd : NameFits d := hd
    constructor
    case node =>
      intro h inode mem fs
      obtain ⟨f, hrun, hdevice, hinode, hname⟩ := hd.node h inode mem fs
      exact ⟨f, hrun, hdevice, hinode, hd.namePrefix hname⟩
    case dirent =>
      intro mem fs
      obtain ⟨e, hrun, hino, hname⟩ := hd.dirent mem fs
      exact ⟨e, hrun, hino, hd.namePrefix hname⟩
    case copy =>
      intro size hsize dst fs
      apply hd.copy
      simp only [List.mem_cons, List.not_mem_nil, or_false] at hsize
      rcases hsize with rfl | rfl <;> decide

/-- A record of 208 bytes with a name of 200 bytes. -/
def longNamed : Record := ⟨fun i => if i = 6 then 200 else 65, 208⟩

theorem not_namesRight_longNamed : ¬ NamesRight longNamed := by
  intro h
  have hfits := h.nameFits twoGroupFs
  revert hfits
  decide

/-! ## The nodes and entries that lookups return -/

theorem of_ext2Finddir_some {h : Handlers} {fuel nodeInode : Nat} {name : Libc.CText}
    {fs fs' : Ext2Fs} {f : Buf} (hrun : ext2Finddir h fuel nodeInode name fs = .ok (some f, fs')) :
    ∃ d inode mem t, SameBytes FileNode.size mem (fun _ => 0) ∧
      nodeFromFile h inode d mem t = .ok (f, fs') := by
  obtain ⟨inode, s1, _, hrun⟩ := Exec.of_bind_ok hrun
  obtain ⟨w, s2, _, hrun⟩ := Exec.of_bind_ok hrun
  obtain ⟨found, s3, _, hrun⟩ := Exec.of_bind_ok hrun
  cases found with
  | none => cases hrun
  | some w =>
    simp only [Exec.get_bind] at hrun
    obtain ⟨d, s4, _, hrun⟩ := Exec.of_bind_ok hrun
    obtain ⟨_, hrun⟩ := Exec.of_require_bind_ok hrun
    obtain ⟨inode, s5, _, hrun⟩ := Exec.of_bind_ok hrun
    obtain ⟨out, s6, hnode, hrun⟩ := Exec.of_bind_ok hrun
    cases hrun
    exists d, inode, fill s3.junk 0 0 FileNode.size, s5
    constructor
    · intro i hi
      exact fill_inside (Nat.zero_le i) (by omega)
    · exact hnode

theorem of_ext2Readdir_some {fuel nodeInode index : Nat} {fs fs' : Ext2Fs} {e : Buf}
    (hrun : ext2Readdir fuel nodeInode index fs = .ok (some e, fs')) :
    ∃ d inode mem s t, ext2Direntry fuel inode index s = .ok (some d, t) ∧
      direntFrom d mem t = .ok (e, fs') := by
  obtain ⟨inode, s1, _, hrun⟩ := Exec.of_bind_ok hrun
  obtain ⟨found, s2, hfound, hrun⟩ := Exec.of_bind_ok hrun
  cases found with
  | none => cases hrun
  | some d =>
    simp only [Exec.get_bind] at hrun
    obtain ⟨out, s3, hdirent, hrun⟩ := Exec.of_bind_ok hrun
    cases hrun
    exact ⟨d, inode, s2.junk, s1, s2, hfound, hdirent⟩

end KernelTest.Ext2
