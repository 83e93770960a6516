import KernelTest.Initrd.Image

/-!
# Reading a file of the ramdisk

`initrd_read` clamps the offset and the size separately, and adds the offset to a pointer to words.
-/

namespace KernelTest.Initrd

/-- What a read returns: the size, the buffer, and the address from which so many bytes were copied. -/
structure PieceRead where
  size : Nat
  buffer : Buf
  source : Nat

section Read

variable (mem : Buf) (location : Nat) (node : File)

/-- `initrd_read(node, offset, size, buffer)` -/
def initrdRead (offset size : Nat) (buffer : Buf) : PieceRead :=
  let offset := if offset > node.size then 0 else offset
  let size := if size > node.size then node.size else size
  let source := u32 (fsGetfileAddr mem location node + 4 * offset)
  ⟨size, fun i => if i < size then mem (u32 (source + i)) else buffer i, source⟩

/-- Byte `i` of a file. -/
def fileByte (i : Nat) : UInt8 := mem (u32 (fsGetfileAddr mem location node + i))

/-- The number of bytes that a request is to get. -/
def bytesLeft (offset size : Nat) : Nat := min size (node.size - offset)

/-- The request gets its bytes of the file, and nothing else is read or written. -/
structure ReadsPiece (offset size : Nat) (buffer : Buf) : Prop where
  returned : (initrdRead mem location node offset size buffer).size = bytesLeft node offset size
  copied : ∀ i < bytesLeft node offset size,
    (initrdRead mem location node offset size buffer).buffer i = fileByte mem location node (offset + i)
  kept : ∀ i, bytesLeft node offset size ≤ i →
    (initrdRead mem location node offset size buffer).buffer i = buffer i
  inside : ∀ i < (initrdRead mem location node offset size buffer).size, ∃ j < node.size,
    u32 ((initrdRead mem location node offset size buffer).source + i) =
      u32 (fsGetfileAddr mem location node + j)

/-- Nothing is to be read, or the request begins at the beginning of the file, or it ends in the file and the bytes
from four times the offset on are in the file, too, and the same. -/
def PieceFits (offset size : Nat) : Prop :=
  size = 0 ∨ node.size = 0 ∨ offset = 0 ∨
    (offset + size ≤ node.size ∧ u32 (4 * offset) + size ≤ node.size ∧
      ∀ i < size, fileByte mem location node (u32 (4 * offset) + i) = fileByte mem location node (offset + i))

/-- Pieces of a file one after the other, each from where the one before ended. -/
def readPieces (buffer : Buf) : Nat → List Nat → List UInt8
  | _, [] => []
  | offset, size :: sizes =>
    let r := initrdRead mem location node offset size buffer
    (List.range r.size).map r.buffer ++ readPieces buffer (offset + r.size) sizes

def PiecesFit : Nat → List Nat → Prop
  | _, [] => True
  | offset, size :: sizes =>
    PieceFits mem location node offset size ∧ PiecesFit (offset + bytesLeft node offset size) sizes

end Read

section Piece

variable {mem : Buf} {location : Nat} {node : File} {offset size : Nat} {buffer : Buf}

theorem address_inj {a i j : Nat} (hi : i < 2 ^ 32) (hj : j < 2 ^ 32) (h : u32 (a + i) = u32 (a + j)) : i = j := by
  unfold u32 at h
  omega

theorem u32_source (a p i : Nat) : u32 (u32 (a + p) + i) = u32 (a + (u32 p + i)) := by
  unfold u32
  omega

theorem initrdRead_buffer (h : offset ≤ node.size) {i : Nat}
    (hi : i < (initrdRead mem location node offset size buffer).size) :
    (initrdRead mem location node offset size buffer).buffer i =
      fileByte mem location node (u32 (4 * offset) + i) := by
  have hin : ¬ offset > node.size := Nat.not_lt.mpr h
  rw [initrdRead] at hi ⊢
  change (if _ then _ else _) = _
  rw [if_pos hi, if_neg hin, u32_source]
  rfl

theorem initrdRead_source (h : offset ≤ node.size) (i : Nat) :
    u32 ((initrdRead mem location node offset size buffer).source + i) =
      u32 (fsGetfileAddr mem location node + (u32 (4 * offset) + i)) := by
  have hin : ¬ offset > node.size := Nat.not_lt.mpr h
  rw [initrdRead]
  change u32 (u32 (_ + 4 * (if _ then _ else _)) + i) = _
  rw [if_neg hin, u32_source]

theorem initrdRead_size : (initrdRead mem location node offset size buffer).size = min size node.size := by
  change (if size > node.size then node.size else size) = _
  split
  · next h => exact (Nat.min_eq_right (Nat.le_of_lt h)).symm
  · next h => exact (Nat.min_eq_left (Nat.le_of_not_lt h)).symm

theorem initrdRead_kept {i : Nat} (h : (initrdRead mem location node offset size buffer).size ≤ i) :
    (initrdRead mem location node offset size buffer).buffer i = buffer i :=
  if_neg (Nat.not_lt.mpr h)

theorem inside_iff (hnode : node.size < 2 ^ 32) (hoffset : offset ≤ node.size) {n : Nat} (hpos : 0 < n) :
    (∀ i < n, ∃ j < node.size, u32 ((initrdRead mem location node offset size buffer).source + i) =
      u32 (fsGetfileAddr mem location node + j)) ↔ u32 (4 * offset) + n ≤ node.size := by
  have hplace := u32_lt (4 * offset)
  constructor
  · intro h
    by_contra hout
    have hfirst : u32 (4 * offset) < node.size := by
      obtain ⟨j, hj, hsame⟩ := h 0 hpos
      have hjlt : j < 2 ^ 32 := by omega
      rw [initrdRead_source hoffset, Nat.add_zero] at hsame
      exact (address_inj hplace hjlt hsame).symm ▸ hj
    obtain ⟨j, hj, hsame⟩ := h (node.size - u32 (4 * offset)) (by omega)
    rw [initrdRead_source hoffset, Nat.add_sub_cancel' (Nat.le_of_lt hfirst)] at hsame
    have heq := address_inj hnode (by omega) hsame
    omega
  · intro h i hi
    exact ⟨u32 (4 * offset) + i, by omega, initrdRead_source hoffset i⟩

theorem readsPiece_iff_fits (hnode : node.size < 2 ^ 32) :
    ReadsPiece mem location node offset size buffer ↔ PieceFits mem location node offset size := by
  have hsize := @initrdRead_size mem location node offset size buffer
  by_cases hempty : size = 0 ∨ node.size = 0
  · have hnone : (initrdRead mem location node offset size buffer).size = 0 := by omega
    have hleft : bytesLeft node offset size = 0 := by
      unfold bytesLeft
      omega
    have hpiece : ReadsPiece mem location node offset size buffer := by
      constructor
      · rw [hnone, hleft]
      · intro i hi
        omega
      · intro i _
        exact initrdRead_kept (by omega)
      · intro i hi
        omega
    have hfits : PieceFits mem location node offset size := hempty.elim .inl fun h => .inr (.inl h)
    exact iff_of_true hpiece hfits
  · have hpos : 0 < min size node.size := by omega
    constructor
    · intro h
      have hreturned := h.returned
      rw [hsize, bytesLeft] at hreturned
      have hin : offset ≤ node.size := by omega
      by_cases hzero : offset = 0
      · exact .inr (.inr (.inl hzero))
      · have hall : offset + size ≤ node.size := by omega
        have hcount : (initrdRead mem location node offset size buffer).size = size := by omega
        have hinside := h.inside
        rw [hcount, inside_iff hnode hin (by omega)] at hinside
        refine .inr (.inr (.inr ⟨hall, hinside, fun i hi => ?_⟩))
        rw [← h.copied i (by rw [bytesLeft]; omega), initrdRead_buffer hin (by omega)]
    · intro h
      have hcases : offset = 0 ∨ (offset + size ≤ node.size ∧ u32 (4 * offset) + size ≤ node.size ∧
          ∀ i < size, fileByte mem location node (u32 (4 * offset) + i) = fileByte mem location node (offset + i)) := by
        rcases h with h | h | h
        · exact absurd (.inl h) hempty
        · exact absurd (.inr h) hempty
        · exact h
      have hin : offset ≤ node.size := by omega
      have hreturned : (initrdRead mem location node offset size buffer).size = bytesLeft node offset size := by
        rw [hsize, bytesLeft]
        omega
      have hplace : u32 (4 * offset) + min size node.size ≤ node.size := by
        cases hcases with
        | inl hzero =>
          rw [hzero]
          change 0 + _ ≤ _
          omega
        | inr hcases => omega
      constructor
      · exact hreturned
      · intro i hi
        rw [initrdRead_buffer hin (by omega)]
        cases hcases with
        | inl hzero =>
          rw [hzero]
          rfl
        | inr hcases => exact hcases.2.2 i (by rw [bytesLeft] at hi; omega)
      · intro i hi
        exact initrdRead_kept (by omega)
      · rw [hsize]
        exact (inside_iff hnode hin hpos).mpr hplace

theorem readPieces_eq (hnode : node.size < 2 ^ 32) (sizes : List Nat) (hin : offset ≤ node.size)
    (hfit : PiecesFit mem location node offset sizes) : readPieces mem location node buffer offset sizes =
      (List.range (bytesLeft node offset sizes.sum)).map fun i => fileByte mem location node (offset + i) := by
  induction sizes generalizing offset with
  | nil =>
    rw [List.sum_nil, bytesLeft, Nat.zero_min]
    rfl
  | cons size sizes ih =>
    have hpiece : ReadsPiece mem location node offset size buffer := (readsPiece_iff_fits hnode).mpr hfit.1
    have hnext : offset + bytesLeft node offset size ≤ node.size := by
      rw [bytesLeft]
      omega
    have htotal : bytesLeft node offset (size :: sizes).sum =
        bytesLeft node offset size + bytesLeft node (offset + bytesLeft node offset size) sizes.sum := by
      rw [List.sum_cons, bytesLeft, bytesLeft, bytesLeft]
      omega
    have hfirst : (List.range (bytesLeft node offset size)).map
        (initrdRead mem location node offset size buffer).buffer =
        (List.range (bytesLeft node offset size)).map fun i => fileByte mem location node (offset + i) :=
      List.map_congr_left fun i hi => hpiece.copied i (List.mem_range.mp hi)
    have hrest := ih hnext hfit.2
    simp only [Nat.add_assoc] at hrest
    rw [readPieces, hpiece.returned, hfirst, hrest, htotal, List.range_add, List.map_append, List.map_map]
    rfl

/-- A request is served right exactly if it fits; requests that fit, each from where the one before ended, yield the
file as one request does. -/
theorem readsPiece_iff (mem : Buf) (location : Nat) (node : File) (hnode : node.size < 2 ^ 32) (buffer : Buf) :
    (∀ offset size : UInt32, ReadsPiece mem location node offset.toNat size.toNat buffer ↔
      PieceFits mem location node offset.toNat size.toNat) ∧
    (∀ sizes : List Nat, PiecesFit mem location node 0 sizes → readPieces mem location node buffer 0 sizes =
      readPieces mem location node buffer 0 [sizes.sum]) := by
  refine ⟨fun offset size => readsPiece_iff_fits hnode, fun sizes hfit => ?_⟩
  have hone : PiecesFit mem location node 0 [sizes.sum] := ⟨.inr (.inr (.inl rfl)), trivial⟩
  rw [readPieces_eq hnode sizes (Nat.zero_le _) hfit, readPieces_eq hnode [sizes.sum] (Nat.zero_le _) hone,
    List.sum_singleton]

/-- An image of one file, which has the bytes 0, …, 7. -/
def eightBytes : Buf
  | 0 => 80
  | 4 => 1
  | 8 => 80
  | 12 => 8
  | 16 => 97
  | i => UInt8.ofNat (i - 80)

def eightNode : File := ⟨[97, 0], 0, 0, 0, fsFile, 0, 8⟩

theorem readsPiece_iff_eight : (∀ offset size : UInt32,
    ReadsPiece eightBytes 0 eightNode offset.toNat size.toNat (fun _ => 0) ↔
      PieceFits eightBytes 0 eightNode offset.toNat size.toNat) ∧
    (∀ sizes : List Nat, PiecesFit eightBytes 0 eightNode 0 sizes →
      readPieces eightBytes 0 eightNode (fun _ => 0) 0 sizes =
        readPieces eightBytes 0 eightNode (fun _ => 0) 0 [sizes.sum]) :=
  readsPiece_iff eightBytes 0 eightNode (by decide) _

/-- One byte at offset 1 is the byte at offset 4. -/
theorem not_readsPiece_eight : ¬ ReadsPiece eightBytes 0 eightNode 1 1 fun _ => 0 := by
  intro h
  exact absurd (h.copied 0 (by decide)) (by decide)

end Piece

end KernelTest.Initrd
