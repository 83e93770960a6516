import Mathlib.Logic.Relation
import KernelTest.Framework.Bytes
import KernelTest.Framework.Explore

/-!
# The scan of the PCI buses

The driver reads the configuration headers through the two ports and calls a function for every device of a type.
Its parts call one another through the numbered requests of the module, and a bridge makes it scan the bus behind
the bridge.
-/

namespace KernelTest.Drivers

open Explore

/-- The configuration header of every function by bus, slot and function number, and the bytes at the ports
from 0xD00 on, behind those of the value. -/
structure PciSpace where
  header : Nat → Nat → Nat → Buf
  ports : Buf

/-- `pci_extract_bus(device)` -/
def pciExtractBus (device : Nat) : Nat := u8 (device >>> 16)

/-- `pci_extract_slot(device)` -/
def pciExtractSlot (device : Nat) : Nat := u8 (device >>> 8)

/-- `pci_extract_func(device)` -/
def pciExtractFunc (device : Nat) : Nat := u8 device

/-- `pci_get_addr(device, field)` -/
def pciGetAddr (device field : Nat) : Nat :=
  0x80000000 ||| (pciExtractBus device <<< 16) ||| (pciExtractSlot device <<< 11) |||
    (pciExtractFunc device <<< 8) ||| (field &&& 0xFC)

/-- `pci_box_device(bus, slot, func)` -/
def pciBoxDevice (bus slot func : Nat) : Nat := u32 ((bus <<< 16) ||| (slot <<< 8) ||| func)

/-- The byte at a port from 0xCFC on while the address port holds `address`: bus, slot, function and the aligned
field are bits of the address. -/
def PciSpace.port (s : PciSpace) (address port : Nat) : UInt8 :=
  if port < 0xD00 then
    s.header (address / 65536 % 256) (address / 2048 % 32) (address / 256 % 8) (address / 4 % 64 * 4 + (port - 0xCFC))
  else s.ports (port - 0xD00)

/-- `inl(port)` -/
def PciSpace.inl (s : PciSpace) (address port : Nat) : Nat := get32 (s.port address) port

/-- `pci_read_field_(device, field, size)` -/
def pciReadField (s : PciSpace) (device field size : Nat) : Nat :=
  let address := pciGetAddr device field
  if size = 4 then s.inl address 0xCFC
  else if size = 2 then u16 (s.inl address (0xCFC + (field &&& 2)))
  else if size = 1 then u8 (s.inl address (0xCFC + (field &&& 3)))
  else 0xFFFF

/-- `pci_find_type_(dev)` -/
def pciFindType (s : PciSpace) (dev : Nat) : Nat :=
  u16 ((pciReadField s dev 0x0b 1 <<< 8) ||| pciReadField s dev 0x0a 1)

/-- A call `f(device, vendor_id, device_id, extra)`. -/
structure PciHit where
  f : Nat
  device : Nat
  vendorId : Nat
  deviceId : Nat
  extra : Nat
  deriving DecidableEq

/-- `pci_scan_hit_(f, dev, extra)` -/
def pciScanHit (s : PciSpace) (f dev extra : Nat) : List PciHit :=
  [⟨f, dev, u16 (pciReadField s dev 0x00 2), u16 (pciReadField s dev 0x02 2), extra⟩]

/-- `pci_scan_func_(f, type, bus, slot, func, extra)`, whose scan of a bus is `scanBus`. The type -1 is the word
0xFFFFFFFF, and `PCI_SECONDARY_BUS` is 0x09. -/
def pciScanFunc (s : PciSpace) (scanBus : Nat → Option (List PciHit)) (f type bus slot func extra : Nat) :
    Option (List PciHit) :=
  let dev := pciBoxDevice bus slot func
  let hits := if type = 0xFFFFFFFF ∨ type = pciFindType s dev then pciScanHit s f dev extra else []
  if pciFindType s dev = 0x0604 then (scanBus (pciReadField s dev 0x09 1)).map (hits ++ ·) else some hits

/-- `pci_scan_slot_(f, type, bus, slot, extra)` -/
def pciScanSlot (s : PciSpace) (scanBus : Nat → Option (List PciHit)) (f type bus slot extra : Nat) :
    Option (List PciHit) :=
  if pciReadField s (pciBoxDevice bus slot 0) 0x00 2 = 0xFFFF then some []
  else (pciScanFunc s scanBus f type bus slot 0 extra).bind fun hits =>
    if pciReadField s (pciBoxDevice bus slot 0) 0x0e 1 = 0 then some hits
    else (collect (fun func =>
      if pciReadField s (pciBoxDevice bus slot func) 0x00 2 ≠ 0xFFFF then
        pciScanFunc s scanBus f type bus slot func extra
      else some []) (List.range' 1 7)).map (hits ++ ·)

/-- `pci_scan_bus_(f, type, bus, extra)`: the calls of `f`, unless the scan goes through more than `depth` buses
one behind the other. -/
def pciScanBus (s : PciSpace) (f type extra : Nat) : Nat → Nat → Option (List PciHit)
  | 0, _ => none
  | depth + 1, bus =>
    collect (fun slot => pciScanSlot s (pciScanBus s f type extra depth) f type bus slot extra) (List.range 32)

/-- `pci_scan_(f, type, extra)` -/
def pciScan_ (s : PciSpace) (depth f type extra : Nat) : Option (List PciHit) :=
  (pciScanBus s f type extra depth 0).bind fun hits =>
    if pciReadField s 0 0x0e 1 = 0 then some hits
    else (collect (pciScanBus s f type extra depth) ((List.range' 1 7).takeWhile fun func =>
      decide (pciReadField s (pciBoxDevice 0 0 func) 0x00 2 ≠ 0xFFFF))).map (hits ++ ·)

/-- The words of an `ioctl_packet` and, where a request has more of them than the caller gave, of the stack
behind it. -/
def packet (words : List Nat) (behind : Nat → Nat) (i : Nat) : Nat :=
  words.getD i (behind (i - words.length))

/-- The calls of callbacks that `pci_ioctl(packet)` makes. The requests 0 to 4 make none. -/
def pciIoctl (s : PciSpace) (depth : Nat) (d : Nat → Nat) : Option (List PciHit) :=
  match d 0 with
  | 5 => some (pciScanHit s (d 1) (d 2) (d 3))
  | 6 => pciScanFunc s (pciScanBus s (d 1) (d 2) (d 6) depth) (d 1) (d 2) (d 3) (d 4) (d 5) (d 6)
  | 7 => pciScanSlot s (pciScanBus s (d 1) (d 2) (d 5) depth) (d 1) (d 2) (d 3) (d 4) (d 5)
  | 8 => pciScanBus s (d 1) (d 2) (d 4) depth (d 3)
  | 9 => pciScan_ s depth (d 1) (d 2) (d 3)
  | _ => some []

/-- `pci_scan(f, type, extra)` -/
def pciScan (s : PciSpace) (depth f type extra : Nat) (behind : Nat → Nat) : Option (List PciHit) :=
  pciIoctl s depth (packet [8, f, type, extra] behind)

section Requests

variable (s : PciSpace) (depth f type bus slot func extra : Nat) (behind : Nat → Nat)

theorem pciIoctl_scanBus : pciIoctl s depth (packet [8, f, type, bus, extra] behind) =
    pciScanBus s f type extra depth bus := rfl

theorem pciIoctl_scanSlot : pciIoctl s depth (packet [7, f, type, bus, slot, extra] behind) =
    pciScanSlot s (fun bus => pciIoctl s depth (packet [8, f, type, bus, extra] behind)) f type bus slot extra := rfl

theorem pciIoctl_scanFunc : pciIoctl s depth (packet [6, f, type, bus, slot, func, extra] behind) =
    pciScanFunc s (fun bus => pciIoctl s depth (packet [8, f, type, bus, extra] behind)) f type bus slot func extra :=
  rfl

theorem pciScan_eq : pciScan s depth f type extra behind = pciScanBus s f type (behind 0) depth extra := rfl

end Requests

section Fields

variable {s : PciSpace} {bus slot func field : Nat}

private theorem or_eq_add {a b : Nat} (k : Nat) (ha : 2 ^ k ∣ a) (hb : b < 2 ^ k) : a ||| b = a + b := by
  obtain ⟨c, rfl⟩ := ha
  exact (Nat.two_pow_add_eq_or_of_lt hb c).symm

private theorem aligned_field (hfield : field < 256) : field &&& 0xFC = field / 4 * 4 := by
  revert field
  decide +kernel

theorem pciBoxDevice_eq (hslot : slot < 32) (hfunc : func < 8) :
    pciBoxDevice bus slot func = bus % 65536 * 65536 + slot * 256 + func := by
  have h1 : (bus <<< 16) ||| (slot <<< 8) = bus * 65536 + slot * 256 := by
    rw [Nat.shiftLeft_eq, Nat.shiftLeft_eq]
    exact or_eq_add 16 (Nat.dvd_mul_left _ _) (by omega)
  have h2 : bus * 65536 + slot * 256 ||| func = bus * 65536 + slot * 256 + func :=
    or_eq_add 8 (by omega) (by omega)
  rw [pciBoxDevice, h1, h2, u32]
  omega

theorem pciGetAddr_eq (hslot : slot < 32) (hfunc : func < 8) (hfield : field < 256) :
    pciGetAddr (pciBoxDevice bus slot func) field =
      2147483648 + bus % 256 * 65536 + slot * 2048 + func * 256 + field / 4 * 4 := by
  have hbus : pciExtractBus (pciBoxDevice bus slot func) = bus % 256 := by
    rw [pciBoxDevice_eq hslot hfunc, pciExtractBus, Nat.shiftRight_eq_div_pow, u8]
    omega
  have hslot' : pciExtractSlot (pciBoxDevice bus slot func) = slot := by
    rw [pciBoxDevice_eq hslot hfunc, pciExtractSlot, Nat.shiftRight_eq_div_pow, u8]
    omega
  have hfunc' : pciExtractFunc (pciBoxDevice bus slot func) = func := by
    rw [pciBoxDevice_eq hslot hfunc, pciExtractFunc, u8]
    omega
  have hmod : bus % 256 < 256 := Nat.mod_lt _ (by decide)
  rw [pciGetAddr, hbus, hslot', hfunc', aligned_field hfield, Nat.shiftLeft_eq, Nat.shiftLeft_eq, Nat.shiftLeft_eq]
  generalize bus % 256 = b at hmod ⊢
  have h1 : 0x80000000 ||| b * 2 ^ 16 = 2147483648 + b * 2 ^ 16 := or_eq_add 24 (by decide) (by omega)
  have h2 : 2147483648 + b * 2 ^ 16 ||| slot * 2 ^ 11 = 2147483648 + b * 2 ^ 16 + slot * 2 ^ 11 :=
    or_eq_add 16 (by omega) (by omega)
  have h3 : 2147483648 + b * 2 ^ 16 + slot * 2 ^ 11 ||| func * 2 ^ 8 =
      2147483648 + b * 2 ^ 16 + slot * 2 ^ 11 + func * 2 ^ 8 := or_eq_add 11 (by omega) (by omega)
  rw [h1, h2, h3]
  exact or_eq_add 8 (by omega) (by omega)

theorem port_pciGetAddr (hslot : slot < 32) (hfunc : func < 8) (hfield : field < 256) (port : Nat)
    (hport : port < 0xD00) : s.port (pciGetAddr (pciBoxDevice bus slot func) field) port =
      s.header (bus % 256) slot func (field / 4 * 4 + (port - 0xCFC)) := by
  have hmod : bus % 256 < 256 := Nat.mod_lt _ (by decide)
  rw [PciSpace.port, if_pos hport, pciGetAddr_eq hslot hfunc hfield]
  generalize bus % 256 = b at hmod ⊢
  generalize haddress : 2147483648 + b * 65536 + slot * 2048 + func * 256 + field / 4 * 4 = address
  have hb : address / 65536 % 256 = b := by omega
  have hs : address / 2048 % 32 = slot := by omega
  have hf : address / 256 % 8 = func := by omega
  have hreg : address / 4 % 64 * 4 = field / 4 * 4 := by omega
  rw [hb, hs, hf, hreg]

theorem pciReadField_byte (hslot : slot < 32) (hfunc : func < 8) (hfield : field < 256) :
    pciReadField s (pciBoxDevice bus slot func) field 1 = (s.header (bus % 256) slot func field).toNat := by
  have hlow : field &&& 3 = field % 4 := Nat.and_two_pow_sub_one_eq_mod field 2
  have hport : s.port (pciGetAddr (pciBoxDevice bus slot func) field) (0xCFC + field % 4) =
      s.header (bus % 256) slot func field := by
    rw [port_pciGetAddr hslot hfunc hfield _ (by omega),
      show field / 4 * 4 + (0xCFC + field % 4 - 0xCFC) = field by omega]
  rw [pciReadField, if_neg (by decide), if_neg (by decide), if_pos rfl, hlow, PciSpace.inl, get32, getLE, hport, u8]
  have hbyte := (s.header (bus % 256) slot func field).toNat_lt
  omega

theorem pciReadField_word (hslot : slot < 32) (hfunc : func < 8) (hfield : field = 0 ∨ field = 2) :
    pciReadField s (pciBoxDevice bus slot func) field 2 = get16 (s.header (bus % 256) slot func) field := by
  have hlow : field &&& 2 = field := by rcases hfield with rfl | rfl <;> decide
  have hport (i : Nat) (hi : i < 2) : s.port (pciGetAddr (pciBoxDevice bus slot func) field) (0xCFC + field + i) =
      s.header (bus % 256) slot func (field + i) := by
    rw [port_pciGetAddr hslot hfunc (by omega) _ (by omega),
      show field / 4 * 4 + (0xCFC + field + i - 0xCFC) = field + i by omega]
  have hfirst := hport 0 (by decide)
  have hsecond := hport 1 (by decide)
  rw [Nat.add_zero, Nat.add_zero] at hfirst
  rw [pciReadField, if_neg (by decide), if_pos rfl, hlow]
  simp only [PciSpace.inl, get32, get16, getLE, hfirst, hsecond, u16]
  have hbyte := (s.header (bus % 256) slot func field).toNat_lt
  have hbyte' := (s.header (bus % 256) slot func (field + 1)).toNat_lt
  omega

end Fields

def PciSpace.vendorOf (s : PciSpace) (bus slot func : Nat) : Nat := get16 (s.header bus slot func) 0x00

def PciSpace.deviceOf (s : PciSpace) (bus slot func : Nat) : Nat := get16 (s.header bus slot func) 0x02

/-- The class and the subclass of a function. -/
def PciSpace.classOf (s : PciSpace) (bus slot func : Nat) : Nat :=
  (s.header bus slot func 0x0b).toNat * 256 + (s.header bus slot func 0x0a).toNat

def Matches (type code : Nat) : Prop := type = 0xFFFFFFFF ∨ type = code

instance (type code : Nat) : Decidable (Matches type code) := inferInstanceAs (Decidable (_ ∨ _))

/-- The functions of a slot that the scan goes through. Only the low byte of the bus reaches the address port. -/
def slotFuncs (s : PciSpace) (bus slot : Nat) : List Nat :=
  if s.vendorOf (bus % 256) slot 0 = 0xFFFF then []
  else 0 :: if s.header (bus % 256) slot 0 0x0e = 0 then []
    else (List.range' 1 7).filter fun func => s.vendorOf (bus % 256) slot func ≠ 0xFFFF

/-- The slots and functions of a bus that the scan goes through. -/
def visited (s : PciSpace) (bus : Nat) : List (Nat × Nat) :=
  (List.range 32).flatMap fun slot => (slotFuncs s bus slot).map fun func => (slot, func)

/-- The bus that the scan takes to be behind a function. -/
def bridged (s : PciSpace) (bus : Nat) (i : Nat × Nat) : Option Nat :=
  if s.classOf (bus % 256) i.1 i.2 = 0x0604 then some (s.header (bus % 256) i.1 i.2 0x09).toNat else none

def hitOf (s : PciSpace) (f extra bus : Nat) (i : Nat × Nat) : PciHit :=
  ⟨f, bus * 65536 + i.1 * 256 + i.2, s.vendorOf (bus % 256) i.1 i.2, s.deviceOf (bus % 256) i.1 i.2, extra⟩

def called (s : PciSpace) (f type extra bus : Nat) (i : Nat × Nat) : List PciHit :=
  if Matches type (s.classOf (bus % 256) i.1 i.2) then [hitOf s f extra bus i] else []

section Scan

variable {s : PciSpace} {bus slot func : Nat}

theorem pciFindType_eq (hslot : slot < 32) (hfunc : func < 8) :
    pciFindType s (pciBoxDevice bus slot func) = s.classOf (bus % 256) slot func := by
  have hlow := (s.header (bus % 256) slot func 0x0a).toNat_lt
  have hhigh := (s.header (bus % 256) slot func 0x0b).toNat_lt
  rw [pciFindType, pciReadField_byte hslot hfunc (by decide), pciReadField_byte hslot hfunc (by decide),
    Nat.shiftLeft_eq, or_eq_add 8 (Nat.dvd_mul_left _ _) hlow, PciSpace.classOf, u16]
  omega

theorem pciScanHit_eq (f extra : Nat) (hslot : slot < 32) (hfunc : func < 8) :
    pciScanHit s f (pciBoxDevice bus slot func) extra = [hitOf s f extra (bus % 65536) (slot, func)] := by
  have hbus : bus % 65536 % 256 = bus % 256 := by omega
  rw [pciScanHit, pciReadField_word hslot hfunc (.inl rfl), pciReadField_word hslot hfunc (.inr rfl),
    u16_of_lt (get16_lt _ _), u16_of_lt (get16_lt _ _), pciBoxDevice_eq hslot hfunc, hitOf, hbus]
  rfl

theorem pciScanFunc_eq (scanBus : Nat → Option (List PciHit)) (f type extra : Nat) (hslot : slot < 32)
    (hfunc : func < 8) : pciScanFunc s scanBus f type bus slot func extra =
      match bridged s (bus % 65536) (slot, func) with
      | none => some (called s f type extra (bus % 65536) (slot, func))
      | some w => (scanBus w).map (called s f type extra (bus % 65536) (slot, func) ++ ·) := by
  have hbus : bus % 65536 % 256 = bus % 256 := by omega
  simp only [pciScanFunc, pciFindType_eq hslot hfunc, pciScanHit_eq f extra hslot hfunc,
    pciReadField_byte hslot hfunc (show 0x09 < 256 by decide), bridged, called, Matches, hbus]
  split <;> rfl

theorem pciScanSlot_eq (scanBus : Nat → Option (List PciHit)) (f type extra : Nat) (hslot : slot < 32) :
    pciScanSlot s scanBus f type bus slot extra =
      collect (fun func => pciScanFunc s scanBus f type bus slot func extra) (slotFuncs s (bus % 65536) slot) := by
  have hbus : bus % 65536 % 256 = bus % 256 := by omega
  have hheader : pciReadField s (pciBoxDevice bus slot 0) 0x0e 1 = 0 ↔ s.header (bus % 256) slot 0 0x0e = 0 := by
    rw [pciReadField_byte hslot (by decide) (by decide)]
    exact ⟨fun h => UInt8.toNat_inj.mp h, fun h => by rw [h]; rfl⟩
  have hfuncs : collect (fun func =>
      if pciReadField s (pciBoxDevice bus slot func) 0x00 2 ≠ 0xFFFF then
        pciScanFunc s scanBus f type bus slot func extra
      else some []) (List.range' 1 7) =
      collect (fun func => pciScanFunc s scanBus f type bus slot func extra)
        ((List.range' 1 7).filter fun func => s.vendorOf (bus % 256) slot func ≠ 0xFFFF) := by
    rw [collect_filter]
    refine collect_congr fun func hmem => ?_
    have hfunc : func < 8 := by
      have := List.mem_range'_1.mp hmem
      omega
    rw [pciReadField_word hslot hfunc (.inl rfl), PciSpace.vendorOf]
    by_cases hvendor : get16 (s.header (bus % 256) slot func) 0 = 0xFFFF <;> simp [hvendor]
  rw [pciScanSlot, slotFuncs, hbus, hfuncs, pciReadField_word hslot (by decide) (.inl rfl), ← PciSpace.vendorOf]
  by_cases hvendor : s.vendorOf (bus % 256) slot 0 = 0xFFFF
  · rw [if_pos hvendor, if_pos hvendor]
    rfl
  · rw [if_neg hvendor, if_neg hvendor, collect]
    by_cases hzero : s.header (bus % 256) slot 0 0x0e = 0
    · simp only [if_pos hzero, if_pos (hheader.mpr hzero), collect, Option.map_some, List.append_nil]
    · simp only [if_neg hzero, if_neg (mt hheader.mp hzero)]

theorem mem_slotFuncs : func ∈ slotFuncs s bus slot ↔ func < 8 ∧ s.vendorOf (bus % 256) slot 0 ≠ 0xFFFF ∧
    s.vendorOf (bus % 256) slot func ≠ 0xFFFF ∧ (func = 0 ∨ s.header (bus % 256) slot 0 0x0e ≠ 0) := by
  rw [slotFuncs]
  by_cases hvendor : s.vendorOf (bus % 256) slot 0 = 0xFFFF
  · simp [hvendor]
  · rw [if_neg hvendor, List.mem_cons]
    rcases Nat.eq_zero_or_pos func with rfl | hpos
    · simp [hvendor]
    · have hrange : func ∈ List.range' 1 7 ↔ func < 8 := by
        rw [List.mem_range'_1]
        omega
      have hne : func ≠ 0 := by omega
      by_cases hheader : s.header (bus % 256) slot 0 0x0e = 0
      · simp [hheader, hne]
      · rw [if_neg hheader, List.mem_filter, hrange]
        simp [hne, hheader, hvendor]

theorem mem_visited {i : Nat × Nat} : i ∈ visited s bus ↔ i.1 < 32 ∧ i.2 ∈ slotFuncs s bus i.1 := by
  obtain ⟨slot, func⟩ := i
  simp [visited]

theorem nodup_slotFuncs (s : PciSpace) (bus slot : Nat) : (slotFuncs s bus slot).Nodup := by
  rw [slotFuncs]
  split
  · exact .nil
  · refine List.nodup_cons.mpr ⟨fun hmem => ?_, ?_⟩
    · split at hmem
      · cases hmem
      · have := (List.mem_range'_1.mp (List.mem_filter.mp hmem).1).1
        omega
    · split
      · exact .nil
      · exact (List.nodup_range' 1).filter _

theorem nodup_visited (s : PciSpace) (bus : Nat) : (visited s bus).Nodup := by
  refine List.nodup_flatMap.mpr ⟨fun slot _ => ?_, List.nodup_range.imp fun {slot slot'} hne i hi hi' => ?_⟩
  · exact (nodup_slotFuncs s bus slot).map fun _ _ heq => (Prod.mk.inj heq).2
  · obtain ⟨func, -, rfl⟩ := List.mem_map.mp hi
    obtain ⟨func', -, heq⟩ := List.mem_map.mp hi'
    exact hne (Prod.mk.inj heq).1.symm

theorem bridged_lt {i : Nat × Nat} {w : Nat} (h : bridged s bus i = some w) : w < 256 := by
  simp only [bridged, Option.ite_none_right_eq_some, Option.some.injEq] at h
  obtain ⟨-, rfl⟩ := h
  exact (s.header (bus % 256) i.1 i.2 0x09).toNat_lt

theorem pciScanBus_eq (f type extra depth : Nat) :
    pciScanBus s f type extra depth bus =
      explore (visited s) (bridged s) (called s f type extra) depth (bus % 65536) := by
  induction depth generalizing bus with
  | zero => rfl
  | succ depth ih =>
    rw [pciScanBus, explore, visited, collect_flatMap]
    refine collect_congr fun slot hmem => ?_
    have hslot : slot < 32 := List.mem_range.mp hmem
    rw [pciScanSlot_eq _ _ _ _ hslot, collect_map]
    refine collect_congr fun func hfuncs => ?_
    rw [pciScanFunc_eq _ _ _ _ hslot (mem_slotFuncs.mp hfuncs).1]
    cases hnext : bridged s (bus % 65536) (slot, func) with
    | none => rfl
    | some w =>
      have hw : w % 65536 = w := by
        have := bridged_lt hnext
        omega
      simp only [ih, hw]

theorem pciScanBus_endless {i : Nat × Nat} (hi : i ∈ visited s bus) (hbus : bridged s bus i = some bus)
    (f type extra depth : Nat) : pciScanBus s f type extra depth bus = none := by
  have hlt : bus % 65536 = bus := by
    have := bridged_lt hbus
    omega
  have hloop : ¬ Acc (Leads (visited s) (bridged s)) bus := not_acc_of_leads ⟨i, hi, hbus⟩
  rw [pciScanBus_eq, hlt]
  cases h : explore (visited s) (bridged s) (called s f type extra) depth bus with
  | none => rfl
  | some hits => exact absurd ((exists_explore_iff bus).mp ⟨depth, hits, h⟩) hloop

end Scan

namespace PciSpace

variable (s : PciSpace)

/-- A function of the standard: one beside function 0 exists where function 0 has the multi-function bit. -/
def Present (bus slot func : Nat) : Prop :=
  slot < 32 ∧ func < 8 ∧ s.vendorOf bus slot func ≠ 0xFFFF ∧
    (func = 0 ∨ s.vendorOf bus slot 0 ≠ 0xFFFF ∧ 128 ≤ (s.header bus slot 0 0x0e).toNat)

def IsBridge (bus slot func : Nat) : Prop := s.Present bus slot func ∧ s.classOf bus slot func = 0x0604

/-- The secondary bus number of the header of a PCI-to-PCI bridge. -/
def secondary (bus slot func : Nat) : Nat := (s.header bus slot func 0x19).toNat

def Below (bus bus' : Nat) : Prop := ∃ slot func, s.IsBridge bus slot func ∧ s.secondary bus slot func = bus'

def InTree (bus : Nat) : Prop := Relation.ReflTransGen s.Below 0 bus

/-- Each bus is behind one bridge, and bus 0 behind none. -/
structure IsTree : Prop where
  root : ∀ bus slot func, s.InTree bus → s.IsBridge bus slot func → s.secondary bus slot func ≠ 0
  single : ∀ bus slot func bus' slot' func', s.InTree bus → s.InTree bus' → s.IsBridge bus slot func →
    s.IsBridge bus' slot' func' → s.secondary bus slot func = s.secondary bus' slot' func' →
    bus = bus' ∧ slot = slot' ∧ func = func'

/-- A bridge names its own bus or one above it. -/
def Cyclic : Prop := ∃ bus, s.InTree bus ∧ Relation.TransGen s.Below bus bus

structure Wanted (type bus slot func : Nat) : Prop where
  inTree : s.InTree bus
  present : s.Present bus slot func
  isType : Matches type (s.classOf bus slot func)

/-- The scan ends, and in a tree of buses it calls `f` once for every function of the type. -/
def ScansRight (f type extra : Nat) (behind : Nat → Nat) : Prop :=
  (s.IsTree ∨ s.Cyclic → ∃ depth hits, pciScan s depth f type extra behind = some hits) ∧
  (s.IsTree → ∃ depth hits, pciScan s depth f type extra behind = some hits ∧ hits.Nodup ∧
    ∀ h, h ∈ hits ↔ ∃ bus slot func, s.Wanted type bus slot func ∧
      h = ⟨f, bus * 65536 + slot * 256 + func, s.vendorOf bus slot func, s.deviceOf bus slot func, extra⟩)

/-- The bytes 0x09 of the bridges lead from a first bus along one route to each function of the type that is to be
reported, and to no other function of the type. -/
structure Covered (type first : Nat) : Prop where
  inside : ∀ p bus i, Route (visited s) (bridged s) first p bus → i ∈ visited s bus →
    Matches type (s.classOf (bus % 256) i.1 i.2) → s.Wanted type bus i.1 i.2
  single : ∀ p q bus i, Route (visited s) (bridged s) first p bus → Route (visited s) (bridged s) first q bus →
    i ∈ visited s bus → Matches type (s.classOf (bus % 256) i.1 i.2) → p = q
  covers : ∀ bus slot func, s.Wanted type bus slot func → ∃ p, Route (visited s) (bridged s) first p bus

variable {s} {type f extra : Nat} {behind : Nat → Nat}

theorem InTree.lt {bus : Nat} (h : s.InTree bus) : bus < 256 := by
  rcases h.cases_tail with rfl | ⟨bus', -, slot, func, -, rfl⟩
  · decide
  · exact (s.header bus' slot func 0x19).toNat_lt

theorem Present.mem_visited {bus slot func : Nat} (h : s.Present bus slot func) (hbus : bus < 256) :
    (slot, func) ∈ visited s bus := by
  obtain ⟨hslot, hfunc, hvendor, hmulti⟩ := h
  refine Drivers.mem_visited.mpr ⟨hslot, mem_slotFuncs.mpr ?_⟩
  rw [Nat.mod_eq_of_lt hbus]
  rcases hmulti with rfl | ⟨hfirst, hbit⟩
  · exact ⟨hfunc, hvendor, hvendor, .inl rfl⟩
  · refine ⟨hfunc, hfirst, hvendor, .inr fun hzero => ?_⟩
    rw [hzero] at hbit
    exact absurd hbit (by decide)

theorem hitOf_inj {bus bus' e e' : Nat} {i i' : Nat × Nat} (hi : i ∈ visited s bus) (hi' : i' ∈ visited s bus')
    (h : hitOf s f e bus i = hitOf s f e' bus' i') : bus = bus' ∧ i = i' ∧ e = e' := by
  obtain ⟨hslot, hfunc⟩ := Drivers.mem_visited.mp hi
  obtain ⟨hslot', hfunc'⟩ := Drivers.mem_visited.mp hi'
  have hlt := (mem_slotFuncs.mp hfunc).1
  have hlt' := (mem_slotFuncs.mp hfunc').1
  obtain ⟨-, hdevice, -, -, he⟩ := PciHit.mk.inj h
  exact ⟨by omega, Prod.ext (by omega) (by omega), he⟩

theorem mem_called {bus e : Nat} {i : Nat × Nat} {h : PciHit} :
    h ∈ called s f type e bus i ↔ Matches type (s.classOf (bus % 256) i.1 i.2) ∧ h = hitOf s f e bus i := by
  rw [called]
  split
  · simp [*]
  · simp [*]

theorem nodup_called (s : PciSpace) (f type e bus : Nat) :
    ((visited s bus).flatMap (called s f type e bus)).Nodup := by
  refine List.nodup_flatMap.mpr ⟨fun i _ => ?_, (nodup_visited s bus).imp_of_mem fun {i i'} hi hi' hne h hh hh' => ?_⟩
  · rw [called]
    split
    · exact List.nodup_singleton _
    · exact .nil
  · exact hne (hitOf_inj hi hi' ((mem_called.mp hh).2.symm.trans (mem_called.mp hh').2)).2.1

theorem mem_hits {depth : Nat} {hits : List PciHit} (hv : pciScan s depth f type extra behind = some hits)
    (h : PciHit) : h ∈ hits ↔ ∃ p bus, Route (visited s) (bridged s) (extra % 65536) p bus ∧
      ∃ i ∈ visited s bus, Matches type (s.classOf (bus % 256) i.1 i.2) ∧ h = hitOf s f (behind 0) bus i := by
  rw [pciScan_eq, pciScanBus_eq] at hv
  simp only [mem_explore hv, mem_called]

theorem nodup_hits {depth : Nat} {hits : List PciHit} (hv : pciScan s depth f type extra behind = some hits) :
    hits.Nodup ↔ ∀ p q bus i, Route (visited s) (bridged s) (extra % 65536) p bus →
      Route (visited s) (bridged s) (extra % 65536) q bus → i ∈ visited s bus →
      Matches type (s.classOf (bus % 256) i.1 i.2) → p = q := by
  rw [pciScan_eq, pciScanBus_eq] at hv
  rw [nodup_explore (nodup_visited s) hv]
  constructor
  · intro ⟨_, hdisjoint⟩ p q bus i hp hq hi htype
    by_contra hne
    have hcall : hitOf s f (behind 0) bus i ∈ (visited s bus).flatMap (called s f type (behind 0) bus) :=
      List.mem_flatMap.mpr ⟨i, hi, mem_called.mpr ⟨htype, rfl⟩⟩
    exact hdisjoint p bus q bus hp hq (fun heq => hne (Prod.mk.inj heq).1) hcall hcall
  · intro hsingle
    refine ⟨fun p bus _ => nodup_called s f type (behind 0) bus, fun p bus q bus' hp hq hne h hh hh' => hne ?_⟩
    obtain ⟨i, hi, hcall⟩ := List.mem_flatMap.mp hh
    obtain ⟨i', hi', hcall'⟩ := List.mem_flatMap.mp hh'
    obtain ⟨htype, rfl⟩ := mem_called.mp hcall
    obtain ⟨rfl, -, -⟩ := hitOf_inj hi hi' (mem_called.mp hcall').2
    rw [hsingle p q bus i hp hq hi htype]

theorem Wanted.hit {bus slot func : Nat} (h : s.Wanted type bus slot func) (e : Nat) :
    hitOf s f e bus (slot, func) =
      ⟨f, bus * 65536 + slot * 256 + func, s.vendorOf bus slot func, s.deviceOf bus slot func, e⟩ := by
  rw [hitOf, Nat.mod_eq_of_lt h.inTree.lt]

theorem Wanted.visited {bus slot func : Nat} (h : s.Wanted type bus slot func) :
    (slot, func) ∈ visited s bus ∧ Matches type (s.classOf (bus % 256) slot func) := by
  refine ⟨h.present.mem_visited h.inTree.lt, ?_⟩
  rw [Nat.mod_eq_of_lt h.inTree.lt]
  exact h.isType

theorem exists_pciScan_iff (s : PciSpace) (f type extra : Nat) (behind : Nat → Nat) :
    (∃ depth hits, pciScan s depth f type extra behind = some hits) ↔
      Acc (Leads (visited s) (bridged s)) (extra % 65536) := by
  simp only [pciScan_eq, pciScanBus_eq]
  exact exists_explore_iff _

private def hostOnly : PciSpace where
  header bus slot func i :=
    if bus = 0 ∧ slot = 0 ∧ func = 0 then [0x86, 0x80, 0x37, 0x12, 6, 0, 0, 2, 2, 0, 0, 6, 0, 0, 0].getD i 0 else 0xFF
  ports _ := 0xFF

private theorem hostOnly_present {bus slot func : Nat} (h : hostOnly.Present bus slot func) :
    bus = 0 ∧ slot = 0 ∧ func = 0 := by
  by_contra hne
  refine h.2.2.1 ?_
  simp [vendorOf, get16, getLE, hostOnly, hne]

private theorem hostOnly_isTree : hostOnly.IsTree := by
  have hnone (bus slot func : Nat) : ¬ hostOnly.IsBridge bus slot func := by
    rintro ⟨hpresent, hbridge⟩
    obtain ⟨rfl, rfl, rfl⟩ := hostOnly_present hpresent
    exact absurd hbridge (by decide)
  exact ⟨fun _ _ _ _ h => absurd h (hnone _ _ _), fun _ _ _ _ _ _ _ _ h => absurd h (hnone _ _ _)⟩

end PciSpace

end KernelTest.Drivers
