import KernelTest.Drivers.Mouse

/-!
# What the mouse sends

The packets that `mouse_handler` makes from the bytes of a mouse, however they are spread over its calls. The
two sign bits of the first byte are not looked at: a movement is the 8-bit number of its byte.
-/

namespace KernelTest.Drivers

open KernelTest.Ipc

/-! ## The packets that are written -/

namespace MouseDriver

/-- `finish_packet`, as far as the packet that is written. -/
def finish (m : MouseDriver) : MouseDriver × List MousePacket :=
  let m := { m with cycle := 0 }
  if m.byte 0 &&& 0x80 ≠ 0 ∨ m.byte 0 &&& 0x40 ≠ 0 then (m, []) else (m, [m.packet])

def accept (m : MouseDriver) (mouseIn : UInt8) : MouseDriver × List MousePacket :=
  if (m.feed mouseIn).2 then (m.feed mouseIn).1.finish else ((m.feed mouseIn).1, [])

def acceptAll : List UInt8 → MouseDriver → MouseDriver × List MousePacket
  | [], m => (m, [])
  | b :: bytes, m =>
    ((acceptAll bytes (m.accept b).1).1, (m.accept b).2 ++ (acceptAll bytes (m.accept b).1).2)

end MouseDriver

/-- The bytes of the mouse among what a call of the handler reads. -/
def mouseBytes (inputs : List (UInt8 × UInt8)) : List UInt8 :=
  ((inputs.takeWhile fun i => i.1 &&& 0x01 ≠ 0).filter fun i => i.1 &&& 0x20 ≠ 0).map Prod.snd

/-- Calls of the handler, one after the other. -/
def mouseHandlers : List (List (UInt8 × UInt8)) → MouseDriver → ReadyQueue → DevicePipe →
    Handler (MouseDriver × ReadyQueue × DevicePipe)
  | [], m, q, d => pure (m, q, d)
  | inputs :: calls, m, q, d => do
    let (m, q, d) ← mouseHandler inputs m q d
    mouseHandlers calls m q d

/-- The packets that calls of the handler write into the pipe, in order. -/
def handedOver (calls : List (List (UInt8 × UInt8))) (m : MouseDriver) : List MousePacket :=
  (MouseDriver.acceptAll (calls.flatMap mouseBytes) m).2

/-- The loop that throws packets away and the `fwrite`, for packets one after the other. -/
def deliver : List MousePacket → ReadyQueue → DevicePipe → Handler (ReadyQueue × DevicePipe)
  | [], q, d => pure (q, d)
  | p :: packets, q, d => do
    let (q, d) ← discard (pipeUnread d.toPipe + 1) q d
    let (q, d) ← writePipe p.bytes q d
    deliver packets q d

/-! ## The packets that are meant -/

/-- The bytes of a packet; the fourth one is sent in some modes only. -/
structure Ps2Packet where
  head : UInt8
  x : UInt8
  y : UInt8
  wheel : UInt8

namespace Ps2Packet

def bytes (mode : UInt8) (p : Ps2Packet) : List UInt8 :=
  if mode = mouseScrollwheel ∨ mode = mouseButtons then [p.head, p.x, p.y, p.wheel]
  else [p.head, p.x, p.y]

def WellFormed (p : Ps2Packet) : Prop := p.head &&& 0x08 ≠ 0

def Overflows (p : Ps2Packet) : Prop := p.head &&& 0x80 ≠ 0 ∨ p.head &&& 0x40 ≠ 0

instance (p : Ps2Packet) : Decidable p.Overflows := inferInstanceAs (Decidable (_ ∨ _))

/-- The number of 9 bits with the sign bit `sign` and the other bits `b`. -/
def movement (sign : Prop) [Decidable sign] (b : UInt8) : Int := b.toNat - if sign then 256 else 0

/-- An `int32_t` as it is stored. -/
def stored (n : Int) : Nat := (n % 2 ^ 32).toNat

/-- The bit of the wheel, from the sign of its byte. -/
def scroll (mode : UInt8) (p : Ps2Packet) : Nat :=
  if mode = mouseScrollwheel ∧ p.wheel ≠ 0 then if p.wheel.toNat < 128 then 0x20 else 0x10 else 0

def decode (mode : UInt8) (p : Ps2Packet) : MousePacket where
  magic := mouseMagic
  xDifference := stored (movement (p.head &&& 0x10 ≠ 0) p.x)
  yDifference := stored (movement (p.head &&& 0x20 ≠ 0) p.y)
  buttons := (p.head &&& 0x07).toNat ||| p.scroll mode

/-- The sign bits are the highest bits of the movements' bytes, which means that the movements are numbers of
8 bits. -/
def SignsAgree (p : Ps2Packet) : Prop :=
  (p.head &&& 0x10 ≠ 0 ↔ 128 ≤ p.x.toNat) ∧ (p.head &&& 0x20 ≠ 0 ↔ 128 ≤ p.y.toNat)

end Ps2Packet

/-! ## Calls of the handler -/

section Calls

variable {m : MouseDriver} {q : ReadyQueue} {d : DevicePipe}

theorem deliver_append (ps ps' : List MousePacket) (q : ReadyQueue) (d : DevicePipe) :
    deliver (ps ++ ps') q d = deliver ps q d >>= fun r => deliver ps' r.1 r.2 := by
  induction ps generalizing q d with
  | nil => rfl
  | cons p ps ih =>
    rw [List.cons_append, deliver, deliver, bind_assoc]
    apply bind_congr
    intro r
    rw [bind_assoc]
    apply bind_congr
    intro r
    exact ih r.1 r.2

theorem finishPacket_eq (m : MouseDriver) (q : ReadyQueue) (d : DevicePipe) :
    finishPacket m q d = deliver m.finish.2 q d >>= fun r => pure (m.finish.1, r.1, r.2) := by
  rw [finishPacket, MouseDriver.finish]
  dsimp only
  split
  · rfl
  · rw [deliver, bind_assoc]
    apply bind_congr
    intro r
    rw [bind_assoc]
    rfl

theorem mouseHandler_eq (inputs : List (UInt8 × UInt8)) (m : MouseDriver) (q : ReadyQueue)
    (d : DevicePipe) : mouseHandler inputs m q d =
      deliver (MouseDriver.acceptAll (mouseBytes inputs) m).2 q d >>= fun r =>
        pure ((MouseDriver.acceptAll (mouseBytes inputs) m).1, r.1, r.2) := by
  induction inputs generalizing m q d with
  | nil => rfl
  | cons i inputs ih =>
    obtain ⟨status, mouseIn⟩ := i
    rw [mouseHandler]
    by_cases hdone : status &&& 0x01 = 0
    · rw [if_pos hdone, mouseBytes, List.takeWhile_cons_of_neg (by simpa using hdone)]
      rfl
    · have htake : mouseBytes ((status, mouseIn) :: inputs) =
          if status &&& 0x20 = 0 then mouseBytes inputs else mouseIn :: mouseBytes inputs := by
        rw [mouseBytes, List.takeWhile_cons_of_pos (by simpa using hdone), List.filter_cons]
        split_ifs <;> simp_all [mouseBytes]
      rw [if_neg hdone, htake]
      split
      · exact ih m q d
      · rw [MouseDriver.acceptAll, deliver_append]
        by_cases hfull : (m.feed mouseIn).2 = true
        · have haccept : m.accept mouseIn = (m.feed mouseIn).1.finish := if_pos hfull
          rw [haccept, bind_assoc]
          change (if (m.feed mouseIn).2 = true then _ else _) = _
          rw [if_pos hfull, finishPacket_eq, bind_assoc]
          apply bind_congr
          intro r
          exact ih _ r.1 r.2
        · have haccept : m.accept mouseIn = ((m.feed mouseIn).1, []) := if_neg hfull
          rw [haccept]
          change (if (m.feed mouseIn).2 = true then _ else _) = _
          rw [if_neg hfull]
          exact ih _ q d

theorem acceptAll_append (bytes bytes' : List UInt8) (m : MouseDriver) :
    MouseDriver.acceptAll (bytes ++ bytes') m =
      ((MouseDriver.acceptAll bytes' (MouseDriver.acceptAll bytes m).1).1,
        (MouseDriver.acceptAll bytes m).2 ++
          (MouseDriver.acceptAll bytes' (MouseDriver.acceptAll bytes m).1).2) := by
  induction bytes generalizing m with
  | nil => rfl
  | cons b bytes ih => simp [MouseDriver.acceptAll, ih]

theorem mouseHandlers_eq (calls : List (List (UInt8 × UInt8))) (m : MouseDriver) (q : ReadyQueue)
    (d : DevicePipe) : mouseHandlers calls m q d = deliver (handedOver calls m) q d >>= fun r =>
      pure ((MouseDriver.acceptAll (calls.flatMap mouseBytes) m).1, r.1, r.2) := by
  induction calls generalizing m q d with
  | nil => rfl
  | cons inputs calls ih =>
    rw [mouseHandlers, mouseHandler_eq, bind_assoc, handedOver, List.flatMap_cons, acceptAll_append,
      deliver_append, bind_assoc]
    apply bind_congr
    intro r
    exact ih _ r.1 r.2

end Calls

/-! ## Well-formed packets -/

section Packets

variable {m : MouseDriver} {p : Ps2Packet} {packets : List Ps2Packet}

def Ps2Packet.narrow (mode : UInt8) (p : Ps2Packet) : MousePacket :=
  { p.decode mode with xDifference := MouseDriver.widen p.x, yDifference := MouseDriver.widen p.y }

theorem clicks_eq (head : UInt8) :
    (if head &&& 0x01 = 0 then 0 else 0x01) ||| (if head &&& 0x02 = 0 then 0 else 0x02) |||
      (if head &&& 0x04 = 0 then 0 else 0x04) = (head &&& 0x07).toNat := by
  cases head with
  | ofBitVec b =>
    revert b
    decide +kernel

theorem finish_eq (byte : Nat → UInt8) (cycle : Nat) (mode : UInt8) (h0 : byte 0 = p.head)
    (h1 : byte 1 = p.x) (h2 : byte 2 = p.y) (h3 : mode = mouseScrollwheel → byte 3 = p.wheel) :
    MouseDriver.finish ⟨cycle, byte, mode⟩ =
      (⟨0, byte, mode⟩, if p.Overflows then [] else [p.narrow mode]) := by
  have hbuttons : MouseDriver.buttons ⟨0, byte, mode⟩ = (p.decode mode).buttons := by
    simp only [MouseDriver.buttons, h0, clicks_eq, Ps2Packet.decode, Ps2Packet.scroll]
    by_cases hmode : mode = mouseScrollwheel
    · simp only [h3 hmode]
    · simp only [hmode, false_and, if_false]
  have hpacket : MouseDriver.packet ⟨0, byte, mode⟩ = p.narrow mode := by
    rw [MouseDriver.packet, hbuttons]
    simp only [h1, h2]
    rfl
  have hbad : (byte 0 &&& 0x80 ≠ 0 ∨ byte 0 &&& 0x40 ≠ 0) ↔ p.Overflows := by
    rw [h0]
    rfl
  rw [MouseDriver.finish]
  dsimp only
  by_cases hover : p.Overflows
  · rw [if_pos (hbad.mpr hover), if_pos hover]
  · rw [if_neg (fun h => hover (hbad.mp h)), if_neg hover, hpacket]

theorem acceptAll_packet (hm : m.cycle = 0) (hp : p.WellFormed) :
    ∃ m', MouseDriver.acceptAll (p.bytes m.mode) m =
        (m', if p.Overflows then [] else [p.narrow m.mode]) ∧ m'.cycle = 0 ∧ m'.mode = m.mode := by
  obtain ⟨cycle, byte, mode⟩ := m
  cases hm
  have hhead : ¬ p.head &&& 0x08 = 0 := hp
  let byte' := Function.update (Function.update (Function.update byte 0 p.head) 1 p.x) 2 p.y
  have h0 : byte' 0 = p.head := by simp [byte']
  have h1 : byte' 1 = p.x := by simp [byte']
  have h2 : byte' 2 = p.y := by simp [byte']
  by_cases hmode : mode = mouseScrollwheel ∨ mode = mouseButtons
  · have hfinish := finish_eq (p := p) (Function.update byte' 3 p.wheel) 3 mode (by simp [h0]) (by simp [h1])
      (by simp [h2]) (by simp)
    refine ⟨⟨0, Function.update byte' 3 p.wheel, mode⟩, ?_, rfl, rfl⟩
    simpa [Ps2Packet.bytes, MouseDriver.acceptAll, MouseDriver.accept, MouseDriver.feed, hhead, hmode] using hfinish
  · have hno : mode = mouseScrollwheel → byte' 3 = p.wheel := fun h => absurd (Or.inl h) hmode
    have hfinish := finish_eq byte' 2 mode h0 h1 h2 hno
    refine ⟨⟨0, byte', mode⟩, ?_, rfl, rfl⟩
    simpa [Ps2Packet.bytes, MouseDriver.acceptAll, MouseDriver.accept, MouseDriver.feed, hhead, hmode] using hfinish

theorem acceptAll_packets (hm : m.cycle = 0) (hpackets : ∀ p ∈ packets, p.WellFormed) :
    (MouseDriver.acceptAll (packets.flatMap (Ps2Packet.bytes m.mode)) m).2 =
      (packets.filter fun p => ¬ p.Overflows).map (Ps2Packet.narrow m.mode) := by
  induction packets generalizing m with
  | nil => rfl
  | cons p packets ih =>
    obtain ⟨m', hrun, hm', hmode⟩ := acceptAll_packet hm (hpackets p List.mem_cons_self)
    have hrest := ih hm' fun p' hp' => hpackets p' (List.mem_cons_of_mem p hp')
    rw [hmode] at hrest
    rw [List.flatMap_cons, acceptAll_append, hrun, hrest, List.filter_cons]
    by_cases hover : p.Overflows <;> simp [hover]

theorem widen_eq_iff (sign : Prop) [Decidable sign] (b : UInt8) :
    MouseDriver.widen b = Ps2Packet.stored (Ps2Packet.movement sign b) ↔ (sign ↔ 128 ≤ b.toNat) := by
  have hlt := b.toNat_lt
  rw [MouseDriver.widen, Ps2Packet.stored, Ps2Packet.movement]
  by_cases hsign : sign
  · rw [if_pos hsign]
    simp only [hsign, true_iff]
    split <;> omega
  · rw [if_neg hsign]
    simp only [hsign, false_iff]
    split <;> omega

theorem narrow_eq_iff (mode : UInt8) (p : Ps2Packet) : p.narrow mode = p.decode mode ↔ p.SignsAgree := by
  rw [Ps2Packet.SignsAgree, ← widen_eq_iff, ← widen_eq_iff, Ps2Packet.narrow, Ps2Packet.decode]
  simp

/-- Calls of the handler write the packets that they hand over, and these are the packets without an overflow
that the mouse has sent exactly if their movements are numbers of 8 bits. -/
theorem handedOver_iff (packets : List Ps2Packet) (calls : List (List (UInt8 × UInt8))) (hm : m.cycle = 0)
    (hpackets : ∀ p ∈ packets, p.WellFormed)
    (hcalls : calls.flatMap mouseBytes = packets.flatMap (Ps2Packet.bytes m.mode)) :
    (∀ q d, mouseHandlers calls m q d = deliver (handedOver calls m) q d >>= fun r =>
        pure ((MouseDriver.acceptAll (calls.flatMap mouseBytes) m).1, r.1, r.2)) ∧
      (handedOver calls m = (packets.filter fun p => ¬ p.Overflows).map (Ps2Packet.decode m.mode) ↔
        ∀ p ∈ packets, ¬ p.Overflows → p.SignsAgree) := by
  refine ⟨mouseHandlers_eq calls m, ?_⟩
  rw [handedOver, hcalls, acceptAll_packets hm hpackets, List.map_inj_left]
  simp [narrow_eq_iff]

/-- The movements -2 and 3, in two calls with a byte of the keyboard between them. -/
theorem handedOver_iff_split : handedOver [[(0x21, 0x18), (0x21, 0xFE)], [(0x01, 0x1E), (0x21, 3)]]
      ⟨0, fun _ => 0, 0⟩ =
    ([⟨0x18, 0xFE, 3, 0⟩].filter fun p : Ps2Packet => ¬ p.Overflows).map (Ps2Packet.decode 0) := by
  have hpackets : ∀ p ∈ [(⟨0x18, 0xFE, 3, 0⟩ : Ps2Packet)], p.WellFormed := by
    intro p hp
    rw [List.mem_singleton.mp hp]
    exact (by decide : (0x18 : UInt8) &&& 0x08 ≠ 0)
  apply (handedOver_iff (m := ⟨0, fun _ => 0, 0⟩) [⟨0x18, 0xFE, 3, 0⟩] _ rfl hpackets rfl).2.mpr
  intro p hp _
  rw [List.mem_singleton.mp hp]
  exact ⟨by decide, by decide⟩

/-- The movement 200 is handed over as -56. -/
theorem handedOver_widened : (⟨0x08, 200, 0, 0⟩ : Ps2Packet).WellFormed ∧
    handedOver [[(0x21, 0x08), (0x21, 200), (0x21, 0)]] ⟨0, fun _ => 0, 0⟩ =
      [⟨mouseMagic, 2 ^ 32 - 56, 0, 0⟩] ∧
    handedOver [[(0x21, 0x08), (0x21, 200), (0x21, 0)]] ⟨0, fun _ => 0, 0⟩ ≠
      ([⟨0x08, 200, 0, 0⟩].filter fun p : Ps2Packet => ¬ p.Overflows).map (Ps2Packet.decode 0) := by
  refine ⟨?_, by decide +kernel, by decide +kernel⟩
  exact (by decide : (0x08 : UInt8) &&& 0x08 ≠ 0)

end Packets

end KernelTest.Drivers
