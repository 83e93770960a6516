import KernelTest.Ipc.Pipe

/-!
# The order of the bytes in a pipe

One side of a pipe is where the task is that holds its lock. The invariant counts the bytes that were
read and written for good, and what each side has done of the next one.
-/

namespace KernelTest.Ipc

namespace Phase

def claimed : Phase → Nat
  | .copy | .increment | .wrap => 1
  | _ => 0

def copied : Phase → Nat
  | .increment | .wrap => 1
  | _ => 0

def moved : Phase → Nat
  | .wrap => 1
  | _ => 0

theorem moved_le_copied (p : Phase) : p.moved ≤ p.copied := by
  cases p <;> decide

theorem copied_le_claimed (p : Phase) : p.copied ≤ p.claimed := by
  cases p <;> decide

theorem moved_le_one (p : Phase) : p.moved ≤ 1 := by
  cases p <;> decide

end Phase

structure Channel where
  pipe : Pipe
  reader : Phase
  writer : Phase
  delivered : List UInt8
  accepted : List UInt8

namespace Channel

structure Inv (c : Channel) (nr nw : Nat) : Prop where
  readPtr : c.pipe.readPtr = nr % c.pipe.size + c.reader.moved
  writePtr : c.pipe.writePtr = nw % c.pipe.size + c.writer.moved
  delivered : c.delivered.length = nr + c.reader.copied
  accepted : c.accepted.length = nw + c.writer.copied
  behind : nr + c.reader.claimed ≤ nw + c.writer.moved
  ahead : nw + c.writer.claimed + 1 ≤ nr + c.reader.moved + c.pipe.size
  holds : Ring.Holds c.pipe.size c.pipe.buffer (nr + c.reader.moved) c.accepted
  inOrder : c.delivered <+: c.accepted

theorem inv_make (junk : Nat → UInt8) {size : Nat} (hsize : 0 < size) :
    Inv ⟨⟨junk, 0, 0, size⟩, .acquire, .acquire, [], []⟩ 0 0 := by
  constructor
  case readPtr => exact (Nat.zero_mod size).symm
  case writePtr => exact (Nat.zero_mod size).symm
  case delivered => rfl
  case accepted => rfl
  case behind => exact Nat.le_refl 0
  case ahead =>
    change 0 + 0 + 1 ≤ 0 + 0 + size
    omega
  case holds =>
    intro p _ c hc
    cases hc
  case inOrder => exact List.prefix_rfl

namespace Inv

variable {c : Channel} {nr nw : Nat} (h : c.Inv nr nw)
include h

theorem size_pos : 0 < c.pipe.size := by
  have hahead := h.ahead
  have hbehind := h.behind
  have hmr := c.reader.moved_le_copied.trans c.reader.copied_le_claimed
  have hmw := c.writer.moved_le_copied.trans c.writer.copied_le_claimed
  omega

theorem reader_eq {p : Phase} (hr : c.reader.claimed = 0) (hp : p.claimed = 0) :
    Inv { c with reader := p } nr nw := by
  have hcopied := p.copied_le_claimed
  have hmoved := p.moved_le_copied
  have hcopied' := c.reader.copied_le_claimed
  have hmoved' := c.reader.moved_le_copied
  have hpm : p.moved = c.reader.moved := by omega
  have hpc : p.copied = c.reader.copied := by omega
  constructor
  case readPtr => rw [hpm]; exact h.readPtr
  case writePtr => exact h.writePtr
  case delivered => rw [hpc]; exact h.delivered
  case accepted => exact h.accepted
  case behind => rw [hp, ← hr]; exact h.behind
  case ahead => rw [hpm]; exact h.ahead
  case holds => rw [hpm]; exact h.holds
  case inOrder => exact h.inOrder

theorem writer_eq {p : Phase} (hw : c.writer.claimed = 0) (hp : p.claimed = 0) :
    Inv { c with writer := p } nr nw := by
  have hcopied := p.copied_le_claimed
  have hmoved := p.moved_le_copied
  have hcopied' := c.writer.copied_le_claimed
  have hmoved' := c.writer.moved_le_copied
  have hpm : p.moved = c.writer.moved := by omega
  have hpc : p.copied = c.writer.copied := by omega
  constructor
  case readPtr => exact h.readPtr
  case writePtr => rw [hpm]; exact h.writePtr
  case delivered => exact h.delivered
  case accepted => rw [hpc]; exact h.accepted
  case behind => rw [hpm]; exact h.behind
  case ahead => rw [hp, ← hw]; exact h.ahead
  case holds => exact h.holds
  case inOrder => exact h.inOrder

theorem unread_pos_iff (hr : c.reader.moved = 0)
    (hrace : ¬ (c.pipe.readPtr = 0 ∧ c.pipe.writePtr = c.pipe.size)) :
    0 < pipeUnread c.pipe ↔ nr < nw + c.writer.moved := by
  have hpos := h.size_pos
  have hreadPtr := h.readPtr
  have hwritePtr := h.writePtr
  have hbehind := h.behind
  have hahead := h.ahead
  have hle := c.writer.moved_le_copied.trans c.writer.copied_le_claimed
  have hone := c.writer.moved_le_one
  have hlt : nr % c.pipe.size < c.pipe.size := Nat.mod_lt nr hpos
  have hltw : nw % c.pipe.size < c.pipe.size := Nat.mod_lt nw hpos
  have hunread : pipeUnread c.pipe = Ring.unread c.pipe.size c.pipe.readPtr c.pipe.writePtr := rfl
  by_cases hsize : c.pipe.writePtr = c.pipe.size
  · -- the index of the writer is still to be wrapped
    have hm : c.writer.moved = 1 := by omega
    have hmod : (nw + 1) % c.pipe.size = 0 := by
      rw [Ring.succ_mod nw hpos, if_pos (by omega)]
    have hne : nr ≠ nw + 1 := by
      intro heq
      rw [heq, hmod] at hreadPtr
      exact hrace ⟨by omega, hsize⟩
    rw [hunread, Ring.unread, if_neg (by omega), if_neg (by omega)]
    omega
  · have hwrapped : c.pipe.writePtr = (nw + c.writer.moved) % c.pipe.size := by
      cases Nat.le_one_iff_eq_zero_or_eq_one.1 hone with
      | inl hm => rw [hwritePtr, hm, Nat.add_zero, Nat.add_zero]
      | inr hm =>
        rw [hm, Ring.succ_mod nw hpos, if_neg (by omega), hwritePtr, hm]
    have hread : c.pipe.readPtr = nr % c.pipe.size := by omega
    rw [hunread, hread, hwrapped, Ring.unread_mod (by omega) (by omega)]
    omega

theorem available_eq (hw : c.writer.moved = 0) :
    pipeAvailable c.pipe = c.pipe.size - 1 - (nw - (nr + c.reader.moved)) := by
  have hpos := h.size_pos
  have hreadPtr := h.readPtr
  have hwritePtr := h.writePtr
  have hbehind := h.behind
  have hahead := h.ahead
  have hle := c.reader.moved_le_copied.trans c.reader.copied_le_claimed
  have hone := c.reader.moved_le_one
  have hlt : nr % c.pipe.size < c.pipe.size := Nat.mod_lt nr hpos
  have hltw : nw % c.pipe.size < c.pipe.size := Nat.mod_lt nw hpos
  have hwrite : c.pipe.writePtr = nw % c.pipe.size := by omega
  have havail : pipeAvailable c.pipe =
      Ring.available c.pipe.size ((nr + c.reader.moved) % c.pipe.size) c.pipe.writePtr := by
    change Ring.available c.pipe.size c.pipe.readPtr c.pipe.writePtr = _
    by_cases hsize : c.pipe.readPtr = c.pipe.size
    · -- `size` stands for the index 0
      have hm : c.reader.moved = 1 := by omega
      have hmod : (nr + 1) % c.pipe.size = 0 := by
        rw [Ring.succ_mod nr hpos, if_pos (by omega)]
      rw [hm, hmod, hsize, Ring.available, Ring.available, if_neg (by omega), if_pos (by omega)]
      split_ifs <;> omega
    · have hwrapped : c.pipe.readPtr = (nr + c.reader.moved) % c.pipe.size := by
        cases Nat.le_one_iff_eq_zero_or_eq_one.1 hone with
        | inl hm => rw [hreadPtr, hm, Nat.add_zero, Nat.add_zero]
        | inr hm =>
          rw [hm, Ring.succ_mod nr hpos, if_neg (by omega), hreadPtr, hm]
      rw [hwrapped]
  rw [havail, hwrite, Ring.available_mod (by omega) (by omega)]

theorem reader_claims (hr : c.reader.claimed = 0) (hlt : nr < nw + c.writer.moved) :
    Inv { c with reader := .copy } nr nw := by
  have hcopied := c.reader.copied_le_claimed
  have hmoved := c.reader.moved_le_copied
  have hm : c.reader.moved = 0 := by omega
  have hc : c.reader.copied = 0 := by omega
  constructor
  case readPtr => exact h.readPtr.trans (by rw [hm]; rfl)
  case writePtr => exact h.writePtr
  case delivered => exact h.delivered.trans (by rw [hc]; rfl)
  case accepted => exact h.accepted
  case behind => exact hlt
  case ahead => exact h.ahead.trans (by rw [hm]; exact Nat.le_refl _)
  case holds => exact h.holds.mono (Nat.le_of_eq (by rw [hm]; rfl))
  case inOrder => exact h.inOrder

theorem reader_copies (hr : c.reader = .copy) :
    Inv { c with
      reader := .increment, delivered := c.delivered ++ [c.pipe.buffer c.pipe.readPtr] } nr nw := by
  have hreadPtr := h.readPtr
  have hdelivered := h.delivered
  have hbehind := h.behind
  have haccepted := h.accepted
  have hholds := h.holds
  have hle := c.writer.moved_le_copied
  rw [hr] at hreadPtr hdelivered hbehind hholds
  have hnr : nr < c.accepted.length := by
    change nr + 1 ≤ _ at hbehind
    omega
  have hread := hholds.read h.inOrder hdelivered hnr
  constructor
  case readPtr => exact hreadPtr
  case writePtr => exact h.writePtr
  case delivered =>
    rw [List.length_append, hdelivered]
    rfl
  case accepted => exact haccepted
  case behind => exact hbehind
  case ahead => exact h.ahead.trans (by rw [hr]; exact Nat.le_refl _)
  case holds => exact hholds
  case inOrder =>
    rw [hreadPtr]
    exact hread

theorem reader_increments (hr : c.reader = .increment) :
    Inv { c with
      reader := .wrap, pipe := { c.pipe with readPtr := c.pipe.readPtr + 1 } } nr nw := by
  have hreadPtr := h.readPtr
  have hdelivered := h.delivered
  have hbehind := h.behind
  have hahead := h.ahead
  have hholds := h.holds
  rw [hr] at hreadPtr hdelivered hbehind hahead hholds
  constructor
  case readPtr => exact congrArg (· + 1) hreadPtr
  case writePtr => exact h.writePtr
  case delivered => exact hdelivered
  case accepted => exact h.accepted
  case behind => exact hbehind
  case ahead =>
    change nw + c.writer.claimed + 1 ≤ nr + 1 + c.pipe.size
    change nw + c.writer.claimed + 1 ≤ nr + 0 + c.pipe.size at hahead
    omega
  case holds => exact hholds.mono (Nat.le_succ nr)
  case inOrder => exact h.inOrder

theorem reader_wraps (hr : c.reader = .wrap) :
    Inv { c with
      reader := .test
      pipe := { c.pipe with
        readPtr := if c.pipe.readPtr = c.pipe.size then 0 else c.pipe.readPtr } } (nr + 1) nw := by
  have hpos := h.size_pos
  have hreadPtr := h.readPtr
  have hbehind := h.behind
  have hahead := h.ahead
  have hholds := h.holds
  have hdelivered := h.delivered
  rw [hr] at hreadPtr hbehind hahead hholds hdelivered
  change c.pipe.readPtr = nr % c.pipe.size + 1 at hreadPtr
  constructor
  case readPtr =>
    change (if c.pipe.readPtr = c.pipe.size then 0 else c.pipe.readPtr) =
      (nr + 1) % c.pipe.size
    rw [Ring.succ_mod nr hpos, hreadPtr]
  case writePtr => exact h.writePtr
  case delivered => exact hdelivered
  case accepted => exact h.accepted
  case behind => exact hbehind
  case ahead => exact hahead
  case holds => exact hholds
  case inOrder => exact h.inOrder

theorem writer_claims (hw : c.writer.claimed = 0) (havail : 0 < pipeAvailable c.pipe) :
    Inv { c with writer := .copy } nr nw := by
  have hcopied := c.writer.copied_le_claimed
  have hmoved := c.writer.moved_le_copied
  have hm : c.writer.moved = 0 := by omega
  have hc : c.writer.copied = 0 := by omega
  have hbehind := h.behind
  have hle := c.reader.moved_le_copied.trans c.reader.copied_le_claimed
  rw [h.available_eq hm] at havail
  constructor
  case readPtr => exact h.readPtr
  case writePtr => exact h.writePtr.trans (by rw [hm]; rfl)
  case delivered => exact h.delivered
  case accepted => exact h.accepted.trans (by rw [hc]; rfl)
  case behind => exact hbehind.trans (by rw [hm]; exact Nat.le_refl _)
  case ahead =>
    change nw + 1 + 1 ≤ nr + c.reader.moved + c.pipe.size
    omega
  case holds => exact h.holds
  case inOrder => exact h.inOrder

theorem writer_copies (hw : c.writer = .copy) (d : UInt8) :
    Inv { c with
      writer := .increment
      pipe := { c.pipe with buffer := Function.update c.pipe.buffer c.pipe.writePtr d }
      accepted := c.accepted ++ [d] } nr nw := by
  have hwritePtr := h.writePtr
  have haccepted := h.accepted
  have hahead := h.ahead
  have hbehind := h.behind
  rw [hw] at hwritePtr haccepted hahead hbehind
  change c.pipe.writePtr = nw % c.pipe.size at hwritePtr
  change c.accepted.length = nw at haccepted
  change nw + 1 + 1 ≤ _ at hahead
  have hwrite := h.holds.write (by omega) d
  constructor
  case readPtr => exact h.readPtr
  case writePtr => exact hwritePtr
  case delivered => exact h.delivered
  case accepted =>
    rw [List.length_append, haccepted]
    rfl
  case behind => exact hbehind
  case ahead => exact hahead
  case holds =>
    rw [haccepted, ← hwritePtr] at hwrite
    exact hwrite
  case inOrder => exact h.inOrder.trans (List.prefix_append _ _)

theorem writer_increments (hw : c.writer = .increment) :
    Inv { c with
      writer := .wrap, pipe := { c.pipe with writePtr := c.pipe.writePtr + 1 } } nr nw := by
  have hwritePtr := h.writePtr
  have haccepted := h.accepted
  have hahead := h.ahead
  have hbehind := h.behind
  rw [hw] at hwritePtr haccepted hahead hbehind
  constructor
  case readPtr => exact h.readPtr
  case writePtr => exact congrArg (· + 1) hwritePtr
  case delivered => exact h.delivered
  case accepted => exact haccepted
  case behind => exact hbehind.trans (Nat.le_succ nw)
  case ahead => exact hahead
  case holds => exact h.holds
  case inOrder => exact h.inOrder

theorem writer_wraps (hw : c.writer = .wrap) :
    Inv { c with
      writer := .test
      pipe := { c.pipe with
        writePtr := if c.pipe.writePtr = c.pipe.size then 0 else c.pipe.writePtr } }
      nr (nw + 1) := by
  have hpos := h.size_pos
  have hwritePtr := h.writePtr
  have haccepted := h.accepted
  have hahead := h.ahead
  have hbehind := h.behind
  rw [hw] at hwritePtr haccepted hahead hbehind
  change c.pipe.writePtr = nw % c.pipe.size + 1 at hwritePtr
  constructor
  case readPtr => exact h.readPtr
  case writePtr =>
    change (if c.pipe.writePtr = c.pipe.size then 0 else c.pipe.writePtr) =
      (nw + 1) % c.pipe.size
    rw [Ring.succ_mod nw hpos, hwritePtr]
  case delivered => exact h.delivered
  case accepted => exact haccepted
  case behind => exact hbehind
  case ahead => exact hahead
  case holds => exact h.holds
  case inOrder => exact h.inOrder

end Inv

end Channel

def Locked (lock : Option Nat) (phase : Nat → Phase) : Prop :=
  ∀ t, (phase t).Inside ↔ lock = some t

def holderPhase (lock : Option Nat) (phase : Nat → Phase) : Phase :=
  match lock with
  | none => .acquire
  | some t => phase t

section Locked

variable {lock : Option Nat} {phase : Nat → Phase} {t : Nat} {p : Phase}

theorem Locked.enter (h : Locked none phase) (hp : p.Inside) :
    Locked (some t) (Function.update phase t p) := by
  intro t'
  by_cases ht : t' = t
  · rw [ht, Function.update_self]
    exact iff_of_true hp rfl
  · rw [Function.update_of_ne ht, h t']
    exact iff_of_false (by simp) (by simp [Ne.symm ht])

theorem Locked.stay (h : Locked (some t) phase) (hp : p.Inside) :
    Locked (some t) (Function.update phase t p) := by
  intro t'
  by_cases ht : t' = t
  · rw [ht, Function.update_self]
    exact iff_of_true hp rfl
  · rw [Function.update_of_ne ht, h t']

theorem Locked.leave (h : Locked (some t) phase) (hp : ¬ p.Inside) :
    Locked none (Function.update phase t p) := by
  intro t'
  by_cases ht : t' = t
  · rw [ht, Function.update_self]
    exact iff_of_false hp (by simp)
  · rw [Function.update_of_ne ht, h t']
    exact iff_of_false (by simp [Ne.symm ht]) (by simp)

theorem Locked.outside (h : Locked lock phase) (hold : ¬ (phase t).Inside) (hp : ¬ p.Inside) :
    Locked lock (Function.update phase t p) := by
  intro t'
  by_cases ht : t' = t
  · rw [ht, Function.update_self, ← h t]
    exact iff_of_false hp hold
  · rw [Function.update_of_ne ht, h t']

theorem holderPhase_outside (h : Locked lock phase) (hold : ¬ (phase t).Inside) :
    holderPhase lock (Function.update phase t p) = holderPhase lock phase := by
  cases lock with
  | none => rfl
  | some t' =>
    have ht : t' ≠ t := by
      intro heq
      exact hold ((h t).2 (by rw [heq]))
    exact Function.update_of_ne ht p phase

theorem holderPhase_self : holderPhase (some t) (Function.update phase t p) = p := by
  rw [holderPhase, Function.update_self]

end Locked

namespace PipeState

theorem phase_setRead (s : PipeState) (t : Nat) (call : ReadCall) :
    (fun t' => ((s.setRead t call).reads t').phase) =
      Function.update (fun t' => (s.reads t').phase) t call.phase := by
  funext t'
  by_cases ht : t' = t <;> simp [setRead, ht]

theorem phase_setWrite (s : PipeState) (t : Nat) (call : WriteCall) :
    (fun t' => ((s.setWrite t call).writes t').phase) =
      Function.update (fun t' => (s.writes t').phase) t call.phase := by
  funext t'
  by_cases ht : t' = t <;> simp [setWrite, ht]

def channel (s : PipeState) : Channel where
  pipe := s.pipe
  reader := holderPhase s.lockRead fun t => (s.reads t).phase
  writer := holderPhase s.lockWrite fun t => (s.writes t).phase
  delivered := s.delivered
  accepted := s.accepted

structure Good (s : PipeState) : Prop where
  locked : Locked s.lockRead fun t => (s.reads t).phase
  lockedWrite : Locked s.lockWrite fun t => (s.writes t).phase
  counted : ∃ nr nw, s.channel.Inv nr nw

theorem good_make (junk : Nat → UInt8) {size : Nat} (hsize : 0 < size) :
    (make junk size).Good := by
  constructor
  · intro t
    exact iff_of_false (fun hin => hin) (by simp [make])
  · intro t
    exact iff_of_false (fun hin => hin) (by simp [make])
  · exact ⟨0, 0, Channel.inv_make junk hsize⟩

variable {s s' : PipeState} {t : Nat}

theorem Good.lockRead_eq (h : s.Good) (hin : (s.reads t).phase.Inside) :
    s.lockRead = some t ∧ s.channel.reader = (s.reads t).phase := by
  have hlock : s.lockRead = some t := (h.locked t).1 hin
  rw [channel, hlock]
  exact ⟨rfl, rfl⟩

theorem Good.lockWrite_eq (h : s.Good) (hin : (s.writes t).phase.Inside) :
    s.lockWrite = some t ∧ s.channel.writer = (s.writes t).phase := by
  have hlock : s.lockWrite = some t := (h.lockedWrite t).1 hin
  rw [channel, hlock]
  exact ⟨rfl, rfl⟩

theorem Good.of_reader (h : s.Good) {call : ReadCall} {pipe : Pipe} {delivered : List UInt8}
    (hin : (s.reads t).phase.Inside) (hin' : call.phase.Inside) {nr nw : Nat}
    (hinv : Channel.Inv { s.channel with
      reader := call.phase, pipe := pipe, delivered := delivered } nr nw) :
    Good { s.setRead t call with pipe := pipe, delivered := delivered } := by
  have hlock := (h.lockRead_eq hin).1
  have hphase := phase_setRead s t call
  have hlocked := h.locked
  rw [hlock] at hlocked
  constructor
  · change Locked s.lockRead (fun t' => ((s.setRead t call).reads t').phase)
    rw [hphase, hlock]
    exact hlocked.stay hin'
  · exact h.lockedWrite
  · refine ⟨nr, nw, ?_⟩
    change Channel.Inv ⟨pipe, holderPhase s.lockRead fun t' => ((s.setRead t call).reads t').phase,
      _, delivered, s.accepted⟩ nr nw
    rw [hphase, hlock, holderPhase_self]
    exact hinv

theorem Good.of_writer (h : s.Good) {call : WriteCall} {pipe : Pipe} {accepted : List UInt8}
    (hin : (s.writes t).phase.Inside) (hin' : call.phase.Inside) {nr nw : Nat}
    (hinv : Channel.Inv { s.channel with
      writer := call.phase, pipe := pipe, accepted := accepted } nr nw) :
    Good { s.setWrite t call with pipe := pipe, accepted := accepted } := by
  have hlock := (h.lockWrite_eq hin).1
  have hphase := phase_setWrite s t call
  have hlocked := h.lockedWrite
  rw [hlock] at hlocked
  constructor
  · exact h.locked
  · change Locked s.lockWrite (fun t' => ((s.setWrite t call).writes t').phase)
    rw [hphase, hlock]
    exact hlocked.stay hin'
  · refine ⟨nr, nw, ?_⟩
    change Channel.Inv ⟨pipe, _,
      holderPhase s.lockWrite fun t' => ((s.setWrite t call).writes t').phase, s.delivered,
      accepted⟩ nr nw
    rw [hphase, hlock, holderPhase_self]
    exact hinv

theorem Good.setRead_outside (h : s.Good) {call : ReadCall} (hold : ¬ (s.reads t).phase.Inside)
    (hnew : ¬ call.phase.Inside) : Good (s.setRead t call) := by
  have hphase := phase_setRead s t call
  obtain ⟨nr, nw, hinv⟩ := h.counted
  constructor
  · change Locked s.lockRead (fun t' => ((s.setRead t call).reads t').phase)
    rw [hphase]
    exact h.locked.outside hold hnew
  · exact h.lockedWrite
  · refine ⟨nr, nw, ?_⟩
    change Channel.Inv ⟨s.pipe,
      holderPhase s.lockRead fun t' => ((s.setRead t call).reads t').phase, _, _, _⟩ nr nw
    rw [hphase, holderPhase_outside h.locked hold]
    exact hinv

theorem Good.setWrite_outside (h : s.Good) {call : WriteCall}
    (hold : ¬ (s.writes t).phase.Inside) (hnew : ¬ call.phase.Inside) :
    Good (s.setWrite t call) := by
  have hphase := phase_setWrite s t call
  obtain ⟨nr, nw, hinv⟩ := h.counted
  constructor
  · exact h.locked
  · change Locked s.lockWrite (fun t' => ((s.setWrite t call).writes t').phase)
    rw [hphase]
    exact h.lockedWrite.outside hold hnew
  · refine ⟨nr, nw, ?_⟩
    change Channel.Inv ⟨s.pipe, _,
      holderPhase s.lockWrite fun t' => ((s.setWrite t call).writes t').phase, _, _⟩ nr nw
    rw [hphase, holderPhase_outside h.lockedWrite hold]
    exact hinv

theorem Good.enterRead (h : s.Good) {call : ReadCall} (hfree : s.lockRead = none)
    (hcall : call.phase = .test) :
    Good { s.setRead t call with lockRead := some t } := by
  have hphase := phase_setRead s t call
  have hlocked := h.locked
  rw [hfree] at hlocked
  obtain ⟨nr, nw, hinv⟩ := h.counted
  have hreader : s.channel.reader = .acquire := by
    rw [channel, hfree]
    rfl
  have hquiet : s.channel.reader.claimed = 0 := by rw [hreader]; rfl
  constructor
  · change Locked (some t) (fun t' => ((s.setRead t call).reads t').phase)
    rw [hphase, hcall]
    exact hlocked.enter trivial
  · exact h.lockedWrite
  · refine ⟨nr, nw, ?_⟩
    change Channel.Inv ⟨s.pipe,
      holderPhase (some t) fun t' => ((s.setRead t call).reads t').phase, _, _, _⟩ nr nw
    rw [hphase, hcall, holderPhase_self]
    exact hinv.reader_eq hquiet rfl

theorem Good.enterWrite (h : s.Good) {call : WriteCall} (hfree : s.lockWrite = none)
    (hcall : call.phase = .test) :
    Good { s.setWrite t call with lockWrite := some t } := by
  have hphase := phase_setWrite s t call
  have hlocked := h.lockedWrite
  rw [hfree] at hlocked
  obtain ⟨nr, nw, hinv⟩ := h.counted
  have hwriter : s.channel.writer = .acquire := by
    rw [channel, hfree]
    rfl
  have hquiet : s.channel.writer.claimed = 0 := by rw [hwriter]; rfl
  constructor
  · exact h.locked
  · change Locked (some t) (fun t' => ((s.setWrite t call).writes t').phase)
    rw [hphase, hcall]
    exact hlocked.enter trivial
  · refine ⟨nr, nw, ?_⟩
    change Channel.Inv ⟨s.pipe, _,
      holderPhase (some t) fun t' => ((s.setWrite t call).writes t').phase, _, _⟩ nr nw
    rw [hphase, hcall, holderPhase_self]
    exact hinv.writer_eq hquiet rfl

theorem Good.leaveRead (h : s.Good) {call : ReadCall} (hrel : (s.reads t).phase = .release)
    (hcall : ¬ call.phase.Inside) : Good { s.setRead t call with lockRead := none } := by
  have hphase := phase_setRead s t call
  have hin : (s.reads t).phase.Inside := by rw [hrel]; trivial
  obtain ⟨hlock, hreader⟩ := h.lockRead_eq hin
  have hlocked := h.locked
  rw [hlock] at hlocked
  obtain ⟨nr, nw, hinv⟩ := h.counted
  have hquiet : s.channel.reader.claimed = 0 := by rw [hreader, hrel]; rfl
  constructor
  · change Locked none (fun t' => ((s.setRead t call).reads t').phase)
    rw [hphase]
    exact hlocked.leave hcall
  · exact h.lockedWrite
  · have hinv' : Channel.Inv { s.channel with reader := .acquire } nr nw :=
      hinv.reader_eq hquiet rfl
    exact ⟨nr, nw, hinv'⟩

theorem Good.leaveWrite (h : s.Good) {call : WriteCall} (hrel : (s.writes t).phase = .release)
    (hcall : ¬ call.phase.Inside) : Good { s.setWrite t call with lockWrite := none } := by
  have hphase := phase_setWrite s t call
  have hin : (s.writes t).phase.Inside := by rw [hrel]; trivial
  obtain ⟨hlock, hwriter⟩ := h.lockWrite_eq hin
  have hlocked := h.lockedWrite
  rw [hlock] at hlocked
  obtain ⟨nr, nw, hinv⟩ := h.counted
  have hquiet : s.channel.writer.claimed = 0 := by rw [hwriter, hrel]; rfl
  constructor
  · exact h.locked
  · change Locked none (fun t' => ((s.setWrite t call).writes t').phase)
    rw [hphase]
    exact hlocked.leave hcall
  · have hinv' : Channel.Inv { s.channel with writer := .acquire } nr nw :=
      hinv.writer_eq hquiet rfl
    exact ⟨nr, nw, hinv'⟩

theorem Good.readStep (h : s.Good) (hrace : ¬ s.Racing (.readStep t))
    (hstep : s.readStep t = some s') : s'.Good := by
  obtain ⟨nr, nw, hinv⟩ := h.counted
  cases hp : (s.reads t).phase with
  | idle => simp [PipeState.readStep, hp] at hstep
  | acquire =>
    by_cases hfree : s.lockRead = none
    · simp only [PipeState.readStep, hp, hfree, if_true, Option.some.injEq] at hstep
      subst hstep
      exact h.enterRead hfree rfl
    · simp [PipeState.readStep, hp, hfree] at hstep
  | test =>
    have hin : (s.reads t).phase.Inside := by rw [hp]; trivial
    obtain ⟨_, hreader⟩ := h.lockRead_eq hin
    have hquiet : s.channel.reader.claimed = 0 := by rw [hreader, hp]; rfl
    by_cases htest : pipeUnread s.pipe > 0 ∧ (s.reads t).collected < (s.reads t).size
    · simp only [PipeState.readStep, hp, htest, and_self, if_true, Option.some.injEq] at hstep
      subst hstep
      have hno : ¬ (s.channel.pipe.readPtr = 0 ∧ s.channel.pipe.writePtr = s.channel.pipe.size) :=
        fun hc => hrace ⟨hp, hc.1, hc.2, htest.2⟩
      have hmoved : s.channel.reader.moved = 0 := by rw [hreader, hp]; rfl
      have hlt := (hinv.unread_pos_iff hmoved hno).1 htest.1
      exact h.of_reader hin trivial (hinv.reader_claims hquiet hlt)
    · simp only [PipeState.readStep, hp, htest, if_false, Option.some.injEq] at hstep
      subst hstep
      exact h.of_reader hin trivial (hinv.reader_eq hquiet rfl)
  | copy =>
    have hin : (s.reads t).phase.Inside := by rw [hp]; trivial
    have hreader : s.channel.reader = .copy := (h.lockRead_eq hin).2.trans hp
    simp only [PipeState.readStep, hp, Option.some.injEq] at hstep
    subst hstep
    exact h.of_reader hin trivial (hinv.reader_copies hreader)
  | increment =>
    have hin : (s.reads t).phase.Inside := by rw [hp]; trivial
    have hreader : s.channel.reader = .increment := (h.lockRead_eq hin).2.trans hp
    simp only [PipeState.readStep, hp, Option.some.injEq] at hstep
    subst hstep
    exact h.of_reader hin trivial (hinv.reader_increments hreader)
  | wrap =>
    have hin : (s.reads t).phase.Inside := by rw [hp]; trivial
    have hreader : s.channel.reader = .wrap := (h.lockRead_eq hin).2.trans hp
    simp only [PipeState.readStep, hp, Option.some.injEq] at hstep
    subst hstep
    exact h.of_reader hin trivial (hinv.reader_wraps hreader)
  | release =>
    simp only [PipeState.readStep, hp, Option.some.injEq] at hstep
    subst hstep
    apply h.leaveRead hp
    split
    · exact fun hin => hin
    · exact fun hin => hin

theorem Good.writeStep (h : s.Good) (hstep : s.writeStep t = some s') : s'.Good := by
  obtain ⟨nr, nw, hinv⟩ := h.counted
  cases hp : (s.writes t).phase with
  | idle => simp [PipeState.writeStep, hp] at hstep
  | acquire =>
    by_cases hfree : s.lockWrite = none
    · simp only [PipeState.writeStep, hp, hfree, if_true, Option.some.injEq] at hstep
      subst hstep
      exact h.enterWrite hfree rfl
    · simp [PipeState.writeStep, hp, hfree] at hstep
  | test =>
    have hin : (s.writes t).phase.Inside := by rw [hp]; trivial
    obtain ⟨_, hwriter⟩ := h.lockWrite_eq hin
    have hquiet : s.channel.writer.claimed = 0 := by rw [hwriter, hp]; rfl
    by_cases htest : pipeAvailable s.pipe > 0 ∧ (s.writes t).written < (s.writes t).data.length
    · simp only [PipeState.writeStep, hp, htest, and_self, if_true, Option.some.injEq] at hstep
      subst hstep
      exact h.of_writer hin trivial (hinv.writer_claims hquiet htest.1)
    · simp only [PipeState.writeStep, hp, htest, if_false, Option.some.injEq] at hstep
      subst hstep
      exact h.of_writer hin trivial (hinv.writer_eq hquiet rfl)
  | copy =>
    have hin : (s.writes t).phase.Inside := by rw [hp]; trivial
    have hwriter : s.channel.writer = .copy := (h.lockWrite_eq hin).2.trans hp
    simp only [PipeState.writeStep, hp, Option.some.injEq] at hstep
    subst hstep
    exact h.of_writer hin trivial (hinv.writer_copies hwriter _)
  | increment =>
    have hin : (s.writes t).phase.Inside := by rw [hp]; trivial
    have hwriter : s.channel.writer = .increment := (h.lockWrite_eq hin).2.trans hp
    simp only [PipeState.writeStep, hp, Option.some.injEq] at hstep
    subst hstep
    exact h.of_writer hin trivial (hinv.writer_increments hwriter)
  | wrap =>
    have hin : (s.writes t).phase.Inside := by rw [hp]; trivial
    have hwriter : s.channel.writer = .wrap := (h.lockWrite_eq hin).2.trans hp
    simp only [PipeState.writeStep, hp, Option.some.injEq] at hstep
    subst hstep
    exact h.of_writer hin trivial (hinv.writer_wraps hwriter)
  | release =>
    simp only [PipeState.writeStep, hp, Option.some.injEq] at hstep
    subst hstep
    apply h.leaveWrite hp
    split
    · exact fun hin => hin
    · exact fun hin => hin

theorem Good.step (h : s.Good) {e : PipeEvent} (hrace : ¬ s.Racing e) (hstep : s.step e = some s') :
    s'.Good := by
  cases e with
  | read t size =>
    by_cases hidle : (s.reads t).phase = .idle
    · simp only [PipeState.step, hidle, if_true, Option.some.injEq] at hstep
      subst hstep
      exact h.setRead_outside (by rw [hidle]; exact fun hin => hin) fun hin => hin
    · simp [PipeState.step, hidle] at hstep
  | write t data =>
    by_cases hidle : (s.writes t).phase = .idle
    · simp only [PipeState.step, hidle, if_true, Option.some.injEq] at hstep
      subst hstep
      apply h.setWrite_outside
      · rw [hidle]
        exact fun hin => hin
      · dsimp only
        split
        · exact fun hin => hin
        · exact fun hin => hin
    · simp [PipeState.step, hidle] at hstep
  | readStep t => exact h.readStep hrace hstep
  | writeStep t => exact h.writeStep hstep

theorem Good.readPtr_lt (h : s.Good) (hr : s.channel.reader.moved = 0) :
    s.pipe.readPtr < s.pipe.size := by
  obtain ⟨nr, nw, hinv⟩ := h.counted
  have hreadPtr := hinv.readPtr
  rw [hr] at hreadPtr
  have hlt : nr % s.channel.pipe.size < s.channel.pipe.size := Nat.mod_lt nr hinv.size_pos
  exact hreadPtr.trans_lt hlt

theorem Good.writePtr_lt (h : s.Good) (hw : s.channel.writer.moved = 0) :
    s.pipe.writePtr < s.pipe.size := by
  obtain ⟨nr, nw, hinv⟩ := h.counted
  have hwritePtr := hinv.writePtr
  rw [hw] at hwritePtr
  have hlt : nw % s.channel.pipe.size < s.channel.pipe.size := Nat.mod_lt nw hinv.size_pos
  exact hwritePtr.trans_lt hlt

theorem moved_holderPhase {lock : Option Nat} {phase : Nat → Phase} (h : ∀ t, phase t ≠ .wrap) :
    (holderPhase lock phase).moved = 0 := by
  cases lock with
  | none => rfl
  | some t =>
    have ht := h t
    rw [holderPhase]
    cases hp : phase t with
    | wrap => exact absurd hp ht
    | idle | acquire | test | copy | increment | release => rfl

theorem Good.orderly (h : s.Good) : s.Orderly := by
  constructor
  case delivered =>
    obtain ⟨nr, nw, hinv⟩ := h.counted
    exact hinv.inOrder
  case readAccess =>
    intro t hp
    have hreader := (h.lockRead_eq (by rw [hp]; trivial)).2
    apply h.readPtr_lt
    rw [hreader, hp]
    rfl
  case writeAccess =>
    intro t hp
    have hwriter := (h.lockWrite_eq (by rw [hp]; trivial)).2
    apply h.writePtr_lt
    rw [hwriter, hp]
    rfl
  case divided =>
    intro hr hw
    exact Ring.unread_add_available (h.readPtr_lt (moved_holderPhase hr))
      (h.writePtr_lt (moved_holderPhase hw))

/-- A writer fills a pipe of two bytes, a reader takes the first one, the writer puts the next one at
the last place and stops before it wraps its index; the reader takes that one, wraps its own index
and then finds two bytes that are not there. -/
def raceEvents : List PipeEvent :=
  [.write 0 [1, 2], .read 1 3] ++
  List.replicate 5 (.writeStep 0) ++ List.replicate 5 (.readStep 1) ++
  List.replicate 3 (.writeStep 0) ++ List.replicate 6 (.readStep 1)

end PipeState

end KernelTest.Ipc
