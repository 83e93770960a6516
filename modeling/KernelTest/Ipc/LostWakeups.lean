import KernelTest.Framework.WaitQueue
import KernelTest.Ipc.WaitQueues

/-!
# Lost wakeups

A task that is parked is on a wait queue or was taken off it to be made ready, and each wait queue is
served. That holds as long as a task goes to sleep in one step with the reason for it.
-/

namespace KernelTest.Ipc

/-! ## The bytes -/

structure Pipe.Bounded (pipe : Pipe) : Prop where
  read : pipe.readPtr < pipe.size
  write : pipe.writePtr < pipe.size

section Bytes

variable {pipe : Pipe}

theorem Pipe.Bounded.incrementRead (h : pipe.Bounded) : (pipeIncrementRead pipe).Bounded := by
  have hread := h.read
  have hwrite := h.write
  constructor
  · change (if pipe.readPtr + 1 = pipe.size then 0 else pipe.readPtr + 1) < pipe.size
    split <;> omega
  · exact hwrite

theorem Pipe.Bounded.incrementWrite (h : pipe.Bounded) : (pipeIncrementWrite pipe).Bounded := by
  have hread := h.read
  have hwrite := h.write
  constructor
  · exact hread
  · change (if pipe.writePtr + 1 = pipe.size then 0 else pipe.writePtr + 1) < pipe.size
    split <;> omega

theorem unread_incrementRead_le (h : pipe.Bounded) (hpos : pipeUnread pipe > 0) :
    pipeUnread (pipeIncrementRead pipe) ≤ pipeUnread pipe := by
  have hread := h.read
  have hwrite := h.write
  simp only [pipeUnread, pipeIncrementRead] at hpos ⊢
  split_ifs at hpos ⊢ <;> omega

theorem available_incrementWrite_le (h : pipe.Bounded) (hpos : pipeAvailable pipe > 0) :
    pipeAvailable (pipeIncrementWrite pipe) ≤ pipeAvailable pipe := by
  have hread := h.read
  have hwrite := h.write
  simp only [pipeAvailable, pipeIncrementWrite] at hpos ⊢
  split_ifs at hpos ⊢ <;> omega

theorem takeBytes_bounded (n : Nat) (h : pipe.Bounded) :
    (takeBytes n pipe).2.Bounded ∧ pipeUnread (takeBytes n pipe).2 ≤ pipeUnread pipe := by
  induction n generalizing pipe with
  | zero => exact ⟨h, Nat.le_refl _⟩
  | succ n ih =>
    rw [takeBytes]
    split
    · next hpos =>
      obtain ⟨hbounded, hle⟩ := ih h.incrementRead
      exact ⟨hbounded, hle.trans (unread_incrementRead_le h hpos)⟩
    · exact ⟨h, Nat.le_refl _⟩

theorem putBytes_bounded (bytes : List UInt8) (h : pipe.Bounded) :
    (putBytes bytes pipe).2.Bounded ∧
      pipeAvailable (putBytes bytes pipe).2 ≤ pipeAvailable pipe := by
  induction bytes generalizing pipe with
  | nil => exact ⟨h, Nat.le_refl _⟩
  | cons b bs ih =>
    rw [putBytes]
    split
    · next hpos =>
      have h' : Pipe.Bounded
          { pipe with buffer := Function.update pipe.buffer pipe.writePtr b } := ⟨h.read, h.write⟩
      obtain ⟨hbounded, hle⟩ := ih h'.incrementWrite
      exact ⟨hbounded, hle.trans (available_incrementWrite_le h' hpos)⟩
    · exact ⟨h, Nat.le_refl _⟩

end Bytes

/-! ## The invariant -/

namespace PipeTasks

def waitQueue (s : PipeTasks) (q : PipeEnd) : WaitQueue Nat where
  queued := s.queue q
  wanted := s.Wanted q
  waking t := (s.calls t).Wakes q

structure Inv (s : PipeTasks) : Prop where
  bounded : s.pipe.Bounded
  nodup : ∀ q, (s.queue q).Nodup
  side : ∀ q t, t ∈ s.queue q → (s.calls t).side = q
  queued : ∀ q t, t ∈ s.queue q → (s.calls t).point = .switch ∨ s.awake t = false
  switching : ∀ t, (s.calls t).point = .switch →
    s.currentTask = some t ∧ t ∈ s.queue (s.calls t).side
  running : ∀ t, s.currentTask = some t → s.awake t = true
  parked : ∀ t, s.awake t = false → ∃ b, (s.calls t).point = .asleep b
  found : ∀ t, s.awake t = false →
    t ∈ s.queue (s.calls t).side ∨ ∃ u w, (s.calls u).point = .wakeup w (.ready t)
  served : ∀ q, (s.waitQueue q).Served

theorem inv_make (kind : PipeKind) (junk : Nat → UInt8) {size : Nat} (hsize : 0 < size) :
    (make kind junk size).Inv := by
  constructor
  case bounded => exact ⟨hsize, hsize⟩
  case nodup => exact fun _ => List.nodup_nil
  case side => exact fun _ _ ht => absurd ht List.not_mem_nil
  case queued => exact fun _ _ ht => absurd ht List.not_mem_nil
  case switching => exact fun _ hp => by cases hp
  case running => exact fun _ _ => rfl
  case parked => exact fun _ ht => by cases ht
  case found => exact fun _ ht => by cases ht
  case served => exact fun _ => WaitQueue.served_of_empty rfl

variable {s s' : PipeTasks} {t : Nat}

theorem Inv.not_queued (h : s.Inv) (ht : s.currentTask = some t)
    (hp : (s.calls t).point ≠ .switch) (q : PipeEnd) : t ∉ s.queue q := by
  intro hin
  cases h.queued q t hin with
  | inl hswitch => exact hp hswitch
  | inr hparked =>
    rw [h.running t ht] at hparked
    cases hparked

theorem Inv.ne_of_parked (h : s.Inv) (ht : s.currentTask = some t) {u : Nat}
    (hu : s.awake u = false) : u ≠ t := by
  intro heq
  rw [heq, h.running t ht] at hu
  cases hu

theorem Inv.eq_of_switch (h : s.Inv) (ht : s.currentTask = some t) {u : Nat}
    (hu : (s.calls u).point = .switch) : u = t := by
  have hcurrent := (h.switching u hu).1
  rw [ht] at hcurrent
  exact (Option.some.inj hcurrent).symm

theorem Inv.not_hangs (h : s.Inv) : ¬ s.Hangs := by
  intro hangs
  have hstill : ∀ q u, ¬ (s.calls u).Wakes q := by
    intro q u hwakes
    cases hangs.still u with
    | inl hparked =>
      obtain ⟨b, hb⟩ := h.parked u hparked
      rw [PipeCall.Wakes, hb] at hwakes
      exact hwakes
    | inr hidle =>
      rw [PipeCall.Wakes, hidle] at hwakes
      exact hwakes
  obtain ⟨t, hparked, hwanted⟩ := hangs.waits
  cases h.found t hparked with
  | inl hin => exact (h.served (s.calls t).side).not_wanted hin (hstill _) hwanted
  | inr hready =>
    -- the task that is to make it ready moves
    obtain ⟨u, w, hu⟩ := hready
    have hwakes : (s.calls u).Wakes (w.queue (s.calls u).side) := by
      rw [PipeCall.Wakes, hu]
    exact hstill _ u hwakes

/-! ## Steps -/

section SetCall

variable {call : PipeCall} {u : Nat}

theorem setCall_self (s : PipeTasks) (t : Nat) (call : PipeCall) :
    (s.setCall t call).calls t = call := by
  simp [setCall]

theorem setCall_of_ne (s : PipeTasks) (call : PipeCall) (hu : u ≠ t) :
    (s.setCall t call).calls u = s.calls u := by
  simp [setCall, hu]

theorem found_setCall (hp : ∀ w, (s.calls t).point ≠ .wakeup w (.ready u))
    (h : ∃ v w, (s.calls v).point = .wakeup w (.ready u)) :
    ∃ v w, ((s.setCall t call).calls v).point = .wakeup w (.ready u) := by
  obtain ⟨v, w, hv⟩ := h
  have hvt : v ≠ t := fun heq => hp w (heq ▸ hv)
  exact ⟨v, w, by rw [setCall_of_ne s call hvt]; exact hv⟩

end SetCall

theorem Inv.moves (h : s.Inv) (ht : s.currentTask = some t)
    (hswitch : (s.calls t).point ≠ .switch)
    (hready : ∀ w u, (s.calls t).point ≠ .wakeup w (.ready u))
    {pipe : Pipe} {stop : Bool} {closed : PipeEnd → Bool} {call : PipeCall}
    (hcall : call.point ≠ .switch) (hbounded : pipe.Bounded)
    (hwanted : ∀ q, Wanted { s with pipe := pipe, closed := closed } q →
      s.Wanted q ∨ call.Wakes q)
    (hwakes : ∀ q, (s.calls t).Wakes q → call.Wakes q ∨ s.queue q = [] ∨
      ∃ u, u ≠ t ∧ (s.calls u).Wakes q) :
    Inv { s with
      pipe := pipe
      internalStop := stop
      closed := closed
      calls := Function.update s.calls t call } := by
  have hout := h.not_queued ht hswitch
  have hself := setCall_self s t call
  have hne : ∀ q u, u ∈ s.queue q → u ≠ t := fun q u hu heq => hout q (heq ▸ hu)
  constructor
  case bounded => exact hbounded
  case nodup => exact h.nodup
  case side =>
    intro q u hu
    change ((s.setCall t call).calls u).side = q
    rw [setCall_of_ne s call (hne q u hu)]
    exact h.side q u hu
  case queued =>
    intro q u hu
    change ((s.setCall t call).calls u).point = .switch ∨ s.awake u = false
    rw [setCall_of_ne s call (hne q u hu)]
    exact h.queued q u hu
  case switching =>
    intro u hu
    change ((s.setCall t call).calls u).point = .switch at hu
    change s.currentTask = some u ∧ u ∈ s.queue ((s.setCall t call).calls u).side
    by_cases heq : u = t
    · rw [heq, hself] at hu
      exact absurd hu hcall
    · rw [setCall_of_ne s call heq] at hu ⊢
      exact h.switching u hu
  case running => exact h.running
  case parked =>
    intro u hu
    change ∃ b, ((s.setCall t call).calls u).point = .asleep b
    rw [setCall_of_ne s call (h.ne_of_parked ht hu)]
    exact h.parked u hu
  case found =>
    intro u hu
    change u ∈ s.queue ((s.setCall t call).calls u).side ∨
      ∃ v w, ((s.setCall t call).calls v).point = .wakeup w (.ready u)
    rw [setCall_of_ne s call (h.ne_of_parked ht hu)]
    cases h.found u hu with
    | inl hin => exact Or.inl hin
    | inr hwaker => exact Or.inr (found_setCall (fun w => hready w u) hwaker)
  case served =>
    intro q
    apply (h.served q).step
    case hqueued => exact fun hq => hq
    case hwanted =>
      intro hw
      cases hwanted q hw with
      | inl hold => exact Or.inl hold
      | inr hnew =>
        refine Or.inr ⟨t, ?_⟩
        change ((s.setCall t call).calls t).Wakes q
        rw [hself]
        exact hnew
    case hwaking =>
      have hkeep : ∀ u, u ≠ t → (s.calls u).Wakes q →
          ∃ v, ((s.setCall t call).calls v).Wakes q := by
        intro u hut hu
        exact ⟨u, by rw [setCall_of_ne s call hut]; exact hu⟩
      intro u hu
      by_cases heq : u = t
      · rw [heq] at hu
        rcases hwakes q hu with hnew | hnil | ⟨v, hvt, hv⟩
        · exact Or.inl ⟨t, by rw [← hself] at hnew; exact hnew⟩
        · exact Or.inr hnil
        · exact Or.inl (hkeep v hvt hv)
      · exact Or.inl (hkeep u heq hu)

theorem Inv.goes (h : s.Inv) (ht : s.currentTask = some t) (hswitch : (s.calls t).point ≠ .switch)
    (hready : ∀ w u, (s.calls t).point ≠ .wakeup w (.ready u)) {call : PipeCall}
    (hcall : call.point ≠ .switch)
    (hwakes : ∀ q, (s.calls t).Wakes q → call.Wakes q ∨ s.queue q = [] ∨
      ∃ u, u ≠ t ∧ (s.calls u).Wakes q) :
    (s.setCall t call).Inv :=
  h.moves ht hswitch hready hcall h.bounded (fun _ hw => Or.inl hw) hwakes

theorem makeTaskReady_running (hout : ∀ q, t ∉ s.queue q) (hawake : s.awake t = true) :
    s.makeTaskReady t = s := by
  have howned : ¬ s.Owned t := fun ho => ho.elim (hout .reader) (hout .writer)
  have hqueue : (fun q => (s.queue q).erase t) = s.queue := by
    funext q
    exact List.erase_of_not_mem (hout q)
  have hsame : Function.update s.awake t true = s.awake := by
    rw [← hawake, Function.update_eq_self]
  rw [makeTaskReady, if_neg howned, hqueue, hsame]

theorem Inv.makeTaskReady_eq (h : s.Inv) (ht : s.currentTask = some t)
    (hp : (s.calls t).point ≠ .switch) : s.makeTaskReady t = s :=
  makeTaskReady_running (h.not_queued ht hp) (h.running t ht)

theorem Inv.dispatch (h : s.Inv) (hswitch : ∀ u, (s.calls u).point ≠ .switch) {next : Option Nat}
    (hstep : s.dispatch next = some s') : s'.Inv := by
  rw [PipeTasks.dispatch] at hstep
  by_cases hnext : next.all s.awake = true
  · rw [if_pos hnext, Option.some.injEq] at hstep
    subst hstep
    constructor
    case bounded => exact h.bounded
    case nodup => exact h.nodup
    case side => exact h.side
    case queued => exact h.queued
    case switching => exact fun u hu => absurd hu (hswitch u)
    case running =>
      intro u hu
      change next = some u at hu
      rw [hu] at hnext
      exact hnext
    case parked => exact h.parked
    case found => exact h.found
    case served => exact h.served
  · rw [if_neg hnext] at hstep
    cases hstep

theorem Inv.tick (h : s.Inv) {next : Option Nat} (hcareful : s.Careful (.tick next))
    (hstep : s.step (.tick next) = some s') : s'.Inv := by
  have hswitch : ∀ u, (s.calls u).point ≠ .switch := by
    intro u hu
    exact hcareful u (h.switching u hu).1 hu
  rw [PipeTasks.step] at hstep
  cases hcurrent : s.currentTask with
  | none =>
    rw [hcurrent] at hstep
    exact h.dispatch hswitch hstep
  | some t =>
    simp only [hcurrent] at hstep
    rw [h.makeTaskReady_eq hcurrent (hswitch t)] at hstep
    exact h.dispatch hswitch hstep

section Goto

variable {point : CallPoint} {u : Nat}

theorem goto_self (s : PipeTasks) (t : Nat) (point : CallPoint) :
    (s.goto t point).calls t = { s.calls t with point := point } :=
  setCall_self s t _

theorem goto_of_ne (s : PipeTasks) (point : CallPoint) (hu : u ≠ t) :
    (s.goto t point).calls u = s.calls u :=
  setCall_of_ne s _ hu

theorem goto_side (s : PipeTasks) (t : Nat) (point : CallPoint) (u : Nat) :
    ((s.goto t point).calls u).side = (s.calls u).side := by
  by_cases hu : u = t
  · rw [hu, goto_self]
  · rw [goto_of_ne s point hu]

theorem Inv.not_switch_goto (h : s.Inv) (ht : s.currentTask = some t) (hpoint : point ≠ .switch)
    (u : Nat) : ((s.goto t point).calls u).point ≠ .switch := by
  intro hu
  by_cases heq : u = t
  · rw [heq, goto_self] at hu
    exact hpoint hu
  · rw [goto_of_ne s point heq] at hu
    exact heq (h.eq_of_switch ht hu)

theorem waking_goto {q : PipeEnd} (h : (s.calls u).Wakes q)
    (ht : (s.calls t).Wakes q → PipeCall.Wakes { s.calls t with point := point } q) :
    ((s.goto t point).calls u).Wakes q := by
  by_cases hu : u = t
  · rw [hu] at h ⊢
    rw [goto_self]
    exact ht h
  · rw [goto_of_ne s point hu]
    exact h

end Goto

theorem Inv.enqueues (h : s.Inv) (ht : s.currentTask = some t)
    (hp : (s.calls t).point = .sleepOn)
    (hcareful : s.Wanted (s.calls t).side → ∃ u, (s.calls u).Wakes (s.calls t).side)
    (sleepInterrupted : Nat → Bool) :
    Inv ({ s.goto t .switch with
      queue := Function.update s.queue (s.calls t).side (s.queue (s.calls t).side ++ [t])
      sleepInterrupted := sleepInterrupted }) := by
  have hswitch : (s.calls t).point ≠ .switch := by simp [hp]
  have hout := h.not_queued ht hswitch
  have hsleeps : ∀ q, ¬ (s.calls t).Wakes q := by
    intro q hq
    rw [PipeCall.Wakes, hp] at hq
    exact hq
  have hmem : ∀ q u, u ∈ Function.update s.queue (s.calls t).side
      (s.queue (s.calls t).side ++ [t]) q ↔ u ∈ s.queue q ∨ q = (s.calls t).side ∧ u = t := by
    intro q u
    by_cases hq : q = (s.calls t).side
    · simp [hq]
    · simp [hq]
  constructor
  case bounded => exact h.bounded
  case nodup =>
    intro q
    change (Function.update s.queue (s.calls t).side (s.queue (s.calls t).side ++ [t]) q).Nodup
    by_cases hq : q = (s.calls t).side
    · rw [hq, Function.update_self]
      rw [List.nodup_append]
      refine ⟨h.nodup _, by simp, ?_⟩
      intro u hu v hv heq
      rw [heq, List.mem_singleton.1 hv] at hu
      exact hout _ hu
    · rw [Function.update_of_ne hq]
      exact h.nodup q
  case side =>
    intro q u hu
    refine (goto_side s t .switch u).trans ?_
    cases (hmem q u).1 hu with
    | inl hin => exact h.side q u hin
    | inr hnew => rw [hnew.2, hnew.1]
  case queued =>
    intro q u hu
    by_cases heq : u = t
    · left
      rw [heq]
      exact congrArg PipeCall.point (goto_self s t .switch)
    · cases (hmem q u).1 hu with
      | inl hin =>
        change ((s.goto t .switch).calls u).point = .switch ∨ s.awake u = false
        rw [goto_of_ne s .switch heq]
        exact h.queued q u hin
      | inr hnew => exact absurd hnew.2 heq
  case switching =>
    intro u hu
    have heq : u = t := by
      by_contra hne
      change ((s.goto t .switch).calls u).point = .switch at hu
      rw [goto_of_ne s .switch hne] at hu
      exact hne (h.eq_of_switch ht hu)
    rw [heq]
    refine ⟨ht, (hmem _ t).2 (Or.inr ⟨?_, rfl⟩)⟩
    exact goto_side s t .switch t
  case running => exact h.running
  case parked =>
    intro u hu
    change ∃ b, ((s.goto t .switch).calls u).point = .asleep b
    rw [goto_of_ne s .switch (h.ne_of_parked ht hu)]
    exact h.parked u hu
  case found =>
    intro u hu
    cases h.found u hu with
    | inl hin =>
      left
      refine (hmem _ u).2 (Or.inl ?_)
      rw [goto_side s t .switch u]
      exact hin
    | inr hwaker => exact Or.inr (found_setCall (by simp [hp]) hwaker)
  case served =>
    intro q
    by_cases hq : q = (s.calls t).side
    · intro _ hwanted
      rw [hq] at hwanted ⊢
      obtain ⟨u, hu⟩ := hcareful hwanted
      exact ⟨u, waking_goto hu fun hself => absurd hself (hsleeps _)⟩
    · apply (h.served q).step
      case hqueued =>
        intro hne
        change Function.update s.queue (s.calls t).side _ q ≠ [] at hne
        rw [Function.update_of_ne hq] at hne
        exact hne
      case hwanted => exact fun hw => Or.inl hw
      case hwaking =>
        intro u hu
        exact Or.inl ⟨u, waking_goto hu fun hself => absurd hself (hsleeps _)⟩

theorem Inv.parks (h : s.Inv) (hp : (s.calls t).point = .switch) {next : Option Nat}
    (hstep : s.park t true next = some s') : s'.Inv := by
  obtain ⟨ht, hin⟩ := h.switching t hp
  have hsleeps : ∀ q, ¬ (s.calls t).Wakes q := by
    intro q hq
    rw [PipeCall.Wakes, hp] at hq
    exact hq
  rw [park, PipeTasks.dispatch] at hstep
  by_cases hnext : next.all (Function.update s.awake t false) = true
  · rw [if_pos hnext, Option.some.injEq] at hstep
    subst hstep
    constructor
    case bounded => exact h.bounded
    case nodup => exact h.nodup
    case side => exact fun q u hu => (goto_side s t _ u).trans (h.side q u hu)
    case queued =>
      intro q u hu
      change ((s.goto t (.asleep true)).calls u).point = .switch ∨
        Function.update s.awake t false u = false
      by_cases heq : u = t
      · right
        rw [heq, Function.update_self]
      · rw [goto_of_ne s _ heq, Function.update_of_ne heq]
        exact h.queued q u hu
    case switching =>
      intro u hu
      exact absurd hu (h.not_switch_goto ht (by simp) u)
    case running =>
      intro u hu
      change next = some u at hu
      rw [hu] at hnext
      exact hnext
    case parked =>
      intro u hu
      change ∃ b, ((s.goto t (.asleep true)).calls u).point = .asleep b
      change Function.update s.awake t false u = false at hu
      by_cases heq : u = t
      · rw [heq, goto_self]
        exact ⟨true, rfl⟩
      · rw [Function.update_of_ne heq] at hu
        rw [goto_of_ne s _ heq]
        exact h.parked u hu
    case found =>
      intro u hu
      change u ∈ s.queue ((s.goto t (.asleep true)).calls u).side ∨
        ∃ v w, ((s.goto t (.asleep true)).calls v).point = .wakeup w (.ready u)
      change Function.update s.awake t false u = false at hu
      rw [goto_side]
      by_cases heq : u = t
      · rw [heq]
        exact Or.inl hin
      · rw [Function.update_of_ne heq] at hu
        cases h.found u hu with
        | inl hold => exact Or.inl hold
        | inr hwaker => exact Or.inr (found_setCall (by simp [hp]) hwaker)
    case served =>
      intro q
      apply (h.served q).step
      case hqueued => exact fun hq => hq
      case hwanted => exact fun hw => Or.inl hw
      case hwaking =>
        intro u hu
        exact Or.inl ⟨u, waking_goto hu fun hself => absurd hself (hsleeps _)⟩
  · rw [if_neg hnext] at hstep
    cases hstep

theorem Inv.pops (h : s.Inv) (ht : s.currentTask = some t) {w : Wakeup} {u : Nat} {q : PipeEnd}
    (hp : (s.calls t).point = .wakeup w .pop) (hu : (s.queue q).getLast? = some u) :
    Inv { s.goto t (.wakeup w (.ready u)) with
      queue := Function.update s.queue q (s.queue q).dropLast } := by
  have hswitch : (s.calls t).point ≠ .switch := by simp [hp]
  have hout := h.not_queued ht hswitch
  have hmem : ∀ q' v, v ∈ Function.update s.queue q (s.queue q).dropLast q' → v ∈ s.queue q' := by
    intro q' v hv
    by_cases hq : q' = q
    · rw [hq, Function.update_self] at hv
      rw [hq]
      exact List.dropLast_subset _ hv
    · rw [Function.update_of_ne hq] at hv
      exact hv
  have hrest : ∀ q' v, v ∈ s.queue q' → v ≠ u →
      v ∈ Function.update s.queue q (s.queue q).dropLast q' := by
    intro q' v hv hvu
    by_cases hq : q' = q
    · obtain ⟨rest, hlist⟩ := List.getLast?_eq_some_iff.1 hu
      rw [hq, Function.update_self, hlist, List.dropLast_concat]
      rw [hq, hlist] at hv
      cases List.mem_append.1 hv with
      | inl hin => exact hin
      | inr hlast => exact absurd (List.mem_singleton.1 hlast) hvu
    · rw [Function.update_of_ne hq]
      exact hv
  have hne : ∀ q' v, v ∈ s.queue q' → v ≠ t := fun q' v hv heq => hout q' (heq ▸ hv)
  constructor
  case bounded => exact h.bounded
  case nodup =>
    intro q'
    change (Function.update s.queue q (s.queue q).dropLast q').Nodup
    by_cases hq : q' = q
    · rw [hq, Function.update_self]
      exact (h.nodup q).sublist (List.dropLast_sublist _)
    · rw [Function.update_of_ne hq]
      exact h.nodup q'
  case side => exact fun q' v hv => (goto_side s t _ v).trans (h.side q' v (hmem q' v hv))
  case queued =>
    intro q' v hv
    change ((s.goto t _).calls v).point = .switch ∨ s.awake v = false
    rw [goto_of_ne s _ (hne q' v (hmem q' v hv))]
    exact h.queued q' v (hmem q' v hv)
  case switching => exact fun v hv => absurd hv (h.not_switch_goto ht (by simp) v)
  case running => exact h.running
  case parked =>
    intro v hv
    change ∃ b, ((s.goto t _).calls v).point = .asleep b
    rw [goto_of_ne s _ (h.ne_of_parked ht hv)]
    exact h.parked v hv
  case found =>
    intro v hv
    change v ∈ Function.update s.queue q _ ((s.goto t _).calls v).side ∨
      ∃ x w', ((s.goto t _).calls x).point = .wakeup w' (.ready v)
    rw [goto_side]
    by_cases hvu : v = u
    · refine Or.inr ⟨t, w, ?_⟩
      rw [goto_self, hvu]
    · cases h.found v hv with
      | inl hin => exact Or.inl (hrest _ v hin hvu)
      | inr hwaker => exact Or.inr (found_setCall (by simp [hp]) hwaker)
  case served =>
    intro q'
    apply (h.served q').step
    case hqueued =>
      intro hne' hnil
      apply hne'
      change Function.update s.queue q (s.queue q).dropLast q' = []
      apply List.eq_nil_iff_forall_not_mem.2
      intro v hv
      have hold := hmem q' v hv
      change s.queue q' = [] at hnil
      rw [hnil] at hold
      exact List.not_mem_nil hold
    case hwanted => exact fun hw => Or.inl hw
    case hwaking =>
      intro v hv
      refine Or.inl ⟨v, waking_goto hv fun hself => ?_⟩
      rw [PipeCall.Wakes, hp] at hself
      exact hself

theorem Inv.readies (h : s.Inv) (ht : s.currentTask = some t) {w : Wakeup} {u : Nat}
    (hp : (s.calls t).point = .wakeup w (.ready u)) (sleepInterrupted : Nat → Bool) :
    Inv { s.goto t (.wakeup w .test) with
      queue := fun q => (s.queue q).erase u
      awake := Function.update s.awake u true
      sleepInterrupted := sleepInterrupted } := by
  have hswitch : (s.calls t).point ≠ .switch := by simp [hp]
  have hout := h.not_queued ht hswitch
  have hmem : ∀ q v, v ∈ (s.queue q).erase u ↔ v ≠ u ∧ v ∈ s.queue q :=
    fun q v => (h.nodup q).mem_erase_iff
  have hparked : ∀ v, Function.update s.awake u true v = false → v ≠ u ∧ s.awake v = false := by
    intro v hv
    by_cases hvu : v = u
    · rw [hvu, Function.update_self] at hv
      cases hv
    · rw [Function.update_of_ne hvu] at hv
      exact ⟨hvu, hv⟩
  have hne : ∀ q v, v ∈ s.queue q → v ≠ t := fun q v hv heq => hout q (heq ▸ hv)
  constructor
  case bounded => exact h.bounded
  case nodup => exact fun q => (h.nodup q).erase u
  case side =>
    intro q v hv
    exact (goto_side s t _ v).trans (h.side q v ((hmem q v).1 hv).2)
  case queued =>
    intro q v hv
    obtain ⟨hvu, hin⟩ := (hmem q v).1 hv
    change ((s.goto t _).calls v).point = .switch ∨ Function.update s.awake u true v = false
    rw [goto_of_ne s _ (hne q v hin), Function.update_of_ne hvu]
    exact h.queued q v hin
  case switching => exact fun v hv => absurd hv (h.not_switch_goto ht (by simp) v)
  case running =>
    intro v hv
    change Function.update s.awake u true v = true
    by_cases hvu : v = u
    · rw [hvu, Function.update_self]
    · rw [Function.update_of_ne hvu]
      exact h.running v hv
  case parked =>
    intro v hv
    have hold := (hparked v hv).2
    change ∃ b, ((s.goto t _).calls v).point = .asleep b
    rw [goto_of_ne s _ (h.ne_of_parked ht hold)]
    exact h.parked v hold
  case found =>
    intro v hv
    obtain ⟨hvu, hold⟩ := hparked v hv
    change v ∈ (s.queue ((s.goto t _).calls v).side).erase u ∨
      ∃ x w', ((s.goto t _).calls x).point = .wakeup w' (.ready v)
    rw [goto_side]
    cases h.found v hold with
    | inl hin => exact Or.inl ((hmem _ v).2 ⟨hvu, hin⟩)
    | inr hwaker =>
      have hother : ∀ w', (s.calls t).point ≠ .wakeup w' (.ready v) := by
        intro w' heq
        rw [hp] at heq
        injection heq with _ hready
        injection hready with hready
        exact hvu hready.symm
      exact Or.inr (found_setCall hother hwaker)
  case served =>
    intro q
    apply (h.served q).step
    case hqueued =>
      intro hne' hnil
      apply hne'
      change (s.queue q).erase u = []
      change s.queue q = [] at hnil
      rw [hnil]
      rfl
    case hwanted => exact fun hw => Or.inl hw
    case hwaking =>
      intro v hv
      refine Or.inl ⟨v, waking_goto hv fun hself => ?_⟩
      rw [PipeCall.Wakes, hp] at hself
      exact hself

/-! ## Runs -/

/-- The state differs in the variables of the task only, and the task is not about to switch. -/
def Moved (s : PipeTasks) (t : Nat) (s' : PipeTasks) : Prop :=
  ∃ call : PipeCall, s' = s.setCall t call ∧ call.point ≠ .switch

theorem moved_goto (s : PipeTasks) (t : Nat) {point : CallPoint} (hpoint : point ≠ .switch) :
    s.Moved t (s.goto t point) := ⟨_, rfl, hpoint⟩

theorem moved_nextChunk (s : PipeTasks) (t : Nat) : s.Moved t (s.nextChunk t) := by
  refine ⟨_, rfl, ?_⟩
  dsimp only
  split <;> simp

theorem moved_ringReturns (s : PipeTasks) (t : Nat) : s.Moved t (s.ringReturns t) := by
  rw [ringReturns]
  split
  · split
    · exact s.moved_goto t (by simp)
    · exact s.moved_nextChunk t
  · exact s.moved_goto t (by simp)

theorem moved_leaveLoop (s : PipeTasks) (t : Nat) : s.Moved t (s.leaveLoop t) := by
  rw [leaveLoop]
  split
  · exact s.moved_goto t (by simp)
  · exact s.moved_goto t (by simp)

theorem moved_wokenUp (s : PipeTasks) (t : Nat) (w : Wakeup) : s.Moved t (s.wokenUp t w) := by
  cases w with
  | loop =>
    rw [wokenUp]
    split
    · exact s.moved_goto t (by simp)
    · exact s.moved_leaveLoop t
  | after => exact s.moved_ringReturns t
  | readers => exact s.moved_goto t (by simp)
  | writers => exact s.moved_goto t (by simp)

theorem Moved.of_setCall {call : PipeCall} (h : (s.setCall t call).Moved t s') : s.Moved t s' := by
  obtain ⟨call', heq, hpoint⟩ := h
  refine ⟨call', ?_, hpoint⟩
  rw [heq, setCall, setCall, setCall, Function.update_idem]

theorem moved_enter (s : PipeTasks) (t : Nat) (call : PipeCall) : s.Moved t (s.enter t call) := by
  apply @Moved.of_setCall s _ t call
  rw [enter]
  split
  · split
    · exact moved_goto _ t (by simp)
    · exact moved_goto _ t (by simp)
  · split
    · exact moved_goto _ t (by simp)
    · exact moved_leaveLoop _ t

theorem Inv.moved (h : s.Inv) (ht : s.currentTask = some t) (hswitch : (s.calls t).point ≠ .switch)
    (hquiet : ∀ q, ¬ (s.calls t).Wakes q) (hmoved : s.Moved t s') : s'.Inv := by
  obtain ⟨call, heq, hpoint⟩ := hmoved
  have hready : ∀ w u, (s.calls t).point ≠ .wakeup w (.ready u) := by
    intro w u hp
    apply hquiet (w.queue (s.calls t).side)
    rw [PipeCall.Wakes, hp]
  rw [heq]
  exact h.goes ht hswitch hready hpoint fun q hq => absurd hq (hquiet q)

theorem Inv.transfer (h : s.Inv) (ht : s.currentTask = some t) (hp : (s.calls t).point = .lock) :
    (s.transfer t).Inv := by
  have hquiet : ∀ q, ¬ (s.calls t).Wakes q := by
    intro q hq
    rw [PipeCall.Wakes, hp] at hq
    exact hq
  rw [PipeTasks.transfer]
  dsimp only
  cases hside : (s.calls t).side with
  | reader =>
    obtain ⟨hbounded, hle⟩ := takeBytes_bounded
      (s.kind.chunk (s.calls t).size - (s.calls t).count) h.bounded
    apply h.moves ht
    case hswitch => simp [hp]
    case hready => simp [hp]
    case hcall => simp
    case hbounded => exact hbounded
    case hwanted =>
      intro q hw
      cases q with
      | reader =>
        left
        cases hw with
        | inl hunread => exact Or.inl (hunread.trans_le hle)
        | inr hclosed => exact Or.inr hclosed
      | writer => exact Or.inr rfl
    case hwakes => exact fun q hq => absurd hq (hquiet q)
  | writer =>
    obtain ⟨hbounded, hle⟩ := putBytes_bounded
      (((s.calls t).buffer.drop ((s.calls t).total + (s.calls t).count)).take
        (s.kind.chunk (s.calls t).size - (s.calls t).count)) h.bounded
    apply h.moves ht
    case hswitch => simp [hp]
    case hready => simp [hp]
    case hcall => simp
    case hbounded => exact hbounded
    case hwanted =>
      intro q hw
      cases q with
      | reader => exact Or.inr rfl
      | writer => exact Or.inl (Nat.lt_of_lt_of_le hw hle)
    case hwakes => exact fun q hq => absurd hq (hquiet q)

theorem Inv.wakeupQueue (h : s.Inv) (ht : s.currentTask = some t) {w : Wakeup} {p : WakeupPoint}
    (hp : (s.calls t).point = .wakeup w p) (hstep : s.wakeupQueue t w p = some s') : s'.Inv := by
  have hswitch : (s.calls t).point ≠ .switch := by simp [hp]
  have hwakes : ∀ q, (s.calls t).Wakes q → w.queue (s.calls t).side = q := by
    intro q hq
    rw [PipeCall.Wakes, hp] at hq
    exact hq
  cases p with
  | test =>
    have hready : ∀ w' u, (s.calls t).point ≠ .wakeup w' (.ready u) := by simp [hp]
    by_cases hnil : s.queue (w.queue (s.calls t).side) = []
    · rw [PipeTasks.wakeupQueue, if_pos hnil, Option.some.injEq] at hstep
      subst hstep
      obtain ⟨call, heq, hpoint⟩ := s.moved_wokenUp t w
      rw [heq]
      apply h.goes ht hswitch hready hpoint
      intro q hq
      rw [← hwakes q hq]
      exact Or.inr (Or.inl hnil)
    · rw [PipeTasks.wakeupQueue, if_neg hnil, Option.some.injEq] at hstep
      subst hstep
      exact h.goes ht hswitch hready (by simp) fun q hq => Or.inl (hwakes q hq)
  | pop =>
    rw [PipeTasks.wakeupQueue] at hstep
    cases hlast : (s.queue (w.queue (s.calls t).side)).getLast? with
    | none =>
      rw [hlast] at hstep
      cases hstep
    | some u =>
      rw [hlast] at hstep
      cases hstep
      exact h.pops ht hp hlast
  | ready u =>
    rw [PipeTasks.wakeupQueue] at hstep
    cases hstep
    by_cases hinterrupts : w.Interrupts
    · rw [if_pos hinterrupts]
      exact h.readies ht hp _
    · rw [if_neg hinterrupts]
      exact h.readies ht hp _

theorem Inv.closes (h : s.Inv) (ht : s.currentTask = some t) (hp : (s.calls t).point = .close)
    (hcareful : (s.calls t).side = .writer → s.closed .reader →
      s.queue .reader = [] ∨ ∃ u, u ≠ t ∧ (s.calls u).Wakes .reader) {next : Option Nat}
    (hstep : s.runStep t next = some s') : s'.Inv := by
  have hswitch : (s.calls t).point ≠ .switch := by simp [hp]
  have hready : ∀ w u, (s.calls t).point ≠ .wakeup w (.ready u) := by simp [hp]
  have hwakes : ∀ q, (s.calls t).Wakes q → q = .reader ∧ (s.calls t).side = .writer := by
    intro q hq
    rw [PipeCall.Wakes, hp] at hq
    exact hq
  simp only [runStep, hp] at hstep
  by_cases hclosed : s.closed (s.calls t).side.other = true
  · rw [if_pos hclosed, Option.some.injEq] at hstep
    subst hstep
    apply h.goes ht hswitch hready (by simp)
    intro q hq
    obtain ⟨rfl, hside⟩ := hwakes q hq
    rw [hside] at hclosed
    exact Or.inr (hcareful hside hclosed)
  · rw [if_neg hclosed, Option.some.injEq] at hstep
    subst hstep
    exact h.goes ht hswitch hready (by simp) fun q hq => Or.inl (hwakes q hq).1

theorem Inv.runStep (h : s.Inv) (ht : s.currentTask = some t) {next : Option Nat}
    (hcareful : s.Careful (.step next)) (hstep : s.runStep t next = some s') : s'.Inv := by
  obtain ⟨hsleep, hclose⟩ := hcareful t ht
  cases hp : (s.calls t).point with
  | idle => simp [PipeTasks.runStep, hp] at hstep
  | testClosed =>
    apply h.moved ht (by simp [hp]) (by simp [PipeCall.Wakes, hp])
    simp only [PipeTasks.runStep, hp] at hstep
    split at hstep
    · split at hstep
      · cases hstep
        exact s.moved_goto t (by simp)
      · cases hstep
        exact s.moved_goto t (by simp)
    · cases hstep
      exact s.moved_goto t (by simp)
  | testUnread =>
    apply h.moved ht (by simp [hp]) (by simp [PipeCall.Wakes, hp])
    simp only [PipeTasks.runStep, hp] at hstep
    split at hstep
    · cases hstep
      exact s.moved_goto t (by simp)
    · cases hstep
      exact s.moved_goto t (by simp)
  | lock =>
    simp only [PipeTasks.runStep, hp, Option.some.injEq] at hstep
    subst hstep
    exact h.transfer ht hp
  | wakeup w p =>
    simp only [PipeTasks.runStep, hp] at hstep
    exact h.wakeupQueue ht hp hstep
  | sleepOn =>
    have hout := h.not_queued ht (by simp [hp])
    have howned : ¬ s.Owned t := fun ho => ho.elim (hout .reader) (hout .writer)
    simp only [PipeTasks.runStep, hp] at hstep
    rw [if_neg howned, Option.some.injEq] at hstep
    subst hstep
    exact h.enqueues ht hp (hsleep hp) _
  | switch =>
    simp only [PipeTasks.runStep, hp] at hstep
    exact h.parks hp hstep
  | asleep queued =>
    apply h.moved ht (by simp [hp]) (by simp [PipeCall.Wakes, hp])
    simp only [PipeTasks.runStep, hp] at hstep
    split at hstep
    · cases hstep
      exact s.moved_goto t (by simp)
    · cases hstep
      exact s.moved_goto t (by simp)
  | clearStop =>
    simp only [PipeTasks.runStep, hp, Option.some.injEq] at hstep
    subst hstep
    apply h.moves ht
    case hswitch => simp [hp]
    case hready => simp [hp]
    case hcall => simp
    case hbounded => exact h.bounded
    case hwanted => exact fun q hw => Or.inl hw
    case hwakes => simp [PipeCall.Wakes, hp]
  | close => exact h.closes ht hp (hclose hp) hstep
  | interrupt =>
    simp only [PipeTasks.runStep, hp, Option.some.injEq] at hstep
    subst hstep
    apply h.moves ht
    case hswitch => simp [hp]
    case hready => simp [hp]
    case hcall => simp
    case hbounded => exact h.bounded
    case hwanted => exact fun q hw => Or.inl hw
    case hwakes =>
      intro q hq
      rw [PipeCall.Wakes, hp] at hq
      exact Or.inl hq.symm

theorem Inv.request (h : s.Inv) (ht : s.currentTask = some t) (hp : (s.calls t).point = .idle)
    {request : PipeRequest} (hstep : s.request t request = some s') : s'.Inv := by
  have hswitch : (s.calls t).point ≠ .switch := by simp [hp]
  have hquiet : ∀ q, ¬ (s.calls t).Wakes q := by simp [PipeCall.Wakes, hp]
  cases request with
  | read size =>
    cases hstep
    exact h.moved ht hswitch hquiet (s.moved_enter t _)
  | write data =>
    cases hstep
    exact h.moved ht hswitch hquiet (s.moved_enter t _)
  | close side =>
    rw [PipeTasks.request] at hstep
    split at hstep
    · cases hstep
      apply h.moves ht hswitch
      case hready => simp [hp]
      case hcall => simp
      case hbounded => exact h.bounded
      case hwanted =>
        intro q hw
        cases side with
        | reader =>
          left
          cases q with
          | reader => exact hw
          | writer => exact hw
        | writer =>
          cases q with
          | reader => exact Or.inr ⟨rfl, rfl⟩
          | writer => exact Or.inl hw
      case hwakes => exact fun q hq => absurd hq (hquiet q)
    · cases hstep

theorem Inv.step (h : s.Inv) {e : PipeTasksEvent} (hcareful : s.Careful e)
    (hstep : s.step e = some s') : s'.Inv := by
  cases e with
  | tick next => exact h.tick hcareful hstep
  | step next =>
    rw [PipeTasks.step] at hstep
    cases hcurrent : s.currentTask with
    | none =>
      rw [hcurrent] at hstep
      cases hstep
    | some t =>
      simp only [hcurrent] at hstep
      exact h.runStep hcurrent hcareful hstep
  | call request =>
    rw [PipeTasks.step] at hstep
    cases hcurrent : s.currentTask with
    | none =>
      rw [hcurrent] at hstep
      cases hstep
    | some t =>
      simp only [hcurrent] at hstep
      split at hstep
      · next hp => exact h.request hcurrent hp hstep
      · cases hstep

/-- No wakeup is lost in a run of careful steps. -/
theorem not_hangs_of_carefulSteps (kind : PipeKind) (junk : Nat → UInt8) {size : Nat}
    (hsize : 0 < size) (hrun : Relation.ReflTransGen CarefulStep (make kind junk size) s) :
    ¬ s.Hangs := by
  apply Inv.not_hangs
  induction hrun with
  | refl => exact inv_make kind junk hsize
  | tail _ hstep ih =>
    obtain ⟨e, hcareful, he⟩ := hstep
    exact ih.step hcareful he

theorem careful_step (ht : s.currentTask = some t) (hsleep : (s.calls t).point ≠ .sleepOn)
    (hclose : (s.calls t).point ≠ .close) {next : Option Nat} : s.Careful (.step next) := by
  intro u hu
  rw [ht] at hu
  cases hu
  exact ⟨fun hp => absurd hp hsleep, fun hp => absurd hp hclose⟩

theorem careful_sleep (ht : s.currentTask = some t) (hp : (s.calls t).point = .sleepOn)
    (hwanted : ¬ s.Wanted (s.calls t).side) {next : Option Nat} : s.Careful (.step next) := by
  intro u hu
  rw [ht] at hu
  cases hu
  refine ⟨fun _ hw => absurd hw hwanted, fun hclose => ?_⟩
  rw [hp] at hclose
  cases hclose

theorem reach (hrun : Relation.ReflTransGen CarefulStep s s') {e : PipeTasksEvent}
    (hcareful : s'.Careful e) {s'' : PipeTasks} (hstep : s'.step e = some s'') :
    Relation.ReflTransGen CarefulStep s s'' := hrun.tail ⟨e, hcareful, hstep⟩

/-- A reader goes to sleep on an empty pipe. -/
theorem not_hangs_of_carefulSteps_read :
    ∃ s, Relation.ReflTransGen CarefulStep (make .device (fun _ => 0) 2) s ∧
      s.awake 0 = false ∧ ¬ s.Hangs := by
  let s₀ := make .device (fun _ => 0) 2
  have hempty : ¬ (0 < pipeUnread s₀.pipe ∨ s₀.kind = .unix ∧ s₀.closed .writer) := by decide
  have hstart : s₀.Careful (.tick (some 0)) := fun _ ht => by cases ht
  have hruns := reach .refl hstart rfl
  have hcalls := reach hruns (e := .call (.read 1)) trivial rfl
  have htests := reach hcalls (e := .step none) (careful_step rfl (by decide) (by decide)) rfl
  have hwakes := reach htests (e := .step none) (careful_step rfl (by decide) (by decide)) rfl
  have hqueued := reach hwakes (e := .step none) (careful_sleep rfl rfl (by exact hempty)) rfl
  have hparked := reach hqueued (e := .step none) (careful_step rfl (by decide) (by decide)) rfl
  exact ⟨_, hparked, rfl, not_hangs_of_carefulSteps .device (fun _ => 0) Nat.two_pos hparked⟩

/-- A reader finds the pipe empty and wakes up the writers; before it is on its wait queue, a writer
puts a byte into the pipe, wakes up no reader and is done; then the reader goes to sleep. -/
def lostEvents : List PipeTasksEvent :=
  [.tick (some 0), .call (.read 1), .step none, .step none,
    .tick (some 1), .call (.write [7]), .step none, .step none,
    .tick (some 0), .step none, .step none]

theorem lostEvents_hangs :
    ∃ s, (make .device (fun _ => 0) 2).run lostEvents = some s ∧ s.Hangs := by
  refine ⟨_, rfl, ?_, 0, rfl, ?_⟩
  · intro t
    match t with
    | 0 => exact Or.inl rfl
    | 1 => exact Or.inr rfl
    | t + 2 => exact Or.inr rfl
  · exact Or.inl (by decide)

end PipeTasks

end KernelTest.Ipc
