import KernelTest.Ipc.UnixPipe

/-!
# The lines that come out of a unix pipe

The two tasks never are inside the ring buffer together, so the ring is a channel between them. What
the reader has got in its call holds no newline before the byte that it looks at.
-/

namespace KernelTest.Ipc

/-! ## Segments -/

section Segments

variable {n : Nat} {got : List UInt8}

theorem lineSegment_newline (hgot : newline ∉ got) (hlen : got.length < n) (rest : List UInt8) :
    lineSegment n (got ++ newline :: rest) = got ++ [newline] := by
  induction got generalizing n with
  | nil =>
    cases n with
    | zero => exact absurd hlen (Nat.not_lt_zero _)
    | succ n => rfl
  | cons c got ih =>
    cases n with
    | zero => exact absurd hlen (Nat.not_lt_zero _)
    | succ n =>
      have hc : c ≠ newline := fun hc => hgot (by simp [hc])
      have htail : newline ∉ got := fun hin => hgot (List.mem_cons_of_mem c hin)
      have hrest := ih htail (Nat.lt_of_succ_lt_succ hlen)
      rw [List.cons_append, lineSegment, if_neg hc, hrest, List.cons_append]

theorem lineSegment_full (hgot : newline ∉ got) (hlen : got.length = n) (rest : List UInt8) :
    lineSegment n (got ++ rest) = got := by
  induction got generalizing n with
  | nil =>
    subst hlen
    rfl
  | cons c got ih =>
    subst hlen
    have hc : c ≠ newline := fun hc => hgot (by simp [hc])
    have htail : newline ∉ got := fun hin => hgot (List.mem_cons_of_mem c hin)
    rw [List.length_cons, List.cons_append, lineSegment, if_neg hc, ih htail rfl]

theorem lineSegment_end (hgot : newline ∉ got) (hlen : got.length ≤ n) :
    lineSegment n got = got := by
  induction got generalizing n with
  | nil => cases n <;> rfl
  | cons c got ih =>
    cases n with
    | zero => exact absurd hlen (Nat.not_succ_le_zero _)
    | succ n =>
      have hc : c ≠ newline := fun hc => hgot (by simp [hc])
      have htail : newline ∉ got := fun hin => hgot (List.mem_cons_of_mem c hin)
      rw [lineSegment, if_neg hc, ih htail (Nat.le_of_succ_le_succ hlen)]

theorem segments_concat (stream : List UInt8) (ns : List Nat) (n : Nat) :
    segments stream (ns ++ [n]) = segments stream ns ++
      [lineSegment n (stream.drop (segments stream ns).flatten.length)] := by
  induction ns generalizing stream with
  | nil => rfl
  | cons m ns ih =>
    rw [List.cons_append, segments, ih, segments, List.cons_append, List.flatten_cons,
      List.length_append, List.drop_drop]

end Segments

/-! ## The invariant -/

theorem Phase.claimed_eq_zero {p : Phase} (h : ¬ p.Inside) : p.claimed = 0 := by
  cases p with
  | idle | acquire => rfl
  | test | copy | increment | wrap | release => exact absurd trivial h

def ReadPhase.inner : ReadPhase → Phase
  | .ring p => p
  | _ => .acquire

def WritePhase.inner : WritePhase → Phase
  | .ring p => p
  | _ => .acquire

def WritePhase.Working : WritePhase → Prop
  | .ring _ | .asleep => True
  | _ => False

structure LineCall.Good (call : LineCall) : Prop where
  got : call.got.length = call.read + call.collected + call.phase.inner.copied
  once : call.collected + call.phase.inner.claimed ≤ 1
  outside : ¬ call.phase.inner.Inside → call.collected = 0
  noLine : newline ∉ call.got.take call.read
  room : call.phase ≠ .idle → call.read < call.size
  idle : call.phase = .idle → call.got = []

structure BytesCall.Good (call : BytesCall) (offered accepted : List UInt8) : Prop where
  offered : accepted ++ call.data.drop (call.written + call.put + call.phase.inner.copied) = offered
  once : call.put + call.phase.inner.claimed ≤ 1
  outside : ¬ call.phase.inner.Inside → call.put = 0
  room : call.phase.Working → call.written < call.data.length
  done : ¬ call.phase.Working → call.data.length ≤ call.written

namespace UnixPipe

def delivered (s : UnixPipe) : List UInt8 :=
  (s.results.map Prod.snd).flatten ++ s.reader.got

def channel (s : UnixPipe) : Channel where
  pipe := s.ring.toPipe
  reader := s.reader.phase.inner
  writer := s.writer.phase.inner
  delivered := s.delivered
  accepted := s.accepted

structure Inv (s : UnixPipe) : Prop where
  lockReader : s.ring.lock = some .reader ↔ s.reader.phase.inner.Inside
  lockWriter : s.ring.lock = some .writer ↔ s.writer.phase.inner.Inside
  counted : ∃ nr nw, s.channel.Inv nr nw
  reader : s.reader.Good
  writer : s.writer.Good s.offered s.accepted
  closed : s.writeClosed = true ↔ s.writer.phase = .closing ∨ s.writer.phase = .closed
  eof : s.reader.phase = .testUnread → s.writeClosed = true
  lines : s.ReadsLines

theorem good_idleReader : idleReader.Good := by
  constructor
  case got => rfl
  case once => exact Nat.zero_le 1
  case outside => exact fun _ => rfl
  case noLine => exact List.not_mem_nil
  case room => exact fun h => absurd rfl h
  case idle => exact fun _ => rfl

theorem inv_make (junk : Nat → UInt8) : (make junk).Inv := by
  constructor
  case lockReader => exact iff_of_false (by simp [make, RingBuffer.create]) fun h => h
  case lockWriter => exact iff_of_false (by simp [make, RingBuffer.create]) fun h => h
  case counted => exact ⟨0, 0, Channel.inv_make junk (by decide)⟩
  case reader => exact good_idleReader
  case writer =>
    constructor
    case offered => rfl
    case once => exact Nat.zero_le 1
    case outside => exact fun _ => rfl
    case room => exact fun h => h.elim
    case done => exact fun _ => Nat.le_refl 0
  case closed => exact iff_of_false (by simp [make]) (by simp [make])
  case eof => exact fun h => by cases h
  case lines =>
    constructor
    case segments => exact fun stream _ _ => rfl
    case ends => exact fun r hr => absurd hr List.not_mem_nil

variable {s s' : UnixPipe}

theorem Inv.accepted_prefix (h : s.Inv) : s.accepted <+: s.offered := ⟨_, h.writer.offered⟩

theorem Inv.delivered_prefix (h : s.Inv) : s.delivered <+: s.offered := by
  obtain ⟨nr, nw, hinv⟩ := h.counted
  exact hinv.inOrder.trans h.accepted_prefix

/-! ## Steps of the reader -/

theorem Inv.with_reader (h : s.Inv) {ring : RingBuffer} {call : LineCall}
    (hlock : ring.lock = some .reader ↔ call.phase.inner.Inside)
    (hother : ring.lock = some .writer ↔ s.ring.lock = some .writer)
    (hcounted : ∃ nr nw, Channel.Inv { s.channel with
      pipe := ring.toPipe
      reader := call.phase.inner
      delivered := (s.results.map Prod.snd).flatten ++ call.got } nr nw)
    (hcall : call.Good) (heof : call.phase = .testUnread → s.writeClosed = true) :
    Inv { s with ring := ring, reader := call } := by
  constructor
  case lockReader => exact hlock
  case lockWriter => exact hother.trans h.lockWriter
  case counted => exact hcounted
  case reader => exact hcall
  case writer => exact h.writer
  case closed => exact h.closed
  case eof => exact heof
  case lines => exact ⟨h.lines.segments, h.lines.ends⟩

theorem Inv.returns (h : s.Inv) {ring : RingBuffer} (hpipe : ring.toPipe = s.ring.toPipe)
    (hlock : ring.lock ≠ some .reader)
    (hother : ring.lock = some .writer ↔ s.ring.lock = some .writer)
    (hquiet : s.reader.phase.inner.claimed = 0)
    (hline : ∀ rest, (s.writeClosed = true → s.delivered ++ rest = s.offered) →
      lineSegment s.reader.size (s.reader.got ++ rest) = s.reader.got)
    (hend : s.reader.got = [] → s.writeClosed = true ∧ s.delivered = s.offered) :
    Inv (returnLine { s with ring := ring }) := by
  have hflat : ((s.results ++ [(s.reader.size, s.reader.got)]).map Prod.snd).flatten =
      s.delivered := by
    rw [List.map_append, List.flatten_append, delivered, List.map_singleton, List.flatten_singleton]
  constructor
  case lockReader => exact iff_of_false hlock fun hin => hin
  case lockWriter => exact hother.trans h.lockWriter
  case counted =>
    obtain ⟨nr, nw, hinv⟩ := h.counted
    have hinv' : Channel.Inv { s.channel with reader := .acquire } nr nw :=
      hinv.reader_eq hquiet rfl
    have hchannel : (returnLine { s with ring := ring }).channel =
        { s.channel with reader := .acquire } := by
      rw [channel, channel, delivered]
      change Channel.mk ring.toPipe .acquire s.writer.phase.inner
        (((s.results ++ [(s.reader.size, s.reader.got)]).map Prod.snd).flatten ++ []) s.accepted = _
      rw [hflat, List.append_nil, hpipe]
    rw [hchannel]
    exact ⟨nr, nw, hinv'⟩
  case reader => exact good_idleReader
  case writer => exact h.writer
  case closed => exact h.closed
  case eof => exact fun hphase => by cases hphase
  case lines =>
    constructor
    case segments =>
      intro stream hpre hclosed
      have hold : s.results.map Prod.snd = segments stream (s.results.map Prod.fst) :=
        h.lines.segments stream hpre hclosed
      obtain ⟨rest, hrest⟩ := h.delivered_prefix.trans hpre
      have hcut : lineSegment s.reader.size (s.reader.got ++ rest) = s.reader.got :=
        hline rest fun hc => hrest.trans (hclosed hc)
      have hdrop : stream.drop (s.results.map Prod.snd).flatten.length = s.reader.got ++ rest := by
        rw [← hrest, delivered, List.append_assoc, List.drop_left]
      change (s.results ++ [(s.reader.size, s.reader.got)]).map Prod.snd =
        segments stream ((s.results ++ [(s.reader.size, s.reader.got)]).map Prod.fst)
      rw [List.map_append, List.map_append, List.map_singleton, List.map_singleton,
        segments_concat, ← hold, hdrop, hcut]
    case ends =>
      intro r hr hnil
      change s.writeClosed = true ∧
        ((s.results ++ [(s.reader.size, s.reader.got)]).map Prod.snd).flatten = s.offered
      rw [hflat]
      cases List.mem_append.1 hr with
      | inl hold =>
        -- nothing was left for this call
        have hends := h.lines.ends r hold hnil
        have hlen := h.delivered_prefix.length_le
        rw [← hends.2, delivered, List.length_append] at hlen
        have hgot : s.reader.got = [] := List.length_eq_zero_iff.1 (by omega)
        exact hend hgot
      | inr hnew =>
        cases List.mem_singleton.1 hnew
        exact hend hnil

theorem Inv.accepted_eq (h : s.Inv) (hw : ¬ s.writer.phase.Working) : s.accepted = s.offered := by
  have hoffered := h.writer.offered
  have hdone := h.writer.done hw
  rw [List.drop_eq_nil_of_le (by omega), List.append_nil] at hoffered
  exact hoffered

theorem Inv.delivered_eq (h : s.Inv) (hclosed : s.writeClosed = true)
    (hquiet : s.reader.phase.inner.moved = 0 ∧ s.reader.phase.inner.copied = 0)
    (hunread : ringBufferUnread s.ring = 0) : s.delivered = s.offered := by
  obtain ⟨nr, nw, hinv⟩ := h.counted
  have hphase := h.closed.1 hclosed
  have hinner : s.writer.phase.inner = .acquire := by
    cases hphase with
    | inl hc => rw [hc]; rfl
    | inr hc => rw [hc]; rfl
  have hworking : ¬ s.writer.phase.Working := by
    cases hphase with
    | inl hc => rw [hc]; exact fun hw => hw
    | inr hc => rw [hc]; exact fun hw => hw
  have hall := h.accepted_eq hworking
  have hmoved : s.channel.writer.moved = 0 := congrArg Phase.moved hinner
  have hcopied : s.channel.writer.copied = 0 := congrArg Phase.copied hinner
  have hwritePtr := hinv.writePtr
  have hlt : nw % s.channel.pipe.size < s.channel.pipe.size := Nat.mod_lt nw hinv.size_pos
  have hcount := hinv.unread_pos_iff hquiet.1 (by omega)
  have hzero : ¬ 0 < pipeUnread s.channel.pipe := by
    change pipeUnread s.channel.pipe = 0 at hunread
    omega
  have hnot := mt hcount.2 hzero
  have hdelivered := hinv.delivered
  have haccepted := hinv.accepted
  have hbehind := hinv.behind
  have hlen : s.delivered.length = s.accepted.length := by
    have hc : s.channel.reader.copied = 0 := hquiet.2
    change s.delivered.length = _ at hdelivered
    change s.accepted.length = _ at haccepted
    omega
  exact (hinv.inOrder.eq_of_length hlen).trans hall

theorem Inv.reader_moves (h : s.Inv) (phase : ReadPhase)
    (hold : ¬ s.reader.phase.inner.Inside) (hnew : ¬ phase.inner.Inside)
    (hidle : s.reader.phase ≠ .idle) (hphase : phase ≠ .idle)
    (heof : phase = .testUnread → s.writeClosed = true) :
    Inv { s with reader := { s.reader with phase := phase } } := by
  obtain ⟨nr, nw, hinv⟩ := h.counted
  have hclaimed : s.reader.phase.inner.claimed = 0 := Phase.claimed_eq_zero hold
  have hclaimed' : phase.inner.claimed = 0 := Phase.claimed_eq_zero hnew
  have hcopied := s.reader.phase.inner.copied_le_claimed
  have hcopied' := phase.inner.copied_le_claimed
  have hinv' : Channel.Inv { s.channel with reader := phase.inner } nr nw :=
    hinv.reader_eq hclaimed hclaimed'
  have hcall := h.reader
  apply @with_reader s h s.ring { s.reader with phase := phase }
  case hlock => exact iff_of_false (mt h.lockReader.1 hold) hnew
  case hother => exact Iff.rfl
  case hcounted => exact ⟨nr, nw, hinv'⟩
  case hcall =>
    constructor
    case got =>
      have hgot := hcall.got
      change s.reader.got.length = s.reader.read + s.reader.collected + phase.inner.copied
      omega
    case once =>
      have honce := hcall.once
      change s.reader.collected + phase.inner.claimed ≤ 1
      omega
    case outside => exact fun _ => hcall.outside hold
    case noLine => exact hcall.noLine
    case room => exact fun _ => hcall.room hidle
    case idle => exact fun hp => absurd hp hphase
  case heof => exact heof

theorem Inv.reader_inside (h : s.Inv) {pipe : Pipe} {call : LineCall}
    (hold : s.reader.phase.inner.Inside) (hnew : call.phase.inner.Inside)
    (hcounted : ∃ nr nw, Channel.Inv { s.channel with
      pipe := pipe
      reader := call.phase.inner
      delivered := (s.results.map Prod.snd).flatten ++ call.got } nr nw)
    (hcall : call.Good) :
    Inv { s with ring := { s.ring with toPipe := pipe }, reader := call } := by
  apply h.with_reader
  case hlock => exact iff_of_true (h.lockReader.2 hold) hnew
  case hother => exact Iff.rfl
  case hcounted => exact hcounted
  case hcall => exact hcall
  case heof =>
    intro hphase
    rw [hphase] at hnew
    exact hnew.elim

theorem Inv.not_race (h : s.Inv) (hin : s.reader.phase.inner.Inside) :
    ¬ (s.channel.pipe.readPtr = 0 ∧ s.channel.pipe.writePtr = s.channel.pipe.size) := by
  obtain ⟨nr, nw, hinv⟩ := h.counted
  have hlock := h.lockReader.2 hin
  have hout : ¬ s.writer.phase.inner.Inside := by
    rw [← h.lockWriter, hlock]
    simp
  have hclaimed : s.channel.writer.claimed = 0 := Phase.claimed_eq_zero hout
  have hle := s.channel.writer.moved_le_copied.trans s.channel.writer.copied_le_claimed
  have hwritePtr := hinv.writePtr
  have hlt : nw % s.channel.pipe.size < s.channel.pipe.size := Nat.mod_lt nw hinv.size_pos
  omega

theorem Inv.readLoop (h : s.Inv) {p : Phase} (hp : s.reader.phase = .ring p)
    (hin : p.Inside) (hrel : p ≠ .release) {interrupted : Bool}
    (hstep : s.readStep interrupted = some s') : s'.Inv := by
  obtain ⟨nr, nw, hinv⟩ := h.counted
  have hinner : s.reader.phase.inner = p := by rw [hp]; rfl
  have hinside : s.reader.phase.inner.Inside := by rw [hinner]; exact hin
  have hcall := h.reader
  have hroom := hcall.room (by simp [hp])
  have hgot := hcall.got
  have honce := hcall.once
  rw [hinner] at hgot honce
  cases p with
  | idle | acquire => exact hin.elim
  | release => exact absurd rfl hrel
  | test =>
    have hquiet : s.channel.reader.claimed = 0 := congrArg Phase.claimed hinner
    by_cases htest : ringBufferUnread s.ring > 0 ∧ s.reader.collected < 1
    · simp only [UnixPipe.readStep, hp] at hstep
      rw [if_pos htest, Option.some.injEq] at hstep
      subst hstep
      have hmoved : s.channel.reader.moved = 0 := congrArg Phase.moved hinner
      have hlt := (hinv.unread_pos_iff hmoved (h.not_race hinside)).1 htest.1
      apply h.reader_inside hinside
      case hnew => trivial
      case hcounted => exact ⟨nr, nw, hinv.reader_claims hquiet hlt⟩
      case hcall =>
        exact ⟨hgot, Nat.succ_le_of_lt htest.2, fun hout => absurd trivial hout, hcall.noLine,
          fun _ => hroom, fun hc => by cases hc⟩
    · simp only [UnixPipe.readStep, hp] at hstep
      rw [if_neg htest, Option.some.injEq] at hstep
      subst hstep
      have hinv' : Channel.Inv { s.channel with reader := .release } nr nw :=
        hinv.reader_eq hquiet rfl
      apply h.reader_inside hinside
      case hnew => trivial
      case hcounted => exact ⟨nr, nw, hinv'⟩
      case hcall =>
        exact ⟨hgot, honce, fun hout => absurd trivial hout, hcall.noLine,
          fun _ => hroom, fun hc => by cases hc⟩
  | copy =>
    simp only [UnixPipe.readStep, hp, Option.some.injEq] at hstep
    subst hstep
    have hinv' := hinv.reader_copies hinner
    rw [channel, delivered, List.append_assoc] at hinv'
    apply h.reader_inside hinside
    case hnew => trivial
    case hcounted => exact ⟨nr, nw, hinv'⟩
    case hcall =>
      constructor
      case got =>
        rw [List.length_append, hgot]
        rfl
      case once => exact honce
      case outside => exact fun hout => absurd trivial hout
      case noLine =>
        have hle : s.reader.read ≤ s.reader.got.length := by
          change s.reader.got.length = s.reader.read + s.reader.collected + 0 at hgot
          omega
        rw [List.take_append_of_le_length hle]
        exact hcall.noLine
      case room => exact fun _ => hroom
      case idle => exact fun hc => by cases hc
  | increment =>
    simp only [UnixPipe.readStep, hp, Option.some.injEq] at hstep
    subst hstep
    apply h.reader_inside hinside
    case hnew => trivial
    case hcounted => exact ⟨nr, nw, hinv.reader_increments hinner⟩
    case hcall =>
      exact ⟨hgot, honce, fun hout => absurd trivial hout, hcall.noLine,
        fun _ => hroom, fun hc => by cases hc⟩
  | wrap =>
    simp only [UnixPipe.readStep, hp, Option.some.injEq] at hstep
    subst hstep
    apply h.reader_inside hinside
    case hnew => trivial
    case hcounted => exact ⟨nr + 1, nw, hinv.reader_wraps hinner⟩
    case hcall =>
      exact ⟨hgot, honce, fun hout => absurd trivial hout, hcall.noLine,
        fun _ => hroom, fun hc => by cases hc⟩

theorem Inv.readRelease (h : s.Inv) (hp : s.reader.phase = .ring .release) {interrupted : Bool}
    (hstep : s.readStep interrupted = some s') : s'.Inv := by
  obtain ⟨nr, nw, hinv⟩ := h.counted
  have hinner : s.reader.phase.inner = .release := by rw [hp]; rfl
  have hinside : s.reader.phase.inner.Inside := by rw [hinner]; trivial
  have hquiet : s.channel.reader.claimed = 0 := congrArg Phase.claimed hinner
  have hinv' : Channel.Inv { s.channel with reader := .acquire } nr nw :=
    hinv.reader_eq hquiet rfl
  have hother : (none : Option PipeEnd) = some .writer ↔ s.ring.lock = some .writer := by
    rw [h.lockReader.2 hinside]
    simp
  have hcall := h.reader
  have hroom := hcall.room (by simp [hp])
  have hgot := hcall.got
  have honce := hcall.once
  rw [hinner] at hgot honce
  change s.reader.got.length = s.reader.read + s.reader.collected at hgot
  change s.reader.collected ≤ 1 at honce
  simp only [UnixPipe.readStep, hp] at hstep
  by_cases hzero : s.reader.collected = 0
  · rw [if_pos hzero, Option.some.injEq] at hstep
    subst hstep
    apply h.with_reader
    case hlock => exact iff_of_false (by simp) fun hin => hin
    case hother => exact hother
    case hcounted => exact ⟨nr, nw, hinv'⟩
    case hcall =>
      exact ⟨hgot, honce, fun _ => hzero, hcall.noLine, fun _ => hroom, fun hc => by cases hc⟩
    case heof => exact fun hc => by cases hc
  · rw [if_neg hzero] at hstep
    have hone : s.reader.collected = 1 := by omega
    rw [hone] at hgot
    have htake : s.reader.got =
        s.reader.got.take s.reader.read ++ [s.reader.got.getD s.reader.read 0] := by
      have hlt : s.reader.read < s.reader.got.length := by omega
      rw [List.getD_eq_getElem?_getD, List.getElem?_eq_getElem hlt, Option.getD_some,
        List.take_append_getElem hlt, ← hgot, List.take_length]
    by_cases hline : s.reader.got.getD s.reader.read 0 = newline
    · -- the byte is a newline
      rw [if_pos hline, Option.some.injEq] at hstep
      subst hstep
      rw [hline] at htake
      apply h.returns
      case hpipe => rfl
      case hlock => simp
      case hother => exact hother
      case hquiet => exact hquiet
      case hline =>
        intro rest _
        have hlen : (s.reader.got.take s.reader.read).length < s.reader.size := by
          rw [List.length_take]
          omega
        rw [htake, List.append_assoc, List.singleton_append]
        exact lineSegment_newline hcall.noLine hlen rest
      case hend =>
        intro hnil
        rw [hnil] at hgot
        exact absurd hgot (by simp)
    · rw [if_neg hline] at hstep
      have hno : newline ∉ s.reader.got := by
        rw [htake]
        intro hin
        cases List.mem_append.1 hin with
        | inl hold => exact hcall.noLine hold
        | inr hnew => exact hline (List.mem_singleton.1 hnew).symm
      by_cases hmore : s.reader.read + s.reader.collected < s.reader.size
      · rw [if_pos hmore, Option.some.injEq] at hstep
        subst hstep
        apply h.with_reader
        case hlock => exact iff_of_false (by simp) fun hin => hin
        case hother => exact hother
        case hcounted => exact ⟨nr, nw, hinv'⟩
        case hcall =>
          constructor
          case got =>
            change s.reader.got.length = s.reader.read + s.reader.collected + 0 + 0
            omega
          case once => exact Nat.zero_le 1
          case outside => exact fun _ => rfl
          case noLine => exact fun hc => hno (List.mem_of_mem_take hc)
          case room => exact fun _ => hmore
          case idle => exact fun hc => by cases hc
        case heof => exact fun hc => by cases hc
      · rw [if_neg hmore, Option.some.injEq] at hstep
        subst hstep
        apply h.returns
        case hpipe => rfl
        case hlock => simp
        case hother => exact hother
        case hquiet => exact hquiet
        case hline => exact fun rest _ => lineSegment_full hno (by omega) rest
        case hend =>
          intro hnil
          rw [hnil] at hgot
          exact absurd hgot (by simp)

theorem Inv.readRing (h : s.Inv) {p : Phase} (hp : s.reader.phase = .ring p) {interrupted : Bool}
    (hstep : s.readStep interrupted = some s') : s'.Inv := by
  cases p with
  | idle => simp [UnixPipe.readStep, hp] at hstep
  | acquire =>
    by_cases hfree : s.ring.lock = none
    · simp only [UnixPipe.readStep, hp] at hstep
      rw [if_pos hfree, Option.some.injEq] at hstep
      subst hstep
      obtain ⟨nr, nw, hinv⟩ := h.counted
      have hinner : s.reader.phase.inner = .acquire := by rw [hp]; rfl
      have hout : ¬ s.reader.phase.inner.Inside := by rw [hinner]; exact fun hin => hin
      have hquiet : s.channel.reader.claimed = 0 := congrArg Phase.claimed hinner
      have hinv' : Channel.Inv { s.channel with reader := .test } nr nw :=
        hinv.reader_eq hquiet rfl
      have hcall := h.reader
      have hgot := hcall.got
      have hzero := hcall.outside hout
      rw [hinner] at hgot
      apply h.with_reader
      case hlock => exact iff_of_true rfl trivial
      case hother => simp [hfree]
      case hcounted => exact ⟨nr, nw, hinv'⟩
      case hcall =>
        exact ⟨hgot, hzero.trans_le (Nat.zero_le 1), fun _ => hzero, hcall.noLine,
          fun _ => hcall.room (by simp [hp]), fun hc => by cases hc⟩
      case heof => exact fun hc => by cases hc
    · simp [UnixPipe.readStep, hp, hfree] at hstep
  | test => exact h.readLoop hp trivial (by simp) hstep
  | copy => exact h.readLoop hp trivial (by simp) hstep
  | increment => exact h.readLoop hp trivial (by simp) hstep
  | wrap => exact h.readLoop hp trivial (by simp) hstep
  | release => exact h.readRelease hp hstep

theorem Inv.readStep (h : s.Inv) {interrupted : Bool} (hstep : s.readStep interrupted = some s') :
    s'.Inv := by
  obtain ⟨nr, nw, hinv⟩ := h.counted
  have hcall := h.reader
  have hgot := hcall.got
  have honce := hcall.once
  cases hp : s.reader.phase with
  | idle => simp [UnixPipe.readStep, hp] at hstep
  | testClosed =>
    have hout : ¬ s.reader.phase.inner.Inside := by rw [hp]; exact fun hin => hin
    by_cases hclosed : s.writeClosed = true
    · simp only [UnixPipe.readStep, hp] at hstep
      rw [if_pos hclosed, Option.some.injEq] at hstep
      subst hstep
      exact h.reader_moves .testUnread hout (fun hin => hin) (by simp [hp]) (by simp) fun _ => hclosed
    · simp only [UnixPipe.readStep, hp] at hstep
      rw [if_neg hclosed, Option.some.injEq] at hstep
      subst hstep
      exact h.reader_moves (.ring .acquire) hout (fun hin => hin) (by simp [hp]) (by simp) (by simp)
  | testUnread =>
    have hout : ¬ s.reader.phase.inner.Inside := by rw [hp]; exact fun hin => hin
    have hclosed := h.eof hp
    by_cases hunread : ringBufferUnread s.ring = 0
    · simp only [UnixPipe.readStep, hp, hunread, if_true, Option.some.injEq] at hstep
      subst hstep
      have hinner : s.reader.phase.inner = .acquire := by rw [hp]; rfl
      have hall := h.delivered_eq hclosed (by rw [hinner]; exact ⟨rfl, rfl⟩) hunread
      have hread : s.reader.read = s.reader.got.length := by
        have hcollected := hcall.outside hout
        have hcopied := congrArg Phase.copied hinner
        change _ = 0 at hcopied
        omega
      have hno := hcall.noLine
      rw [hread, List.take_length] at hno
      have hroom := hcall.room (by simp [hp])
      apply @returns s h s.ring rfl
      case hlock => exact mt h.lockReader.1 hout
      case hother => exact Iff.rfl
      case hquiet => exact Phase.claimed_eq_zero hout
      case hline =>
        intro rest hrest
        have heq := hrest hclosed
        rw [hall] at heq
        rw [List.append_right_eq_self.1 heq, List.append_nil]
        exact lineSegment_end hno (by omega)
      case hend => exact fun _ => ⟨hclosed, hall⟩
    · simp only [UnixPipe.readStep, hp, hunread, if_false, Option.some.injEq] at hstep
      subst hstep
      exact h.reader_moves (.ring .acquire) hout (fun hin => hin) (by simp [hp]) (by simp) (by simp)
  | asleep =>
    have hout : ¬ s.reader.phase.inner.Inside := by rw [hp]; exact fun hin => hin
    by_cases hstop : interrupted = true ∧ s.ring.internalStop = true
    · simp only [UnixPipe.readStep, hp, hstop, and_self, if_true, Option.some.injEq] at hstep
      subst hstep
      have hmoved : Inv { s with reader := { s.reader with phase := .testClosed } } :=
        h.reader_moves .testClosed hout (fun hin => hin) (by simp [hp]) (by simp) (by simp)
      exact hmoved.with_reader hmoved.lockReader Iff.rfl hmoved.counted hmoved.reader (by simp)
    · simp only [UnixPipe.readStep, hp, hstop, if_false, Option.some.injEq] at hstep
      subst hstep
      exact h.reader_moves (.ring .acquire) hout (fun hin => hin) (by simp [hp]) (by simp) (by simp)
  | ring p => exact h.readRing hp hstep

/-! ## Steps of the writer -/

theorem Inv.with_writer (h : s.Inv) {ring : RingBuffer} {call : BytesCall} {accepted : List UInt8}
    (hlock : ring.lock = some .writer ↔ call.phase.inner.Inside)
    (hother : ring.lock = some .reader ↔ s.ring.lock = some .reader)
    (hcounted : ∃ nr nw, Channel.Inv { s.channel with
      pipe := ring.toPipe
      writer := call.phase.inner
      accepted := accepted } nr nw)
    (hcall : call.Good s.offered accepted)
    (hclosed : s.writeClosed = true ↔ call.phase = .closing ∨ call.phase = .closed) :
    Inv { s with ring := ring, writer := call, accepted := accepted } := by
  constructor
  case lockReader => exact hother.trans h.lockReader
  case lockWriter => exact hlock
  case counted => exact hcounted
  case reader => exact h.reader
  case writer => exact hcall
  case closed => exact hclosed
  case eof => exact h.eof
  case lines => exact ⟨h.lines.segments, h.lines.ends⟩

theorem Inv.open_of_working (h : s.Inv) (hw : s.writer.phase.Working) : ¬ s.writeClosed = true := by
  intro hc
  cases h.closed.1 hc with
  | inl hp =>
    rw [hp] at hw
    exact hw
  | inr hp =>
    rw [hp] at hw
    exact hw

theorem WritePhase.not_closed {phase : WritePhase} (hw : phase.Working) :
    ¬ (phase = .closing ∨ phase = .closed) := by
  cases phase with
  | idle | closing | closed => exact hw.elim
  | ring p => simp
  | asleep => simp

theorem Inv.writer_works (h : s.Inv) {ring : RingBuffer} {call : BytesCall}
    {accepted : List UInt8} (hold : s.writer.phase.Working) (hnew : call.phase.Working)
    (hlock : ring.lock = some .writer ↔ call.phase.inner.Inside)
    (hother : ring.lock = some .reader ↔ s.ring.lock = some .reader)
    (hcounted : ∃ nr nw, Channel.Inv { s.channel with
      pipe := ring.toPipe
      writer := call.phase.inner
      accepted := accepted } nr nw)
    (hcall : call.Good s.offered accepted) :
    Inv { s with ring := ring, writer := call, accepted := accepted } :=
  h.with_writer hlock hother hcounted hcall
    (iff_of_false (h.open_of_working hold) (WritePhase.not_closed hnew))

theorem WritePhase.working_of_inside {phase : WritePhase} (hin : phase.inner.Inside) :
    phase.Working := by
  cases phase with
  | idle | closing | closed => exact hin.elim
  | ring p => trivial
  | asleep => trivial

theorem Inv.writer_inside (h : s.Inv) {pipe : Pipe} {call : BytesCall} {accepted : List UInt8}
    (hold : s.writer.phase.inner.Inside) (hnew : call.phase.inner.Inside)
    (hcounted : ∃ nr nw, Channel.Inv { s.channel with
      pipe := pipe
      writer := call.phase.inner
      accepted := accepted } nr nw)
    (hcall : call.Good s.offered accepted) :
    Inv { s with
      ring := { s.ring with toPipe := pipe }, writer := call, accepted := accepted } := by
  apply h.writer_works (WritePhase.working_of_inside hold) (WritePhase.working_of_inside hnew)
  case hlock => exact iff_of_true (h.lockWriter.2 hold) hnew
  case hother => exact Iff.rfl
  case hcounted => exact hcounted
  case hcall => exact hcall

theorem Inv.writeLoop (h : s.Inv) {p : Phase} (hp : s.writer.phase = .ring p)
    (hin : p.Inside) (hrel : p ≠ .release) {interrupted : Bool}
    (hstep : s.writeStep interrupted = some s') : s'.Inv := by
  obtain ⟨nr, nw, hinv⟩ := h.counted
  have hinner : s.writer.phase.inner = p := by rw [hp]; rfl
  have hinside : s.writer.phase.inner.Inside := by rw [hinner]; exact hin
  have hwork : s.writer.phase.Working := by rw [hp]; trivial
  have hcall := h.writer
  have hroom := hcall.room hwork
  have hoffered := hcall.offered
  have honce := hcall.once
  rw [hinner] at hoffered honce
  cases p with
  | idle | acquire => exact hin.elim
  | release => exact absurd rfl hrel
  | test =>
    have hquiet : s.channel.writer.claimed = 0 := congrArg Phase.claimed hinner
    by_cases htest : ringBufferAvailable s.ring > 0 ∧ s.writer.put < 1
    · simp only [UnixPipe.writeStep, hp] at hstep
      rw [if_pos htest, Option.some.injEq] at hstep
      subst hstep
      apply h.writer_inside hinside
      case hnew => trivial
      case hcounted => exact ⟨nr, nw, hinv.writer_claims hquiet htest.1⟩
      case hcall =>
        exact ⟨hoffered, Nat.succ_le_of_lt htest.2, fun hout => absurd trivial hout,
          fun _ => hroom, fun hidle => absurd trivial hidle⟩
    · simp only [UnixPipe.writeStep, hp] at hstep
      rw [if_neg htest, Option.some.injEq] at hstep
      subst hstep
      have hinv' : Channel.Inv { s.channel with writer := .release } nr nw :=
        hinv.writer_eq hquiet rfl
      apply h.writer_inside hinside
      case hnew => trivial
      case hcounted => exact ⟨nr, nw, hinv'⟩
      case hcall =>
        exact ⟨hoffered, honce, fun hout => absurd trivial hout,
          fun _ => hroom, fun hidle => absurd trivial hidle⟩
  | copy =>
    simp only [UnixPipe.writeStep, hp, Option.some.injEq] at hstep
    subst hstep
    apply h.writer_inside hinside
    case hnew => trivial
    case hcounted => exact ⟨nr, nw, hinv.writer_copies hinner _⟩
    case hcall =>
      constructor
      case offered =>
        change s.writer.put + 1 ≤ 1 at honce
        have hlt : s.writer.written + s.writer.put < s.writer.data.length := by omega
        rw [← hoffered, List.append_assoc, List.getD_eq_getElem?_getD,
          List.getElem?_eq_getElem hlt, Option.getD_some]
        exact congrArg (s.accepted ++ ·) (List.drop_eq_getElem_cons hlt).symm
      case once => exact honce
      case outside => exact fun hout => absurd trivial hout
      case room => exact fun _ => hroom
      case done => exact fun hidle => absurd trivial hidle
  | increment =>
    simp only [UnixPipe.writeStep, hp, Option.some.injEq] at hstep
    subst hstep
    apply h.writer_inside hinside
    case hnew => trivial
    case hcounted => exact ⟨nr, nw, hinv.writer_increments hinner⟩
    case hcall =>
      exact ⟨hoffered, honce, fun hout => absurd trivial hout,
        fun _ => hroom, fun hidle => absurd trivial hidle⟩
  | wrap =>
    simp only [UnixPipe.writeStep, hp, Option.some.injEq] at hstep
    subst hstep
    apply h.writer_inside hinside
    case hnew => trivial
    case hcounted => exact ⟨nr, nw + 1, hinv.writer_wraps hinner⟩
    case hcall =>
      exact ⟨hoffered, honce, fun hout => absurd trivial hout,
        fun _ => hroom, fun hidle => absurd trivial hidle⟩

theorem Inv.writeRelease (h : s.Inv) (hp : s.writer.phase = .ring .release) {interrupted : Bool}
    (hstep : s.writeStep interrupted = some s') : s'.Inv := by
  obtain ⟨nr, nw, hinv⟩ := h.counted
  have hinner : s.writer.phase.inner = .release := by rw [hp]; rfl
  have hinside : s.writer.phase.inner.Inside := by rw [hinner]; trivial
  have hquiet : s.channel.writer.claimed = 0 := congrArg Phase.claimed hinner
  have hinv' : Channel.Inv { s.channel with writer := .acquire } nr nw :=
    hinv.writer_eq hquiet rfl
  have hother : (none : Option PipeEnd) = some .reader ↔ s.ring.lock = some .reader := by
    rw [h.lockWriter.2 hinside]
    simp
  have hwork : s.writer.phase.Working := by rw [hp]; trivial
  have hcall := h.writer
  have hroom := hcall.room hwork
  have hoffered := hcall.offered
  have honce := hcall.once
  rw [hinner] at hoffered honce
  change s.writer.put ≤ 1 at honce
  simp only [UnixPipe.writeStep, hp] at hstep
  by_cases hzero : s.writer.put = 0
  · rw [if_pos hzero, Option.some.injEq] at hstep
    subst hstep
    apply h.writer_works hwork
    case hnew => trivial
    case hlock => exact iff_of_false (by simp) fun hin => hin
    case hother => exact hother
    case hcounted => exact ⟨nr, nw, hinv'⟩
    case hcall =>
      exact ⟨hoffered, honce, fun _ => hzero, fun _ => hroom, fun hidle => absurd trivial hidle⟩
  · rw [if_neg hzero] at hstep
    by_cases hmore : s.writer.written + s.writer.put < s.writer.data.length
    · rw [if_pos hmore, Option.some.injEq] at hstep
      subst hstep
      apply h.writer_works hwork
      case hnew => trivial
      case hlock => exact iff_of_false (by simp) fun hin => hin
      case hother => exact hother
      case hcounted => exact ⟨nr, nw, hinv'⟩
      case hcall =>
        exact ⟨hoffered, Nat.zero_le 1, fun _ => rfl, fun _ => hmore,
          fun hidle => absurd trivial hidle⟩
    · rw [if_neg hmore, Option.some.injEq] at hstep
      subst hstep
      apply h.with_writer
      case hlock => exact iff_of_false (by simp) fun hin => hin
      case hother => exact hother
      case hcounted => exact ⟨nr, nw, hinv'⟩
      case hcall =>
        exact ⟨hoffered, Nat.zero_le 1, fun _ => rfl, fun hw => hw.elim,
          fun _ => Nat.not_lt.1 hmore⟩
      case hclosed => exact iff_of_false (h.open_of_working hwork) (by simp)

theorem Inv.writer_outside (h : s.Inv) {ring : RingBuffer} {phase : WritePhase}
    (hpipe : ring.toPipe = s.ring.toPipe) (hsame : ring.lock = s.ring.lock)
    (hold : ¬ s.writer.phase.inner.Inside) (hnew : ¬ phase.inner.Inside)
    (hwork : phase.Working ↔ s.writer.phase.Working)
    (hclosed : s.writeClosed = true ↔ phase = .closing ∨ phase = .closed) :
    Inv { s with ring := ring, writer := { s.writer with phase := phase } } := by
  obtain ⟨nr, nw, hinv⟩ := h.counted
  have hclaimed : s.writer.phase.inner.claimed = 0 := Phase.claimed_eq_zero hold
  have hclaimed' : phase.inner.claimed = 0 := Phase.claimed_eq_zero hnew
  have hcopied := s.writer.phase.inner.copied_le_claimed
  have hcopied' := phase.inner.copied_le_claimed
  have hinv' : Channel.Inv { s.channel with writer := phase.inner } nr nw :=
    hinv.writer_eq hclaimed hclaimed'
  have hcall := h.writer
  have hoffered := hcall.offered
  have hzero := hcall.outside hold
  have heq : phase.inner.copied = s.writer.phase.inner.copied := by omega
  apply h.with_writer
  case hlock =>
    rw [hsame]
    exact iff_of_false (mt h.lockWriter.1 hold) hnew
  case hother => rw [hsame]
  case hcounted =>
    rw [hpipe]
    exact ⟨nr, nw, hinv'⟩
  case hcall =>
    constructor
    case offered =>
      rw [heq]
      exact hoffered
    case once =>
      change s.writer.put + phase.inner.claimed ≤ 1
      omega
    case outside => exact fun _ => hzero
    case room => exact fun hw => hcall.room (hwork.1 hw)
    case done => exact fun hw => hcall.done (mt hwork.2 hw)
  case hclosed => exact hclosed

theorem Inv.writeStep (h : s.Inv) {interrupted : Bool} (hstep : s.writeStep interrupted = some s') :
    s'.Inv := by
  cases hp : s.writer.phase with
  | idle => simp [UnixPipe.writeStep, hp] at hstep
  | closed => simp [UnixPipe.writeStep, hp] at hstep
  | closing =>
    simp only [UnixPipe.writeStep, hp, Option.some.injEq] at hstep
    subst hstep
    have hclosed : s.writeClosed = true := h.closed.2 (Or.inl hp)
    apply h.writer_outside
    case hpipe => rfl
    case hsame => rfl
    case hold => rw [hp]; exact fun hin => hin
    case hnew => exact fun hin => hin
    case hwork => rw [hp]; exact Iff.rfl
    case hclosed => exact iff_of_true hclosed (Or.inr rfl)
  | asleep =>
    have hwork : s.writer.phase.Working := by rw [hp]; trivial
    have hout : ¬ s.writer.phase.inner.Inside := by rw [hp]; exact fun hin => hin
    have hopen := h.open_of_working hwork
    simp only [UnixPipe.writeStep, hp] at hstep
    by_cases hstop : interrupted = true ∧ s.ring.internalStop = true
    · rw [if_pos hstop, Option.some.injEq] at hstep
      subst hstep
      apply h.writer_outside
      case hpipe => rfl
      case hsame => rfl
      case hold => exact hout
      case hnew => exact fun hin => hin
      case hwork => exact iff_of_true trivial hwork
      case hclosed => exact iff_of_false hopen (by simp)
    · rw [if_neg hstop, Option.some.injEq] at hstep
      subst hstep
      have hmoved : Inv { s with
          ring := s.ring, writer := { s.writer with phase := .ring .acquire } } := by
        apply h.writer_outside rfl rfl hout
        case hnew => exact fun hin => hin
        case hwork => exact iff_of_true trivial hwork
        case hclosed => exact iff_of_false hopen (by simp)
      exact hmoved
  | ring p =>
    cases p with
    | idle => simp [UnixPipe.writeStep, hp] at hstep
    | acquire =>
      by_cases hfree : s.ring.lock = none
      · simp only [UnixPipe.writeStep, hp] at hstep
        rw [if_pos hfree, Option.some.injEq] at hstep
        subst hstep
        obtain ⟨nr, nw, hinv⟩ := h.counted
        have hinner : s.writer.phase.inner = .acquire := by rw [hp]; rfl
        have hwork : s.writer.phase.Working := by rw [hp]; trivial
        have hout : ¬ s.writer.phase.inner.Inside := by rw [hinner]; exact fun hin => hin
        have hquiet : s.channel.writer.claimed = 0 := congrArg Phase.claimed hinner
        have hinv' : Channel.Inv { s.channel with writer := .test } nr nw :=
          hinv.writer_eq hquiet rfl
        have hcall := h.writer
        have hoffered := hcall.offered
        have hzero := hcall.outside hout
        rw [hinner] at hoffered
        apply h.writer_works hwork
        case hnew => trivial
        case hlock => exact iff_of_true rfl trivial
        case hother => simp [hfree]
        case hcounted => exact ⟨nr, nw, hinv'⟩
        case hcall =>
          exact ⟨hoffered, hzero.trans_le (Nat.zero_le 1), fun _ => hzero,
            fun _ => hcall.room hwork, fun hidle => absurd trivial hidle⟩
      · simp [UnixPipe.writeStep, hp, hfree] at hstep
    | test => exact h.writeLoop hp trivial (by simp) hstep
    | copy => exact h.writeLoop hp trivial (by simp) hstep
    | increment => exact h.writeLoop hp trivial (by simp) hstep
    | wrap => exact h.writeLoop hp trivial (by simp) hstep
    | release => exact h.writeRelease hp hstep

/-! ## Runs -/

theorem Inv.read (h : s.Inv) {size : Nat} (hstep : s.step (.read size) = some s') : s'.Inv := by
  by_cases hidle : s.reader.phase = .idle ∧ 0 < size
  · rw [UnixPipe.step, if_pos hidle, Option.some.injEq] at hstep
    subst hstep
    obtain ⟨nr, nw, hinv⟩ := h.counted
    have hinner : s.reader.phase.inner = .acquire := by rw [hidle.1]; rfl
    have hout : ¬ s.reader.phase.inner.Inside := by rw [hinner]; exact fun hin => hin
    have hquiet : s.channel.reader.claimed = 0 := congrArg Phase.claimed hinner
    have hinv' : Channel.Inv { s.channel with reader := .acquire } nr nw :=
      hinv.reader_eq hquiet rfl
    rw [channel, delivered, h.reader.idle hidle.1] at hinv'
    apply @with_reader s h s.ring ⟨size, 0, 0, [], .testClosed⟩
    case hlock => exact iff_of_false (mt h.lockReader.1 hout) fun hin => hin
    case hother => exact Iff.rfl
    case hcounted => exact ⟨nr, nw, hinv'⟩
    case hcall =>
      exact ⟨rfl, Nat.zero_le 1, fun _ => rfl, List.not_mem_nil, fun _ => hidle.2, fun _ => rfl⟩
    case heof => exact fun hc => by cases hc
  · rw [UnixPipe.step, if_neg hidle] at hstep
    cases hstep

theorem Inv.write (h : s.Inv) {data : List UInt8} (hstep : s.step (.write data) = some s') :
    s'.Inv := by
  by_cases hidle : s.writer.phase = .idle
  · rw [UnixPipe.step, if_pos hidle, Option.some.injEq] at hstep
    subst hstep
    obtain ⟨nr, nw, hinv⟩ := h.counted
    have hinner : s.writer.phase.inner = .acquire := by rw [hidle]; rfl
    have hout : ¬ s.writer.phase.inner.Inside := by rw [hinner]; exact fun hin => hin
    have hall : s.accepted = s.offered := h.accepted_eq (by rw [hidle]; exact fun hw => hw)
    have hopen : ¬ s.writeClosed = true := by
      rw [h.closed, hidle]
      simp
    have hnew : (if data = [] then WritePhase.idle else .ring .acquire).inner = .acquire := by
      split <;> rfl
    have hwork : (if data = [] then WritePhase.idle else .ring .acquire).Working ↔ data ≠ [] := by
      by_cases hnil : data = []
      · rw [if_pos hnil]
        exact iff_of_false (fun hw => hw) (fun hne => hne hnil)
      · rw [if_neg hnil]
        exact iff_of_true trivial hnil
    have hinv' : Channel.Inv { s.channel with writer := .acquire } nr nw :=
      hinv.writer_eq (congrArg Phase.claimed hinner) rfl
    rw [← hnew] at hinv'
    constructor
    case lockReader => exact h.lockReader
    case lockWriter =>
      change s.ring.lock = some .writer ↔
        (if data = [] then WritePhase.idle else .ring .acquire).inner.Inside
      rw [hnew]
      exact iff_of_false (mt h.lockWriter.1 hout) fun hin => hin
    case counted => exact ⟨nr, nw, hinv'⟩
    case reader => exact h.reader
    case writer =>
      constructor
      case offered =>
        change s.accepted ++ data.drop (0 + 0 +
          (if data = [] then WritePhase.idle else .ring .acquire).inner.copied) = s.offered ++ data
        rw [hnew, hall]
        rfl
      case once =>
        change 0 + (if data = [] then WritePhase.idle else .ring .acquire).inner.claimed ≤ 1
        rw [hnew]
        exact Nat.zero_le 1
      case outside => exact fun _ => rfl
      case room => exact fun hw => List.length_pos_iff.2 (hwork.1 hw)
      case done => exact fun hw => Nat.le_of_eq (by rw [not_not.1 (mt hwork.2 hw)]; rfl)
    case closed =>
      apply iff_of_false hopen
      dsimp only
      split <;> simp
    case eof => exact h.eof
    case lines =>
      constructor
      case segments =>
        intro stream hpre _
        exact h.lines.segments stream ((List.prefix_append s.offered data).trans hpre)
          fun hc => absurd hc hopen
      case ends => exact fun r hr hnil => absurd (h.lines.ends r hr hnil).1 hopen
  · rw [UnixPipe.step, if_neg hidle] at hstep
    cases hstep

theorem Inv.closeWrite (h : s.Inv) (hstep : s.step .closeWrite = some s') : s'.Inv := by
  by_cases hidle : s.writer.phase = .idle
  · rw [UnixPipe.step, if_pos hidle, Option.some.injEq] at hstep
    subst hstep
    obtain ⟨nr, nw, hinv⟩ := h.counted
    have hinner : s.writer.phase.inner = .acquire := by rw [hidle]; rfl
    have hout : ¬ s.writer.phase.inner.Inside := by rw [hinner]; exact fun hin => hin
    have hwork : ¬ s.writer.phase.Working := by rw [hidle]; exact fun hw => hw
    have hinv' : Channel.Inv { s.channel with writer := .acquire } nr nw :=
      hinv.writer_eq (congrArg Phase.claimed hinner) rfl
    have hcall := h.writer
    have hoffered := hcall.offered
    have hzero := hcall.outside hout
    rw [hinner] at hoffered
    constructor
    case lockReader => exact h.lockReader
    case lockWriter => exact iff_of_false (mt h.lockWriter.1 hout) fun hin => hin
    case counted => exact ⟨nr, nw, hinv'⟩
    case reader => exact h.reader
    case writer =>
      exact ⟨hoffered, hzero.trans_le (Nat.zero_le 1), fun _ => hzero, fun hw => hw.elim,
        fun _ => hcall.done hwork⟩
    case closed => exact iff_of_true rfl (Or.inl rfl)
    case eof => exact fun _ => rfl
    case lines =>
      constructor
      case segments =>
        intro stream hpre hclosed
        have hopen : ¬ s.writeClosed = true := by
          rw [h.closed, hidle]
          simp
        exact h.lines.segments stream hpre fun hc => absurd hc hopen
      case ends => exact fun r hr hnil => ⟨rfl, (h.lines.ends r hr hnil).2⟩
  · rw [UnixPipe.step, if_neg hidle] at hstep
    cases hstep

theorem Inv.step (h : s.Inv) {e : UnixPipeEvent} (hstep : s.step e = some s') : s'.Inv := by
  cases e with
  | read size => exact h.read hstep
  | write data => exact h.write hstep
  | closeWrite => exact h.closeWrite hstep
  | readStep interrupted => exact h.readStep hstep
  | writeStep interrupted => exact h.writeStep hstep

theorem Inv.run (h : s.Inv) {es : List UnixPipeEvent} (hrun : s.run es = some s') : s'.Inv := by
  induction es generalizing s with
  | nil =>
    cases hrun
    exact h
  | cons e es ih =>
    obtain ⟨s₁, hstep, hrest⟩ := Option.bind_eq_some_iff.1 hrun
    exact ih (h.step hstep) hrest

/-- In every run the reader gets the lines of the stream, and gets nothing only at its end. -/
theorem readsLines_of_run (junk : Nat → UInt8) {es : List UnixPipeEvent}
    (hrun : (make junk).run es = some s) : s.ReadsLines :=
  ((inv_make junk).run hrun).lines

/-- A line is written and read, and after the close a read returns nothing. -/
def lineEvents : List UnixPipeEvent :=
  [UnixPipeEvent.write [newline]] ++ List.replicate 7 (UnixPipeEvent.writeStep false) ++
  [UnixPipeEvent.read 5] ++ List.replicate 8 (UnixPipeEvent.readStep false) ++
  [UnixPipeEvent.closeWrite, UnixPipeEvent.read 5] ++ List.replicate 2 (UnixPipeEvent.readStep false)

theorem readsLines_of_run_line : ∃ s, (make fun _ => 0).run lineEvents = some s ∧
    s.results = [(5, [newline]), (5, [])] ∧ s.ReadsLines := by
  have hrun : ((make fun _ => 0).run lineEvents).map (fun s => s.results) =
      some [(5, [newline]), (5, [])] := by decide
  obtain ⟨s, hs, hresults⟩ := Option.map_eq_some_iff.1 hrun
  exact ⟨s, hs, hresults, readsLines_of_run (fun _ => 0) hs⟩

end UnixPipe

end KernelTest.Ipc
