import KernelTest.Ipc.WaitQueues

/-!
# What is in a pipe

A pipe is a queue of bytes: the loop of `read_pipe` takes them from the front and the loop of
`write_pipe` appends them.
-/

namespace KernelTest.Ipc

/-- The unread bytes of the pipe; `taken` were read before them. -/
def Contents (pipe : Pipe) (data : List UInt8) : Prop :=
  ∃ taken : List UInt8, pipe.readPtr = taken.length % pipe.size ∧
    pipe.writePtr = (taken ++ data).length % pipe.size ∧ data.length < pipe.size ∧
    Ring.Holds pipe.size pipe.buffer taken.length (taken ++ data)

theorem contents_empty (junk : Nat → UInt8) {size : Nat} (h : 0 < size) :
    Contents ⟨junk, 0, 0, size⟩ [] := by
  refine ⟨[], by simp, by simp, h, ?_⟩
  intro p _ c hc
  simp at hc

variable {pipe : Pipe} {data : List UInt8} {b : UInt8}

theorem Contents.unread (h : Contents pipe data) : pipeUnread pipe = data.length := by
  obtain ⟨taken, hread, hwrite, hlen, -⟩ := h
  have hwindow : (taken ++ data).length < taken.length + pipe.size := by
    rw [List.length_append]
    omega
  have hunread := Ring.unread_mod (List.length_append ▸ Nat.le_add_right _ _) hwindow
  rw [← hread, ← hwrite, List.length_append, Nat.add_sub_cancel_left] at hunread
  exact hunread

theorem Contents.available (h : Contents pipe data) :
    pipeAvailable pipe = pipe.size - 1 - data.length := by
  obtain ⟨taken, hread, hwrite, hlen, -⟩ := h
  have hwindow : (taken ++ data).length < taken.length + pipe.size := by
    rw [List.length_append]
    omega
  have havailable := Ring.available_mod (List.length_append ▸ Nat.le_add_right _ _) hwindow
  rw [← hread, ← hwrite, List.length_append, Nat.add_sub_cancel_left] at havailable
  exact havailable

theorem Contents.head (h : Contents pipe (b :: data)) : pipe.buffer pipe.readPtr = b := by
  obtain ⟨taken, hread, -, -, hholds⟩ := h
  rw [hread]
  exact hholds taken.length (Nat.le_refl _) b (by simp)

theorem Contents.incrementRead (h : Contents pipe (b :: data)) :
    Contents (pipeIncrementRead pipe) data := by
  obtain ⟨taken, hread, hwrite, hlen, hholds⟩ := h
  rw [List.length_cons] at hlen
  have hstream : taken ++ b :: data = (taken ++ [b]) ++ data := by simp
  rw [hstream] at hwrite hholds
  have hsucc := Ring.succ_mod taken.length (show 0 < pipe.size by omega)
  refine ⟨taken ++ [b], ?_, hwrite, (by simp [pipeIncrementRead]; omega), ?_⟩
  · change (if pipe.readPtr + 1 = pipe.size then 0 else pipe.readPtr + 1) = _
    rw [List.length_append, List.length_singleton, hread]
    exact hsucc.symm
  · apply hholds.mono
    simp

theorem Contents.incrementWrite (h : Contents pipe data) (hroom : data.length + 1 < pipe.size)
    (b : UInt8) : Contents (pipeIncrementWrite
      { pipe with buffer := Function.update pipe.buffer pipe.writePtr b }) (data ++ [b]) := by
  obtain ⟨taken, hread, hwrite, hlen, hholds⟩ := h
  have hsucc := Ring.succ_mod (taken ++ data).length (show 0 < pipe.size by omega)
  have hwindow : (taken ++ data).length < taken.length + pipe.size := by
    rw [List.length_append]
    omega
  refine ⟨taken, hread, ?_, (by simpa [pipeIncrementWrite] using hroom), ?_⟩
  · change (if pipe.writePtr + 1 = pipe.size then 0 else pipe.writePtr + 1) = _
    rw [← List.append_assoc, List.length_append, List.length_singleton, hwrite]
    exact hsucc.symm
  · rw [← List.append_assoc]
    change Ring.Holds pipe.size (Function.update pipe.buffer pipe.writePtr b) _ _
    rw [hwrite]
    exact hholds.write hwindow b

theorem takeBytes_contents (n : Nat) (h : Contents pipe data) :
    (takeBytes n pipe).1 = data.take n ∧ Contents (takeBytes n pipe).2 (data.drop n) ∧
      (takeBytes n pipe).2.size = pipe.size := by
  induction n generalizing pipe data with
  | zero => exact ⟨rfl, h, rfl⟩
  | succ n ih =>
    rw [takeBytes]
    cases data with
    | nil =>
      rw [if_neg (by rw [h.unread]; simp)]
      exact ⟨rfl, h, rfl⟩
    | cons b data =>
      rw [if_pos (by rw [h.unread]; simp)]
      obtain ⟨htaken, hrest, hsize⟩ := ih h.incrementRead
      refine ⟨?_, hrest, hsize⟩
      change pipe.buffer pipe.readPtr :: (takeBytes n (pipeIncrementRead pipe)).1 = _
      rw [h.head, htaken, List.take_succ_cons]

theorem putBytes_contents {bytes : List UInt8} (h : Contents pipe data)
    (hroom : data.length + bytes.length < pipe.size) :
    (putBytes bytes pipe).1 = bytes.length ∧ Contents (putBytes bytes pipe).2 (data ++ bytes) ∧
      (putBytes bytes pipe).2.size = pipe.size := by
  induction bytes generalizing pipe data with
  | nil => exact ⟨rfl, by simpa [putBytes] using h, rfl⟩
  | cons b bs ih =>
    rw [List.length_cons] at hroom
    rw [putBytes, if_pos (by rw [h.available]; omega)]
    obtain ⟨hput, hrest, hsize⟩ := ih (h.incrementWrite (by omega) b)
      (by simp [pipeIncrementWrite]; omega)
    refine ⟨congrArg (· + 1) hput, ?_, hsize⟩
    rw [List.append_assoc] at hrest
    exact hrest

end KernelTest.Ipc
