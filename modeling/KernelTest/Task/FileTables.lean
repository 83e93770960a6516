import KernelTest.Framework.RefCount
import Mathlib.Logic.Relation

/-!
# Descriptor tables and working directories

How tasks take and give back references to files: `spawn_proc` (and `fork`, which adds nothing to
it here), `task_clone`, `task_append_fd`, `process_move_fd` and `task_free`.
-/

namespace KernelTest.Task

open Finset

/-- `fd_table_t`. From `length` on, the array `entries` holds whatever was in its memory. -/
structure FdTable where
  entries : Nat → Option Nat
  length : Nat
  capacity : Nat
  refs : Nat

/-- The fields of `task_t` that concern files; `fds` is the number of a descriptor table. -/
structure TaskFiles where
  wdNode : Option Nat
  fds : Nat
  finished : Bool

/-- All files, descriptor tables and tasks. Tables and tasks are numbered as they are allocated;
`freed` are the tables that were freed. -/
structure FileState where
  files : RefCounts Nat
  table : Nat → FdTable
  freed : Nat → Bool
  tables : Nat
  task : Nat → TaskFiles
  tasks : Nat

/-- `fs_clone(source)`. -/
def fsClone (c : RefCounts Nat) : Option Nat → RefCounts Nat
  | none => c
  | some f => c.take f

/-- `fopen(node, 0)`. -/
def fopen (c : RefCounts Nat) : Option Nat → RefCounts Nat
  | none => c
  | some f => c.take f

/-- `fclose(node)`. -/
def fclose (c : RefCounts Nat) : Option Nat → RefCounts Nat
  | none => c
  | some f => c.drop f

/-- The loop `for(i = 0; i < n; i++) fs_clone(entries[i])`. -/
def cloneEntries (entries : Nat → Option Nat) (c : RefCounts Nat) (n : Nat) : RefCounts Nat :=
  (List.range n).foldl (fun c i => fsClone c (entries i)) c

/-- The loop `for(i = 0; i < n; i++) fclose(entries[i])`. -/
def closeEntries (entries : Nat → Option Nat) (c : RefCounts Nat) (n : Nat) : RefCounts Nat :=
  (List.range n).foldl (fun c i => fclose c (entries i)) c

/-- `spawn_proc(parent, ...)`; the new array's memory held `junk`. -/
def spawnProc (s : FileState) (parent : Nat) (junk : Nat → Option Nat) : FileState :=
  let p := s.task parent
  let t := s.table p.fds
  { files := fsClone (cloneEntries t.entries s.files t.length) p.wdNode
    table := Function.update s.table s.tables
      { entries := fun i => if i < t.length then t.entries i else junk i
        length := t.length, capacity := t.capacity, refs := 1 }
    freed := Function.update s.freed s.tables false
    tables := s.tables + 1
    task := Function.update s.task s.tasks { wdNode := p.wdNode, fds := s.tables, finished := false }
    tasks := s.tasks + 1 }

/-- `task_clone` by the task `current`: after spawning, the copied table is freed and the table of
`current` is shared. -/
def taskClone (s : FileState) (current : Nat) (junk : Nat → Option Nat) : FileState :=
  let s₁ := spawnProc s current junk
  let fds := (s₁.task current).fds
  { s₁ with
    freed := Function.update s₁.freed s.tables true
    task := Function.update s₁.task s.tasks { s₁.task s.tasks with fds := fds }
    table := Function.update s₁.table fds { s₁.table fds with refs := (s₁.table fds).refs + 1 } }

def firstGap (t : FdTable) : Option Nat :=
  (List.range t.length).find? fun i => (t.entries i).isNone

/-- `realloc(entries, sizeof(FILE *) * capacity)` after doubling; the new memory held `junk`. -/
def growTable (t : FdTable) (junk : Nat → Option Nat) : FdTable :=
  { t with
    capacity := t.capacity * 2
    entries := fun i => if i < t.capacity then t.entries i else junk i }

/-- What `task_append_fd` does to the table: fill a gap, or expand. -/
def appendEntry (t : FdTable) (node : Nat) (junk : Nat → Option Nat) : FdTable :=
  match firstGap t with
  | some i => { t with entries := Function.update t.entries i (some node) }
  | none =>
    let t := if t.length = t.capacity then growTable t junk else t
    { t with
      entries := Function.update t.entries t.length (some node)
      length := t.length + 1 }

/-- `task_append_fd(task, node)`. -/
def taskAppendFd (s : FileState) (task node : Nat) (junk : Nat → Option Nat) : FileState :=
  let fds := (s.task task).fds
  { s with table := Function.update s.table fds (appendEntry (s.table fds) node junk) }

/-- A file that the VFS has just opened: its only reference is the caller's, unless it is a copy
of a mounted node, which is static. -/
def openFile (s : FileState) (node : Nat) (static : Bool) : FileState :=
  { s with
    files :=
      { count := Function.update s.files.count node (if static then -1 else 1)
        isOpen := Function.update s.files.isOpen node true } }

/-- `(size_t)n` for a 32-bit `int`. -/
def sizeT (n : Int) : Nat := (n % 4294967296).toNat

/-- `process_move_fd(task, src, dest)`. -/
def processMoveFd (s : FileState) (task : Nat) (src dest : Int) : FileState :=
  let fds := (s.task task).fds
  let t := s.table fds
  if t.length < sizeT src ∨ t.length < sizeT dest then s
  else if t.entries (sizeT dest) = t.entries (sizeT src) then s
  else
    let files := fclose s.files (t.entries (sizeT dest))
    { s with
      files := fopen files (t.entries (sizeT src))
      table := Function.update s.table fds
        { t with entries := Function.update t.entries (sizeT dest) (t.entries (sizeT src)) } }

/-- `task_free(task, retval)`. -/
def taskFree (s : FileState) (task : Nat) : FileState :=
  let fds := (s.task task).fds
  let t := s.table fds
  let s :=
    { s with
      task := Function.update s.task task { s.task task with finished := true }
      table := Function.update s.table fds { t with refs := t.refs - 1 } }
  if t.refs - 1 = 0 then
    { s with
      files := closeEntries t.entries s.files t.length
      freed := Function.update s.freed fds true }
  else s

/-- `spawn_rootproc()`: one task with an empty table, in the mounted root if there is one. -/
def spawnRootproc (fsRoot : Option Nat) : FileState :=
  { files := { count := fun f => if fsRoot = some f then -1 else 0
               isOpen := fun f => fsRoot = some f }
    table := fun _ => { entries := fun _ => none, length := 0, capacity := 4, refs := 1 }
    freed := fun _ => false
    tables := 1
    task := fun _ => { wdNode := fsRoot, fds := 0, finished := false }
    tasks := 1 }

namespace FileState

/-- A task that was created and not freed yet. -/
def Live (s : FileState) (k : Nat) : Prop := k < s.tasks ∧ (s.task k).finished = false

instance (s : FileState) (k : Nat) : Decidable (s.Live k) :=
  inferInstanceAs (Decidable (_ ∧ _))

/-- How many slots of the table `t` hold the file `f`; none if the table was freed. -/
def tableSlots (s : FileState) (f t : Nat) : Nat :=
  if s.freed t then 0 else held (s.table t).entries (s.table t).length f

/-- How many descriptor slots hold the file `f`. -/
def slots (s : FileState) (f : Nat) : Nat := ∑ t ∈ range s.tables, s.tableSlots f t

/-- The working directory of a task, as long as it lives. -/
def workDir (s : FileState) (k : Nat) : Option Nat :=
  if (s.task k).finished then none else (s.task k).wdNode

/-- How many references to `f` the live tasks can use. -/
def holders (s : FileState) (f : Nat) : Nat := s.slots f + held s.workDir s.tasks f

/-- The table of a task, as long as the task lives. -/
def usedTable (s : FileState) (k : Nat) : Option Nat :=
  if (s.task k).finished then none else some (s.task k).fds

/-- How many live tasks use the table `t`. -/
def users (s : FileState) (t : Nat) : Nat := held s.usedTable s.tasks t

end FileState

inductive FileOp
  | spawn (parent : Nat) (junk : Nat → Option Nat)
  | clone (current : Nat) (junk : Nat → Option Nat)
  | append (task node : Nat) (static : Bool) (junk : Nat → Option Nat)
  | move (task : Nat) (src dest : Int)
  | free (task : Nat)

def FileOp.task : FileOp → Nat
  | spawn k _ => k
  | clone k _ => k
  | append k _ _ _ => k
  | move k _ _ => k
  | free k => k

/-- One operation on behalf of a live task; a freshly opened file is not in use yet. -/
def FileOp.run (s : FileState) : FileOp → FileState
  | spawn parent junk => spawnProc s parent junk
  | clone current junk => taskClone s current junk
  | append task node static junk => taskAppendFd (openFile s node static) task node junk
  | move task src dest => processMoveFd s task src dest
  | free task => taskFree s task

def FileOp.Enabled (s : FileState) (op : FileOp) : Prop :=
  s.Live op.task ∧ ∀ k f b j, op = append k f b j → s.files.isOpen f = false

/-- Every count is exact: no file is closed while a live task can use it, every file is closed
once its last holder is gone, and a table lasts as long as a live task uses it. -/
structure FilesExact (s : FileState) : Prop where
  files : s.files.Exact s.holders
  refs : ∀ t, t < s.tables → s.freed t = false → (s.table t).refs = s.users t ∧ 0 < s.users t
  freed : ∀ t, t < s.tables → s.freed t = true → s.users t = 0
  allocated : ∀ k, s.Live k → (s.task k).fds < s.tables

section Counts

variable {c : RefCounts Nat} {h h' : Nat → Nat} {entries : Nat → Option Nat} {n : Nat}

theorem cloneEntries_succ :
    cloneEntries entries c (n + 1) = fsClone (cloneEntries entries c n) (entries n) := by
  simp [cloneEntries, List.range_succ]

theorem closeEntries_succ :
    closeEntries entries c (n + 1) = fclose (closeEntries entries c n) (entries n) := by
  simp [closeEntries, List.range_succ]

theorem fsClone_exact (hc : c.Exact h) (p : Option Nat) (hpos : ∀ f, p = some f → 0 < h f) :
    (fsClone c p).Exact fun g => h g + if p = some g then 1 else 0 := by
  cases p with
  | none => simpa [fsClone] using hc
  | some f => simpa [fsClone] using hc.take (hpos f rfl)

theorem fclose_exact (hc : c.Exact h) (p : Option Nat)
    (hh : ∀ g, h g = h' g + if p = some g then 1 else 0) : (fclose c p).Exact h' := by
  cases p with
  | none =>
    have hsame : h = h' := funext fun g => by simpa using hh g
    rwa [← hsame]
  | some f => exact hc.drop fun g => by simpa using hh g

theorem cloneEntries_exact (hc : c.Exact h)
    (hpos : ∀ i f, i < n → entries i = some f → 0 < h f) :
    (cloneEntries entries c n).Exact fun f => h f + held entries n f := by
  induction n with
  | zero => exact hc
  | succ n ih =>
    have hn := ih fun i f hi => hpos i f (Nat.lt_succ_of_lt hi)
    rw [cloneEntries_succ]
    simp only [held_succ, ← Nat.add_assoc]
    exact fsClone_exact hn (entries n) fun f hf =>
      Nat.lt_of_lt_of_le (hpos n f (Nat.lt_succ_self n) hf) (Nat.le_add_right _ _)

theorem closeEntries_exact (hc : c.Exact h) (hh : ∀ f, h f = h' f + held entries n f) :
    (closeEntries entries c n).Exact h' := by
  induction n generalizing h' with
  | zero =>
    have hsame : h = h' := funext fun f => by simpa using hh f
    rwa [← hsame]
  | succ n ih =>
    have hn : (closeEntries entries c n).Exact
        fun f => h' f + if entries n = some f then 1 else 0 := by
      apply ih
      intro f
      rw [hh f, held_succ]
      omega
    rw [closeEntries_succ]
    exact fclose_exact hn (entries n) fun _ => rfl

theorem fsClone_static {f : Nat} (p : Option Nat) (hf : c.count f = -1) :
    (fsClone c p).count f = -1 := by
  cases p with
  | none => exact hf
  | some g => exact RefCounts.take_static hf

theorem cloneEntries_static {f : Nat} (hf : c.count f = -1) :
    (cloneEntries entries c n).count f = -1 := by
  induction n with
  | zero => exact hf
  | succ n ih =>
    rw [cloneEntries_succ]
    exact fsClone_static _ ih

theorem closeEntries_static {f : Nat} (hf : c.count f = -1) :
    (closeEntries entries c n).count f = -1 := by
  induction n with
  | zero => exact hf
  | succ n ih =>
    rw [closeEntries_succ]
    cases entries n with
    | none => exact ih
    | some g => exact RefCounts.drop_static ih

end Counts

namespace FilesExact

variable {s : FileState} {k : Nat}

theorem table_of_live (h : FilesExact s) (hk : s.Live k) :
    (s.task k).fds < s.tables ∧ s.freed (s.task k).fds = false ∧
      (s.table (s.task k).fds).refs = s.users (s.task k).fds := by
  have hlt := h.allocated k hk
  have hused : s.usedTable k = some (s.task k).fds := by
    rw [FileState.usedTable, hk.2]
    rfl
  have hpos : 0 < s.users (s.task k).fds := held_pos hk.1 hused
  cases hfreed : s.freed (s.task k).fds with
  | true =>
    have hnone := h.freed _ hlt hfreed
    omega
  | false => exact ⟨hlt, rfl, (h.refs _ hlt hfreed).1⟩

theorem slots_ge {t f : Nat} (ht : t < s.tables) (hfreed : s.freed t = false) :
    held (s.table t).entries (s.table t).length f ≤ s.slots f := by
  have hle : s.tableSlots f t ≤ s.slots f :=
    single_le_sum (f := s.tableSlots f) (fun _ _ => Nat.zero_le _) (mem_range.2 ht)
  rwa [FileState.tableSlots, hfreed] at hle

theorem holders_pos_of_slot {t i f : Nat} (ht : t < s.tables) (hfreed : s.freed t = false)
    (hi : i < (s.table t).length) (he : (s.table t).entries i = some f) : 0 < s.holders f := by
  have hheld := held_pos hi he
  have hslots : held (s.table t).entries (s.table t).length f ≤ s.slots f := slots_ge ht hfreed
  rw [FileState.holders]
  omega

theorem holders_pos_of_workDir {f : Nat} (hk : s.Live k) (he : (s.task k).wdNode = some f) :
    0 < s.holders f := by
  have hwork : s.workDir k = some f := by
    rw [FileState.workDir, hk.2]
    exact he
  have hheld := held_pos hk.1 hwork
  rw [FileState.holders]
  omega

theorem spawn (h : FilesExact s) (hk : s.Live k) (junk : Nat → Option Nat) :
    FilesExact (spawnProc s k junk) := by
  obtain ⟨hlt, hfreed, _⟩ := h.table_of_live hk
  have hslots : ∀ f, (spawnProc s k junk).slots f = s.slots f +
      held (s.table (s.task k).fds).entries (s.table (s.task k).fds).length f := by
    intro f
    show ∑ t ∈ range (s.tables + 1), (spawnProc s k junk).tableSlots f t = _
    rw [sum_range_succ]
    congr 1
    · apply sum_range_same
      intro t ht
      simp [FileState.tableSlots, spawnProc, Nat.ne_of_lt ht]
    · have hnew : (spawnProc s k junk).tableSlots f s.tables =
          held (fun i => if i < (s.table (s.task k).fds).length then
            (s.table (s.task k).fds).entries i else junk i)
            (s.table (s.task k).fds).length f := by
        simp [FileState.tableSlots, spawnProc]
      rw [hnew]
      exact held_congr fun i hi => if_pos hi
  have hwork : ∀ f, held (spawnProc s k junk).workDir (spawnProc s k junk).tasks f =
      held s.workDir s.tasks f + if (s.task k).wdNode = some f then 1 else 0 := by
    intro f
    show held (spawnProc s k junk).workDir (s.tasks + 1) f = _
    rw [held_succ]
    congr 1
    · apply held_congr
      intro i hi
      simp [FileState.workDir, spawnProc, Nat.ne_of_lt hi]
    · simp [FileState.workDir, spawnProc]
  have husers : ∀ t, (spawnProc s k junk).users t = s.users t + if s.tables = t then 1 else 0 := by
    intro t
    show held (spawnProc s k junk).usedTable (s.tasks + 1) t = _
    rw [held_succ]
    congr 1
    · apply held_congr
      intro i hi
      simp [FileState.usedTable, spawnProc, Nat.ne_of_lt hi]
    · simp [FileState.usedTable, spawnProc]
  have hunused : s.users s.tables = 0 := by
    apply held_eq_zero
    intro i hi hused
    rw [FileState.usedTable] at hused
    split at hused
    · cases hused
    · next hlive =>
      have hlt' := h.allocated i ⟨hi, by simpa using hlive⟩
      rw [Option.some.inj hused] at hlt'
      exact Nat.lt_irrefl _ hlt'
  have hcloned := cloneEntries_exact h.files (n := (s.table (s.task k).fds).length)
    fun i f hi he => holders_pos_of_slot hlt hfreed hi he
  have hfiles := fsClone_exact hcloned (s.task k).wdNode fun f hf =>
    Nat.lt_of_lt_of_le (holders_pos_of_workDir hk hf) (Nat.le_add_right _ _)
  constructor
  · apply hfiles.congr
    intro f _
    rw [FileState.holders, FileState.holders, hslots f, hwork f]
    omega
  · intro t ht hfr
    rw [husers t]
    by_cases hnew : s.tables = t
    · simp [spawnProc, hnew, ← hunused]
    · have htn : t ≠ s.tables := Ne.symm hnew
      have hold : t < s.tables := by
        have hlt' : t < s.tables + 1 := ht
        omega
      have hfr' : s.freed t = false := by simpa [spawnProc, htn] using hfr
      simpa [spawnProc, htn, hnew] using h.refs t hold hfr'
  · intro t ht hfr
    have htn : t ≠ s.tables := by
      rintro rfl
      simp [spawnProc] at hfr
    have hold : t < s.tables := by
      have hlt' : t < s.tables + 1 := ht
      omega
    have hfr' : s.freed t = true := by simpa [spawnProc, htn] using hfr
    rw [husers t, if_neg (Ne.symm htn), h.freed t hold hfr']
  · intro j hj
    obtain ⟨hjlt, hjlive⟩ := hj
    by_cases hjn : j = s.tasks
    · simp [spawnProc, hjn]
    · have hold : j < s.tasks := by
        have hlt' : j < s.tasks + 1 := hjlt
        omega
      have hlive : s.Live j := ⟨hold, by simpa [spawnProc, hjn] using hjlive⟩
      have hfds := h.allocated j hlive
      simp [spawnProc, hjn]
      omega

theorem firstGap_some {t : FdTable} {i : Nat} (h : firstGap t = some i) :
    i < t.length ∧ t.entries i = none := by
  have hmem := List.mem_of_find?_eq_some h
  have hnone := List.find?_some h
  exact ⟨List.mem_range.1 hmem, by simpa using hnone⟩

theorem slots_update {s' : FileState} {t f : Nat} (ht : t < s.tables)
    (htables : s'.tables = s.tables) (hfreed : s'.freed = s.freed) (halive : s.freed t = false)
    (hother : ∀ i, i ≠ t → s'.table i = s.table i) :
    s'.slots f + held (s.table t).entries (s.table t).length f =
      s.slots f + held (s'.table t).entries (s'.table t).length f := by
  have hchange := sum_range_change (s.tableSlots f) (s'.tableSlots f) ht fun i hi => by
    simp [FileState.tableSlots, hfreed, hother i hi]
  simpa [FileState.slots, FileState.tableSlots, htables, hfreed, halive] using hchange

theorem of_sameTasks (h : FilesExact s) {s' : FileState} (hfiles : s'.files.Exact s'.holders)
    (htask : s'.task = s.task) (htasks : s'.tasks = s.tasks) (htables : s'.tables = s.tables)
    (hfreed : s'.freed = s.freed) (hrefs : ∀ t, (s'.table t).refs = (s.table t).refs) :
    FilesExact s' := by
  have husers : ∀ t, s'.users t = s.users t := by
    intro t
    simp only [FileState.users, htasks]
    exact held_congr fun i _ => by simp [FileState.usedTable, htask]
  constructor
  · exact hfiles
  · intro t ht hfr
    rw [hrefs t, husers t]
    exact h.refs t (htables ▸ ht) (hfreed ▸ hfr)
  · intro t ht hfr
    rw [husers t]
    exact h.freed t (htables ▸ ht) (hfreed ▸ hfr)
  · intro j hj
    rw [htask, htables]
    exact h.allocated j ⟨htasks ▸ hj.1, htask ▸ hj.2⟩

theorem holders_update {s' : FileState} {t f : Nat} (ht : t < s.tables)
    (htask : s'.task = s.task) (htasks : s'.tasks = s.tasks) (htables : s'.tables = s.tables)
    (hfreed : s'.freed = s.freed) (halive : s.freed t = false)
    (hother : ∀ i, i ≠ t → s'.table i = s.table i) :
    s'.holders f + held (s.table t).entries (s.table t).length f =
      s.holders f + held (s'.table t).entries (s'.table t).length f := by
  have hslots := slots_update (f := f) ht htables hfreed halive hother
  have hwork : held s'.workDir s'.tasks f = held s.workDir s.tasks f := by
    rw [htasks]
    exact held_congr fun i _ => by simp [FileState.workDir, htask]
  rw [FileState.holders, FileState.holders, hwork]
  omega

theorem held_appendEntry (t : FdTable) (node : Nat) (junk : Nat → Option Nat) (g : Nat) :
    held (appendEntry t node junk).entries (appendEntry t node junk).length g =
      held t.entries t.length g + if node = g then 1 else 0 := by
  unfold appendEntry
  cases hgap : firstGap t with
  | some i =>
    obtain ⟨hi, hnone⟩ := firstGap_some hgap
    have hupdate : held (Function.update t.entries i (some node)) t.length g + _ = _ :=
      held_update hi (some node)
    rw [hnone] at hupdate
    simpa using hupdate
  | none =>
    have hgrow : ∀ u : FdTable, u.length = t.length →
        (∀ i, i < t.length → u.entries i = t.entries i) →
        held (Function.update u.entries u.length (some node)) (u.length + 1) g =
          held t.entries t.length g + if node = g then 1 else 0 := by
      intro u hlen hsame
      rw [held_succ, hlen, Function.update_self]
      congr 1
      · apply held_congr
        intro i hi
        rw [Function.update_of_ne (Nat.ne_of_lt hi), hsame i hi]
      · simp
    apply hgrow
    · split <;> rfl
    · intro i hi
      split
      · next hfull => exact if_pos (hfull ▸ hi)
      · rfl

theorem appendEntry_refs (t : FdTable) (node : Nat) (junk : Nat → Option Nat) :
    (appendEntry t node junk).refs = t.refs := by
  unfold appendEntry
  split
  · rfl
  · simp only []
    split <;> rfl

theorem append (h : FilesExact s) (hk : s.Live k) {node : Nat} (hnode : s.files.isOpen node = false)
    (static : Bool) (junk : Nat → Option Nat) :
    FilesExact (taskAppendFd (openFile s node static) k node junk) := by
  obtain ⟨hlt, hfreed, _⟩ := h.table_of_live hk
  let s' := taskAppendFd (openFile s node static) k node junk
  have hother : ∀ i, i ≠ (s.task k).fds → s'.table i = s.table i := fun i hi =>
    Function.update_of_ne hi _ _
  have hself : s'.table (s.task k).fds = appendEntry (s.table (s.task k).fds) node junk :=
    Function.update_self _ _ _
  have hholders : ∀ g, s'.holders g = s.holders g + if node = g then 1 else 0 := by
    intro g
    have hupdate := holders_update (f := g) hlt (rfl : s'.task = s.task) rfl rfl rfl hfreed hother
    rw [hself, held_appendEntry] at hupdate
    omega
  have hzero : s.holders node = 0 := by
    rcases h.files node with ⟨_, hopen⟩ | ⟨_, hopen⟩
    · rw [hnode] at hopen
      cases hopen
    · rw [hnode] at hopen
      simpa using hopen
  have hfiles : s'.files.Exact s'.holders := by
    intro g
    rw [hholders g]
    by_cases hg : g = node
    · subst hg
      cases static
      · right
        simp [s', taskAppendFd, openFile, hzero]
      · left
        simp [s', taskAppendFd, openFile]
    · simpa [s', taskAppendFd, openFile, hg, Ne.symm hg] using h.files g
  have hrefs : ∀ t, (s'.table t).refs = (s.table t).refs := by
    intro t
    by_cases ht : t = (s.task k).fds
    · rw [ht, hself, appendEntry_refs]
    · rw [hother t ht]
  exact h.of_sameTasks hfiles rfl rfl rfl rfl hrefs

theorem move (h : FilesExact s) (hk : s.Live k) {src dest : Int}
    (hbound : sizeT src ≤ (s.table (s.task k).fds).length →
      sizeT dest ≤ (s.table (s.task k).fds).length →
      sizeT src < (s.table (s.task k).fds).length ∧
        sizeT dest < (s.table (s.task k).fds).length) :
    FilesExact (processMoveFd s k src dest) := by
  obtain ⟨hlt, hfreed, _⟩ := h.table_of_live hk
  set t := s.table (s.task k).fds with ht
  by_cases hout : t.length < sizeT src ∨ t.length < sizeT dest
  · have hsame : processMoveFd s k src dest = s := if_pos hout
    rwa [hsame]
  have hin : sizeT src < t.length ∧ sizeT dest < t.length := by
    rw [not_or] at hout
    exact hbound (by omega) (by omega)
  by_cases heq : t.entries (sizeT dest) = t.entries (sizeT src)
  · have hsame : processMoveFd s k src dest = s := (if_neg hout).trans (if_pos heq)
    rwa [hsame]
  let t' : FdTable :=
    { t with entries := Function.update t.entries (sizeT dest) (t.entries (sizeT src)) }
  let s' : FileState :=
    { s with
      files := fopen (fclose s.files (t.entries (sizeT dest))) (t.entries (sizeT src))
      table := Function.update s.table (s.task k).fds t' }
  have hrun : processMoveFd s k src dest = s' := (if_neg hout).trans (if_neg heq)
  rw [hrun]
  have hself : s'.table (s.task k).fds = t' := Function.update_self _ _ _
  have hother : ∀ i, i ≠ (s.task k).fds → s'.table i = s.table i := fun i hi =>
    Function.update_of_ne hi _ _
  have hholders : ∀ g, s'.holders g + (if t.entries (sizeT dest) = some g then 1 else 0) =
      s.holders g + if t.entries (sizeT src) = some g then 1 else 0 := by
    intro g
    have hupdate := holders_update (f := g) hlt (rfl : s'.task = s.task) rfl rfl rfl hfreed hother
    have hheld : held t'.entries t.length g + _ = _ := held_update hin.2 (t.entries (sizeT src))
    have hlen : t'.length = t.length := rfl
    rw [hself, ← ht, hlen] at hupdate
    omega
  have hpos : ∀ i f, i < t.length → t.entries i = some f → 0 < s.holders f := fun i f hi he =>
    holders_pos_of_slot hlt hfreed hi he
  let h₁ : Nat → Nat := fun g =>
    s.holders g - if t.entries (sizeT dest) = some g then 1 else 0
  have hclosed : (fclose s.files (t.entries (sizeT dest))).Exact h₁ := by
    apply fclose_exact h.files
    intro g
    by_cases hg : t.entries (sizeT dest) = some g
    · have hheld := hpos _ g hin.2 hg
      simp only [h₁, if_pos hg]
      omega
    · simp [h₁, hg]
  have hopened : (fopen (fclose s.files (t.entries (sizeT dest))) (t.entries (sizeT src))).Exact
      fun g => h₁ g + if t.entries (sizeT src) = some g then 1 else 0 := by
    apply fsClone_exact hclosed
    intro f hf
    have hne : t.entries (sizeT dest) ≠ some f := fun he => heq (he.trans hf.symm)
    simpa [h₁, hne] using hpos _ f hin.1 hf
  have hfiles : s'.files.Exact s'.holders := by
    apply hopened.congr
    intro g _
    have hg := hholders g
    by_cases hd : t.entries (sizeT dest) = some g
    · have hheld := hpos _ g hin.2 hd
      simp only [h₁, if_pos hd] at hg ⊢
      omega
    · simp only [h₁, if_neg hd] at hg ⊢
      omega
  have hrefs : ∀ i, (s'.table i).refs = (s.table i).refs := by
    intro i
    by_cases hi : i = (s.task k).fds
    · rw [hi, hself]
    · rw [hother i hi]
  exact h.of_sameTasks hfiles rfl rfl rfl rfl hrefs

theorem free (h : FilesExact s) (hk : s.Live k)
    (hwd : ∀ f, (s.task k).wdNode = some f → s.files.count f = -1) :
    FilesExact (taskFree s k) := by
  obtain ⟨hlt, hfreed, hrefs⟩ := h.table_of_live hk
  let s₁ : FileState :=
    { s with
      task := Function.update s.task k { s.task k with finished := true }
      table := Function.update s.table (s.task k).fds
        { s.table (s.task k).fds with refs := (s.table (s.task k).fds).refs - 1 } }
  have hlive₁ : ∀ j, s₁.Live j → j ≠ k ∧ s.Live j := by
    intro j hj
    have hjk : j ≠ k := by
      rintro rfl
      have hfin := hj.2
      simp [s₁] at hfin
    have hfin := hj.2
    simp only [s₁, Function.update_of_ne hjk] at hfin
    exact ⟨hjk, hj.1, hfin⟩
  have hwork : ∀ f, s.files.count f ≠ -1 →
      held s₁.workDir s₁.tasks f = held s.workDir s.tasks f := by
    intro f hf
    have hcells : s₁.workDir = Function.update s.workDir k none := by
      funext j
      by_cases hj : j = k <;> simp [FileState.workDir, s₁, hj]
    have hupdate : held (Function.update s.workDir k none) s.tasks f + _ = _ :=
      held_update hk.1 none
    have hnot : s.workDir k ≠ some f := by
      intro he
      rw [FileState.workDir, hk.2] at he
      exact hf (hwd f he)
    rw [if_neg hnot, ← hcells] at hupdate
    simpa using hupdate
  have husers : ∀ t, s₁.users t + (if (s.task k).fds = t then 1 else 0) = s.users t := by
    intro t
    have hcells : s₁.usedTable = Function.update s.usedTable k none := by
      funext j
      by_cases hj : j = k <;> simp [FileState.usedTable, s₁, hj]
    have hupdate : held (Function.update s.usedTable k none) s.tasks t + _ = _ :=
      held_update hk.1 none
    rw [← hcells] at hupdate
    simpa [FileState.usedTable, hk.2, FileState.users, s₁] using hupdate
  have hother : ∀ i, i ≠ (s.task k).fds → s₁.table i = s.table i := fun i hi =>
    Function.update_of_ne hi _ _
  have hself : s₁.table (s.task k).fds =
      { s.table (s.task k).fds with refs := (s.table (s.task k).fds).refs - 1 } :=
    Function.update_self _ _ _
  have hown := husers (s.task k).fds
  rw [if_pos rfl] at hown
  by_cases hlast : (s.table (s.task k).fds).refs - 1 = 0
  · let s₂ : FileState :=
      { s₁ with
        files := closeEntries (s.table (s.task k).fds).entries s.files
          (s.table (s.task k).fds).length
        freed := Function.update s.freed (s.task k).fds true }
    have hrun : taskFree s k = s₂ := if_pos hlast
    rw [hrun]
    have hslots : ∀ f, s₂.slots f + held (s.table (s.task k).fds).entries
        (s.table (s.task k).fds).length f = s.slots f := by
      intro f
      have hchange := sum_range_change (s.tableSlots f) (s₂.tableSlots f) hlt fun i hi => by
        simp [FileState.tableSlots, s₂, hi, hother i hi]
      simpa [FileState.slots, FileState.tableSlots, s₂, hfreed] using hchange
    constructor
    · have hclosed : s₂.files.Exact fun f => s₂.slots f + held s.workDir s.tasks f := by
        apply closeEntries_exact h.files
        intro f
        have hf := hslots f
        rw [FileState.holders]
        omega
      apply hclosed.congr
      intro f hf
      have hcounted : s.files.count f ≠ -1 := fun hs => hf (closeEntries_static hs)
      rw [FileState.holders, ← hwork f hcounted]
      rfl
    · intro t ht hfr
      have htk : t ≠ (s.task k).fds := by
        rintro rfl
        simp [s₂] at hfr
      have ht' := husers t
      rw [if_neg (Ne.symm htk), Nat.add_zero] at ht'
      have hfr' : s.freed t = false := by simpa [s₂, htk] using hfr
      have hold := h.refs t ht hfr'
      show (s₁.table t).refs = s₁.users t ∧ 0 < s₁.users t
      rwa [hother t htk, ht']
    · intro t ht hfr
      have ht' := husers t
      show s₁.users t = 0
      by_cases htk : t = (s.task k).fds
      · subst htk
        omega
      · rw [if_neg (Ne.symm htk), Nat.add_zero] at ht'
        have hfr' : s.freed t = true := by simpa [s₂, htk] using hfr
        rw [ht', h.freed t ht hfr']
    · intro j hj
      obtain ⟨hjk, hold⟩ := hlive₁ j hj
      show (s₁.task j).fds < s.tables
      simpa [s₁, hjk] using h.allocated j hold
  · have hrun : taskFree s k = s₁ := if_neg hlast
    rw [hrun]
    constructor
    · apply h.files.congr
      intro f hf
      have hslots : s₁.slots f = s.slots f := by
        apply sum_range_same
        intro t _
        by_cases ht : t = (s.task k).fds
        · rw [FileState.tableSlots, FileState.tableSlots, ht, hself]
        · rw [FileState.tableSlots, FileState.tableSlots, hother t ht]
      rw [FileState.holders, FileState.holders, hslots, hwork f hf]
    · intro t ht hfr
      have ht' := husers t
      have hold := h.refs t ht hfr
      by_cases htk : t = (s.task k).fds
      · subst htk
        rw [hself]
        show (s.table (s.task k).fds).refs - 1 = _ ∧ _
        omega
      · rw [if_neg (Ne.symm htk), Nat.add_zero] at ht'
        rwa [hother t htk, ht']
    · intro t ht hfr
      have ht' := husers t
      have hold := h.freed t ht hfr
      omega
    · intro j hj
      obtain ⟨hjk, hold⟩ := hlive₁ j hj
      show (s₁.task j).fds < s.tables
      simpa [s₁, hjk] using h.allocated j hold

theorem clone (h : FilesExact s) (hk : s.Live k) (junk : Nat → Option Nat)
    (hfds : ∀ i f, i < (s.table (s.task k).fds).length →
      (s.table (s.task k).fds).entries i = some f → s.files.count f = -1) :
    FilesExact (taskClone s k junk) := by
  obtain ⟨hlt, hfreed, _⟩ := h.table_of_live hk
  have h₁ := h.spawn hk junk
  set s₁ := spawnProc s k junk with hs₁
  have hks : k ≠ s.tasks := Nat.ne_of_lt hk.1
  have hfds₁ : (s₁.task k).fds = (s.task k).fds := by simp [hs₁, spawnProc, hks]
  have hne : s.tables ≠ (s.task k).fds := Ne.symm (Nat.ne_of_lt hlt)
  let s' : FileState :=
    { s₁ with
      freed := Function.update s₁.freed s.tables true
      task := Function.update s₁.task s.tasks
        { s₁.task s.tasks with fds := (s.task k).fds }
      table := Function.update s₁.table (s.task k).fds
        { s₁.table (s.task k).fds with refs := (s₁.table (s.task k).fds).refs + 1 } }
  have hrun : taskClone s k junk = s' := by
    simp only [taskClone, ← hs₁, hfds₁]
    rfl
  rw [hrun]
  have hslots : ∀ f, s₁.files.count f ≠ -1 → s'.slots f = s₁.slots f := by
    intro f hf
    have hzero : held (s₁.table s.tables).entries (s₁.table s.tables).length f = 0 := by
      apply held_eq_zero
      intro i hi he
      simp only [hs₁, spawnProc, Function.update_self] at hi he
      rw [if_pos hi] at he
      exact hf (fsClone_static _ (cloneEntries_static (hfds i f hi he)))
    have hchange := sum_range_change (s₁.tableSlots f) (s'.tableSlots f)
      (Nat.lt_succ_self s.tables) fun i hi => by
        by_cases hi' : i = (s.task k).fds <;>
          simp [FileState.tableSlots, s', hi, hi', Ne.symm hne]
    have hgone : s'.tableSlots f s.tables = 0 := by
      simp [FileState.tableSlots, s']
    have hnew : s₁.tableSlots f s.tables = 0 := by
      rw [FileState.tableSlots, hzero]
      split <;> rfl
    rw [hgone, hnew] at hchange
    exact hchange
  have husers : ∀ t, s'.users t + (if s.tables = t then 1 else 0) =
      s₁.users t + if (s.task k).fds = t then 1 else 0 := by
    intro t
    have hnew : s.tasks < s₁.tasks := Nat.lt_succ_self _
    have hcells : s'.usedTable = Function.update s₁.usedTable s.tasks (some (s.task k).fds) := by
      funext j
      by_cases hj : j = s.tasks
      · simp [FileState.usedTable, s', hj, hs₁, spawnProc]
      · simp [FileState.usedTable, s', hj]
    have hold : s₁.usedTable s.tasks = some s.tables := by
      simp [FileState.usedTable, hs₁, spawnProc]
    have hupdate : held (Function.update s₁.usedTable s.tasks (some (s.task k).fds)) s₁.tasks t
        + _ = _ := held_update hnew _
    rw [← hcells, hold] at hupdate
    simpa [FileState.users] using hupdate
  have hwork : ∀ f, held s'.workDir s'.tasks f = held s₁.workDir s₁.tasks f := by
    intro f
    apply held_congr
    intro j _
    by_cases hj : j = s.tasks <;> simp [FileState.workDir, s', hj]
  have hnewTable : s.tables < s₁.tables := Nat.lt_succ_self _
  have hnewFreed : s₁.freed s.tables = false := by simp [hs₁, spawnProc]
  have hnewRefs : (s₁.table s.tables).refs = 1 := by simp [hs₁, spawnProc]
  have hnewUsers := (h₁.refs s.tables hnewTable hnewFreed).1
  rw [hnewRefs] at hnewUsers
  constructor
  · apply h₁.files.congr
    intro f hf
    rw [FileState.holders, FileState.holders, hslots f hf, hwork f]
  · intro t ht hfr
    have htn : t ≠ s.tables := by
      rintro rfl
      simp [s'] at hfr
    have hfr₁ : s₁.freed t = false := by simpa [s', htn] using hfr
    have hold := h₁.refs t ht hfr₁
    have ht' := husers t
    rw [if_neg (Ne.symm htn), Nat.add_zero] at ht'
    by_cases htk : t = (s.task k).fds
    · subst htk
      rw [if_pos rfl] at ht'
      have hself : (s'.table (s.task k).fds).refs = (s₁.table (s.task k).fds).refs + 1 := by
        simp [s']
      rw [hself]
      omega
    · rw [if_neg (Ne.symm htk), Nat.add_zero] at ht'
      simpa [s', htk, ht'] using hold
  · intro t ht hfr
    have ht' := husers t
    by_cases htn : t = s.tables
    · subst htn
      rw [if_pos rfl, if_neg (Ne.symm hne)] at ht'
      omega
    · have hfr₁ : s₁.freed t = true := by simpa [s', htn] using hfr
      have hzero := h₁.freed t ht hfr₁
      have htk : t ≠ (s.task k).fds := by
        rintro rfl
        simp [hs₁, spawnProc, Ne.symm hne, hfreed] at hfr₁
      rw [if_neg (Ne.symm htn), if_neg (Ne.symm htk)] at ht'
      omega
  · intro j hj
    by_cases hjn : j = s.tasks
    · simp only [s', hjn, Function.update_self]
      exact Nat.lt_succ_of_lt hlt
    · have hlive : s₁.Live j := ⟨hj.1, by simpa [s', hjn] using hj.2⟩
      simpa [s', hjn] using h₁.allocated j hlive

end FilesExact

theorem spawnRootproc_exact (fsRoot : Option Nat) : FilesExact (spawnRootproc fsRoot) := by
  have hslots : ∀ f, (spawnRootproc fsRoot).slots f = 0 := fun f => rfl
  have hwork : ∀ f, held (spawnRootproc fsRoot).workDir (spawnRootproc fsRoot).tasks f =
      if fsRoot = some f then 1 else 0 := fun f => by
    simp [held, spawnRootproc, FileState.workDir]
  have husers : (spawnRootproc fsRoot).users 0 = 1 := rfl
  constructor
  · intro f
    rw [FileState.holders, hslots f, hwork f]
    by_cases hf : fsRoot = some f
    · left
      simp [spawnRootproc, hf]
    · right
      simp [spawnRootproc, hf]
  · intro t ht _
    have ht0 : t = 0 := Nat.lt_one_iff.1 ht
    rw [ht0, husers]
    exact ⟨rfl, Nat.one_pos⟩
  · intro t _ hfr
    cases hfr
  · intro k _
    exact Nat.one_pos

/-- The operation gives back every reference it takes: a task that is cloned has no counted file
open, a task that is freed has no counted working directory, and both descriptors to move are in
the table (or one is clearly outside). -/
def FileOp.Balanced (s : FileState) : FileOp → Prop
  | clone k _ => ∀ i f, i < (s.table (s.task k).fds).length →
      (s.table (s.task k).fds).entries i = some f → s.files.count f = -1
  | free k => ∀ f, (s.task k).wdNode = some f → s.files.count f = -1
  | move k src dest => sizeT src ≤ (s.table (s.task k).fds).length →
      sizeT dest ≤ (s.table (s.task k).fds).length →
      sizeT src < (s.table (s.task k).fds).length ∧ sizeT dest < (s.table (s.task k).fds).length
  | _ => True

def FileStep (s s' : FileState) : Prop := ∃ op : FileOp, op.Enabled s ∧ s' = op.run s

/-- An operation that can happen and meets the condition. -/
def BalancedStep (s s' : FileState) : Prop :=
  ∃ op : FileOp, op.Enabled s ∧ op.Balanced s ∧ s' = op.run s

theorem FilesExact.step {s s' : FileState} (h : FilesExact s) (hstep : BalancedStep s s') :
    FilesExact s' := by
  obtain ⟨op, ⟨hlive, hfresh⟩, hbalanced, rfl⟩ := hstep
  cases op with
  | spawn k junk => exact h.spawn hlive junk
  | clone k junk => exact h.clone hlive junk hbalanced
  | append k node static junk =>
    exact h.append hlive (hfresh k node static junk rfl) static junk
  | move k src dest => exact h.move hlive hbalanced
  | free k => exact h.free hlive hbalanced

/-- In every run of balanced operations every state reached has exact counts. -/
theorem filesExact_of_run (fsRoot : Option Nat) {s : FileState}
    (h : Relation.ReflTransGen BalancedStep (spawnRootproc fsRoot) s) : FilesExact s := by
  induction h with
  | refl => exact spawnRootproc_exact fsRoot
  | tail _ hstep ih => exact ih.step hstep

def rootWithFile : FileState :=
  (FileOp.append 0 5 false fun _ => none).run (spawnRootproc none)

private theorem rootWithFile_enabled :
    (FileOp.append 0 5 false fun _ => none).Enabled (spawnRootproc none) := by
  refine ⟨by decide, ?_⟩
  intro k f b j he
  injection he with _ hf
  subst hf
  rfl

/-- The root task forks and the child exits: the file stays open, held once. -/
theorem filesExact_of_fork_exit :
    FilesExact (taskFree (spawnProc rootWithFile 0 fun _ => none) 1) := by
  have hopen : BalancedStep (spawnRootproc none) rootWithFile :=
    ⟨_, rootWithFile_enabled, trivial, rfl⟩
  have hspawn : BalancedStep rootWithFile (spawnProc rootWithFile 0 fun _ => none) :=
    ⟨.spawn 0 fun _ => none, ⟨by decide, fun _ _ _ _ he => by cases he⟩, trivial, rfl⟩
  have hfree : BalancedStep (spawnProc rootWithFile 0 fun _ => none)
      (taskFree (spawnProc rootWithFile 0 fun _ => none) 1) :=
    ⟨.free 1, ⟨by decide, fun _ _ _ _ he => by cases he⟩, (fun f hf => by cases hf), rfl⟩
  exact filesExact_of_run none (((Relation.ReflTransGen.single hopen).tail hspawn).tail hfree)

/-- A task with one open file clones itself: the file's count is 2, but one slot holds it. -/
theorem filesExact_fails_after_clone :
    ¬ ∀ s, Relation.ReflTransGen FileStep (spawnRootproc none) s → FilesExact s := by
  intro h
  have hopen : FileStep (spawnRootproc none) rootWithFile := ⟨_, rootWithFile_enabled, rfl⟩
  have hclone : FileStep rootWithFile (taskClone rootWithFile 0 fun _ => none) :=
    ⟨.clone 0 fun _ => none, ⟨by decide, fun _ _ _ _ he => by cases he⟩, rfl⟩
  have hcount : (taskClone rootWithFile 0 fun _ => none).files.count 5 = 2 := by decide
  have hholders : (taskClone rootWithFile 0 fun _ => none).holders 5 = 1 := by decide
  have hfile := (h _ ((Relation.ReflTransGen.single hopen).tail hclone)).files 5
  rw [hcount, hholders] at hfile
  omega

end KernelTest.Task
