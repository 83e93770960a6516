import KernelTest.Framework.Exec
import KernelTest.Libc.HashmapChains

/-!
# Loading the kernel modules

While `modules_load` runs the `init` functions of the modules, these call `module_schedule` to have
a function run right after another module is initialised, or after the last one. The functions are
kept in hash maps under keys made from a name and a counter.
-/

namespace KernelTest.Boot

open Libc

inductive ScheduleMode
  | quick
  | late
  /-- Any other value of the `char`. -/
  | unknown
  deriving DecidableEq, Repr

/-- A call of `module_schedule`. -/
structure ScheduleCall where
  mode : ScheduleMode
  funcName : CText
  address : Nat

/-- What `modules_load` finds in the ramdisk: a file it does not run, or a module with the name of
its entry and the calls its `init` makes. -/
inductive ModuleFile
  | skipped
  | module (name : CText) (init : List ScheduleCall)

/-- `mod_sched_quick`, `mod_sched_last` and the two counters. -/
structure Schedules where
  quick : Hashmap Block
  last : Hashmap Block
  modulesScheduled : Nat
  modulesQuickScheduled : Nat

/-- `%d` of a number that is not negative. -/
def decimal (n : Nat) : List UInt8 := (Nat.toDigits 10 n).map fun c => UInt8.ofNat c.toNat

/-- The text of `"%s_%d"`. -/
def keyText (name : List UInt8) (n : Nat) : List UInt8 := name ++ 95 :: decimal n

/-- `sprintf` of a text into an array of `size` bytes. -/
def sprintf (junk : Nat → UInt8) (size : Nat) (text : List UInt8) : Except Fault Block :=
  if text.length < size then
    .ok (text ++ 0 :: (malloc junk size).drop (text.length + 1))
  else
    .error .overrun

/-- `n++` of an `int`. -/
def increment (n : Nat) : Except Fault Nat := if n + 1 < 2 ^ 31 then .ok (n + 1) else .error .overrun

/-- `module_schedule`, while modules are loading. -/
def moduleSchedule (junk : Nat → UInt8) (st : Schedules) (call : ScheduleCall) :
    Except Fault Schedules :=
  match call.mode with
  | .quick => do
    let next ← increment st.modulesQuickScheduled
    let schedKey ← sprintf junk 32 (keyText call.funcName.1 st.modulesQuickScheduled)
    let (_, quick) ← hashmapSet st.quick schedKey call.address
    let (_, quick) ← hashmapSet quick (call.funcName.1 ++ [0]) 0
    .ok { st with quick := quick, modulesQuickScheduled := next }
  | .late => do
    let next ← increment st.modulesScheduled
    let schedKey ← sprintf junk 5 (decimal st.modulesScheduled)
    let (_, last) ← hashmapSet st.last schedKey call.address
    .ok { st with last := last, modulesScheduled := next }
  | .unknown => .ok st

/-- The calls that one `init` makes. -/
def runInit (junk : Nat → UInt8) : Schedules → List ScheduleCall → Except Fault Schedules
  | st, [] => .ok st
  | st, call :: calls => do
    let st ← moduleSchedule junk st call
    runInit junk st calls

/-- `for(int i = 0; ; i++)` over the functions scheduled for `name`, at most `fuel` rounds: the
functions called, and the map afterwards. -/
def runScheduled (junk : Nat → UInt8) (name : List UInt8) :
    Nat → Nat → Hashmap Block → Except Fault (List Nat × Hashmap Block)
  | 0, _, _ => .error .diverged
  | fuel + 1, i, quick => do
    let schedKey ← sprintf junk 32 (keyText name i)
    if ← hashmapHas quick schedKey then
      let address ← hashmapGet quick schedKey
      let (_, quick) ← hashmapRemove quick schedKey
      let (called, quick) ← runScheduled junk name fuel (i + 1) quick
      .ok (address :: called, quick)
    else
      .ok ([], quick)

/-- What `modules_load` does with a module that has an `init`: the functions called after it. Each
round of the loop takes away one of the keys that were made. -/
def loadModule (junk : Nat → UInt8) (st : Schedules) (name : CText) (init : List ScheduleCall) :
    Except Fault (List Nat × Schedules) := do
  let st ← runInit junk st init
  if ← hashmapHas st.quick (name.1 ++ [0]) then
    let (called, quick) ←
      runScheduled junk name.1 (st.modulesQuickScheduled + 1) 0 st.quick
    let (_, quick) ← hashmapRemove quick (name.1 ++ [0])
    .ok (called, { st with quick := quick })
  else
    .ok ([], st)

/-- The loop over the files: the modules in order, each with the functions called after it. -/
def loadModules (junk : Nat → UInt8) :
    Schedules → List ModuleFile → Except Fault (List (CText × List Nat) × Schedules)
  | st, [] => .ok ([], st)
  | st, .skipped :: files => loadModules junk st files
  | st, .module name init :: files => do
    let (called, st) ← loadModule junk st name init
    let (rest, st) ← loadModules junk st files
    .ok ((name, called) :: rest, st)

/-- `modules_load`: what is called after each module, and what is called after the last one. -/
def modulesLoad (junk : Nat → UInt8) (files : List ModuleFile) :
    Except Fault (List (CText × List Nat) × List Nat) := do
  let st : Schedules :=
    { quick := hashmapCreate junk 1, last := hashmapCreate junk 1, modulesScheduled := 0,
      modulesQuickScheduled := 0 }
  let (called, st) ← loadModules junk st files
  let size ← hashmapSize st.last
  let late ← (List.range size).mapM (hashmapGetI st.last)
  .ok (called, late)

/-- A function scheduled with `MODULE_SCHED_QUICK`, and the number its key is made with. -/
structure Scheduled where
  number : Nat
  name : CText
  address : Nat

/-- The quick calls of an `init`, numbered from `n` on. -/
def quickCalls : Nat → List ScheduleCall → List Scheduled
  | _, [] => []
  | n, call :: calls =>
    match call.mode with
    | .quick => ⟨n, call.funcName, call.address⟩ :: quickCalls (n + 1) calls
    | _ => quickCalls n calls

/-- The functions an `init` schedules with `MODULE_SCHED_LATE`. -/
def lateCalls : List ScheduleCall → List Nat
  | [] => []
  | call :: calls =>
    match call.mode with
    | .late => call.address :: lateCalls calls
    | _ => lateCalls calls

/-- The functions that are due after each module: those scheduled for its name so far and not due
before. `n` calls have been made, and `pending` are still to come. -/
def dueCalls : Nat → List Scheduled → List ModuleFile → List (CText × List Scheduled)
  | _, _, [] => []
  | n, pending, .skipped :: files => dueCalls n pending files
  | n, pending, .module name init :: files =>
    let made := quickCalls n init
    let pending := pending ++ made
    (name, pending.filter fun s => s.name = name) ::
      dueCalls (n + made.length) (pending.filter fun s => s.name ≠ name) files

def lateOf : List ModuleFile → List Nat
  | [] => []
  | .skipped :: files => lateOf files
  | .module _ init :: files => lateCalls init ++ lateOf files

def quickOf : Nat → List ModuleFile → List Scheduled
  | _, [] => []
  | n, .skipped :: files => quickOf n files
  | n, .module _ init :: files =>
    let made := quickCalls n init
    made ++ quickOf (n + made.length) files

/-- After each module exactly the functions due are called, once each, and after the last module
exactly the late ones. -/
def RunsScheduled (files : List ModuleFile) : Prop :=
  ∀ junk, ∃ called late, modulesLoad junk files = .ok (called, late) ∧
    List.Forall₂ (fun (c : CText × List Nat) (d : CText × List Scheduled) =>
      c.1 = d.1 ∧ c.2.Perm (d.2.map Scheduled.address)) called (dueCalls 0 [] files) ∧
    late.Perm (lateOf files)

end KernelTest.Boot
