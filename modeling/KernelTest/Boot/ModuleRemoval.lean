import KernelTest.Boot.ModuleSchedules
import KernelTest.Libc.ListCalls

/-!
# Adding and removing modules

`module_add` puts a module's functions into two maps under the module's name and stubs in their place. Removing
it by name brings them back. Removing it by index or by pointer takes it out of the list and does no more.
-/

namespace KernelTest.Boot

open Libc

/-- What a `modent_t` is linked with: its name and its functions, null if they are missing. -/
structure ModEnt where
  name : CText
  name_lt : name.1.length < 23
  init : Nat
  finit : Nat

/-- `char name[23]` -/
def ModEnt.nameField (e : ModEnt) : Block := e.name.1 ++ List.replicate (23 - e.name.1.length) 0

/-- What the module list is used with: the modules, the two stubs, what functions return, and what fresh memory
holds. -/
structure ModuleEnv (μ : Type) where
  ent : μ → ModEnt
  moduleInitCback : Nat
  moduleRemoverManager : Nat
  result : Nat → Int
  junk : Nat → UInt8

inductive ModuleFault
  | memory (fault : Fault)
  | list (fault : ListFault)
  /-- A null function pointer is called. -/
  | nullCall

def ofMemory {α : Type} (x : Except Fault α) : Except ModuleFault α := x.mapError .memory

def ofList {α : Type} (x : Except ListFault α) : Except ModuleFault α := x.mapError .list

/-- The fields of the modules, the globals of `module.cpp`, the node that the next insertion gets, and the
functions called so far. -/
structure ModuleList (μ : Type) where
  init : μ → Nat
  finit : μ → Nat
  lists : ListMem Nat Unit μ
  next : Nat
  modcount : Int
  modInitlist : Hashmap Block
  modQuitlist : Hashmap Block
  called : List Nat

/-- An argument of `module_remove`. -/
inductive Removal (μ : Type)
  | name (a : CText)
  | index (i : Int)
  | pointer (mod : μ)

namespace ModuleList

variable {μ : Type} [DecidableEq μ] (env : ModuleEnv μ)

/-- As `modules_load()` starts, with `n` modules to come. -/
def start (mem : ListMem Nat Unit μ) (n : Nat) : ModuleList μ where
  init mod := (env.ent mod).init
  finit mod := (env.ent mod).finit
  lists := listCreate mem ()
  next := 0
  modcount := 0
  modInitlist := hashmapCreate env.junk n
  modQuitlist := hashmapCreate env.junk n
  called := []

/-- The values in `modlist`. -/
def listed (s : ModuleList μ) : Except ListFault (List μ) :=
  (foreach s.lists ()).map (List.map s.lists.value)

/-- `module_exists(mod)` -/
def moduleExists (s : ModuleList μ) (mod : μ) : Except ListFault Bool :=
  (listFind s.lists () mod).map Option.isSome

def call (s : ModuleList μ) (address : Nat) : Except ModuleFault (ModuleList μ) :=
  if address = 0 then .error .nullCall else .ok { s with called := s.called ++ [address] }

/-- `mod->init = init; mod->finit = finit;` -/
def setCallbacks (s : ModuleList μ) (mod : μ) (init finit : Nat) : ModuleList μ :=
  { s with init := Function.update s.init mod init, finit := Function.update s.finit mod finit }

/-- The two `hashmap_set` of `module_add`. -/
def setMaps (s : ModuleList μ) (name : Block) (init finit : Nat) : Except Fault (ModuleList μ) := do
  let (_, modInitlist) ← hashmapSet s.modInitlist name init
  let (_, modQuitlist) ← hashmapSet s.modQuitlist name finit
  pure { s with modInitlist := modInitlist, modQuitlist := modQuitlist }

/-- The two `hashmap_remove` of `module_remove`. -/
def removeMaps (s : ModuleList μ) (name : Block) : Except Fault (ModuleList μ) := do
  let (_, modInitlist) ← hashmapRemove s.modInitlist name
  let (_, modQuitlist) ← hashmapRemove s.modQuitlist name
  pure { s with modInitlist := modInitlist, modQuitlist := modQuitlist }

/-- `list_insert(modlist, mod); modcount++;` -/
def insert (s : ModuleList μ) (mod : μ) : Except ListFault (ModuleList μ) := do
  let lists ← listInsert s.lists () s.next mod
  pure { s with lists := lists, next := s.next + 1, modcount := s.modcount + 1 }

/-- `list_remove(modlist, i); modcount--;` -/
def removeAt (s : ModuleList μ) (i : Nat) : Except ListFault (ModuleList μ) := do
  let lists ← listRemove s.lists () i
  pure { s with lists := lists, modcount := s.modcount - 1 }

/-- `if(run_module) ret = mod->init();` -/
def runInit (s : ModuleList μ) (mod : μ) (runModule : Bool) : Except ModuleFault (ModuleList μ × Int) :=
  if runModule then do
    let s' ← s.call (s.init mod)
    pure (s', env.result (s.init mod))
  else pure (s, -1)

/-- `module_add(mod, run_module)` -/
def moduleAdd (s : ModuleList μ) (mod : μ) (runModule : Bool) : Except ModuleFault (ModuleList μ × Int) := do
  if ← ofList (s.moduleExists mod) then pure (s, 0)
  else do
    let s ← ofMemory (s.setMaps (env.ent mod).nameField (s.init mod) (s.finit mod))
    let (s, ret) ← s.runInit env mod runModule
    let s ← ofList ((s.setCallbacks mod env.moduleInitCback env.moduleRemoverManager).insert mod)
    pure (s, ret)

/-- What `module_remove(modname)` does with the module that it finds. -/
def unload (s : ModuleList μ) (mod : μ) (modname : Block) (i : Nat) : Except ModuleFault (ModuleList μ) := do
  let initAddr ← ofMemory (hashmapGet s.modInitlist modname)
  let finitAddr ← ofMemory (hashmapGet s.modQuitlist modname)
  let s ← s.call finitAddr
  let s ← ofMemory ((s.setCallbacks mod initAddr finitAddr).removeMaps modname)
  ofList (s.removeAt i)

/-- The loop of `module_remove(modname)`. -/
def removeNamed (s : ModuleList μ) (modname : Block) : Nat → List Nat → Except ModuleFault (ModuleList μ × Nat)
  | _, [] => pure (s, 0)
  | i, n :: rest => do
    let mod := s.lists.value n
    let d ← ofMemory (strcmp (env.ent mod).nameField modname)
    if d = 0 then do
      let s ← s.unload mod modname i
      pure (s, 1)
    else s.removeNamed modname (i + 1) rest

/-- `module_remove` -/
def moduleRemove (s : ModuleList μ) : Removal μ → Except ModuleFault (ModuleList μ × Nat)
  | .name a => do
    let nodes ← ofList (foreach s.lists ())
    s.removeNamed env (a.1 ++ [0]) 0 nodes
  | .index i => do
    let nodes ← ofList (foreach s.lists ())
    -- `MOD_IDX_INVALID(i)` lets the size itself pass
    if i < 0 ∨ (nodes.length : Int) < i then pure (s, 0)
    else do
      let s ← ofList (s.removeAt i.toNat)
      pure (s, 1)
  | .pointer mod => do
    match ← ofList (listFind s.lists () mod) with
    | none => pure (s, 0)
    | some n => do
      let lists ← ofList (listDelete s.lists () n)
      pure ({ s with lists := lists, modcount := s.modcount - 1 }, 1)

/-- The lists that additions and removals lead to. -/
inductive Reached (mem : ListMem Nat Unit μ) (n : Nat) : ModuleList μ → Prop
  | start : Reached mem n (start env mem n)
  | add {s s' : ModuleList μ} {mod : μ} {runModule : Bool} {ret : Int} :
      Reached mem n s → s.moduleAdd env mod runModule = .ok (s', ret) → Reached mem n s'
  | remove {s s' : ModuleList μ} {r : Removal μ} {ret : Nat} :
      Reached mem n s → s.moduleRemove env r = .ok (s', ret) → Reached mem n s'

/-- The maps hold the module's own functions. -/
def Works (s : ModuleList μ) (mod : μ) : Prop :=
  hashmapGet s.modInitlist (env.ent mod).nameField = .ok (env.ent mod).init ∧
    hashmapGet s.modQuitlist (env.ent mod).nameField = .ok (env.ent mod).finit

/-- A removal that goes from `s` to `s'` and is one of `mod`: its `finit` has run once, its functions are its own
again, it has left the list, the others are as before, and adding it again runs its `init`. -/
structure Unloaded (s s' : ModuleList μ) (mods : List μ) (mod : μ) : Prop where
  called : s'.called = s.called ++ [(env.ent mod).finit]
  init : s'.init mod = (env.ent mod).init
  finit : s'.finit mod = (env.ent mod).finit
  listed : s'.listed = .ok (mods.erase mod)
  modcount : s'.modcount = s.modcount - 1 ∧ s'.modcount = (mods.erase mod).length
  others : ∀ m ∈ mods, m ≠ mod →
    s'.init m = s.init m ∧ s'.finit m = s.finit m ∧ (Works env s m → Works env s' m)
  again : (env.ent mod).init ≠ 0 → ∃ s'', s'.moduleAdd env mod true = .ok (s'', env.result (env.ent mod).init) ∧
    s''.called = s'.called ++ [(env.ent mod).init]

/-- The removal `r` removes `mod`. -/
def Unloads (s : ModuleList μ) (mods : List μ) (r : Removal μ) (mod : μ) : Prop :=
  ∃ s', s.moduleRemove env r = .ok (s', 1) ∧ Unloaded env s s' mods mod

/-- `r` is the name, the index or the address of `mod`. -/
def Names (mods : List μ) (r : Removal μ) (mod : μ) : Prop :=
  match r with
  | .name a => (env.ent mod).name = a
  | .index i => 0 ≤ i ∧ mods[i.toNat]? = some mod
  | .pointer p => p = mod

/-- `r` is a name and `mod` the first module with it; the maps hold the functions of `mod`, and of no other module
with this name; and it has a `finit`. -/
def Unloadable (s : ModuleList μ) (mods : List μ) (r : Removal μ) (mod : μ) : Prop :=
  ∃ a, r = .name a ∧ mods.find? (fun m => (env.ent m).name = a) = some mod ∧ (env.ent mod).finit ≠ 0 ∧
    ∀ m ∈ mods, (env.ent m).name = a → (Works env s m ↔ m = mod)

/-! ## The list and the maps -/

/-- The list has the modules `mods`, and the maps hold `p` and `q`, with the same keys. -/
structure Kept (s : ModuleList μ) (mods : List μ) (p q : CText → Option Nat) : Prop where
  nodes : ∃ nodes, Lists s.lists (fun _ => some nodes) ∧ nodes.map s.lists.value = mods ∧ ∀ k ∈ nodes, k < s.next
  nodup : mods.Nodup
  count : s.modcount = mods.length
  inits : ∃ t, TextMap env.junk s.modInitlist t ∧ HashTable.find textHash t = p
  quits : ∃ t, TextMap env.junk s.modQuitlist t ∧ HashTable.find textHash t = q
  keys : ∀ a, (p a).isSome = (q a).isSome

variable {env} {s s' : ModuleList μ} {mods : List μ} {p q : CText → Option Nat} {mod m : μ} {a : CText} {key : Block}
  {n i : Nat} {nodes : List Nat}

theorem denotes_nameField (e : ModEnt) : DenotesText e.nameField e.name := by
  have hlt := e.name_lt
  refine ⟨e.name.2, List.replicate (22 - e.name.1.length) 0, ?_⟩
  rw [ModEnt.nameField, show 23 - e.name.1.length = 22 - e.name.1.length + 1 by omega, List.replicate_succ]

omit [DecidableEq μ] in
theorem lists_update {lists : ListMem Nat Unit μ} {front back : List Nat}
    (h : Lists lists (Function.update (fun _ => some front) () (some back))) : Lists lists fun _ => some back := by
  have heq : Function.update (fun _ => some front) () (some back) = fun _ : Unit => some back := by
    funext l
    rw [Function.update_apply, if_pos rfl]
  rwa [heq] at h

omit [DecidableEq μ] in
theorem Kept.foreach_eq (h : Kept env s mods p q) : ∃ nodes, foreach s.lists () = .ok nodes ∧
    nodes.map s.lists.value = mods := by
  obtain ⟨nodes, hlists, hmods, -⟩ := h.nodes
  exact ⟨nodes, (hlists () nodes rfl).foreach_eq, hmods⟩

omit [DecidableEq μ] in
theorem Kept.listed (h : Kept env s mods p q) : s.listed = .ok mods := by
  obtain ⟨nodes, hforeach, hmods⟩ := h.foreach_eq
  rw [ModuleList.listed, hforeach, ← hmods]
  rfl

theorem Kept.moduleExists (h : Kept env s mods p q) (mod : μ) : s.moduleExists mod = .ok (decide (mod ∈ mods)) := by
  obtain ⟨nodes, hforeach, hmods⟩ := h.foreach_eq
  rw [ModuleList.moduleExists, listFind, hforeach, ← hmods]
  change Except.ok (nodes.find? _).isSome = _
  rw [Except.ok.injEq, Bool.eq_iff_iff, List.find?_isSome, decide_eq_true_iff, List.mem_map]
  simp only [decide_eq_true_eq]

/-! ## Additions -/

omit [DecidableEq μ] in
theorem Kept.setMaps (h : Kept env s mods p q) (hkey : DenotesText key a) (init finit : Nat) : ∃ s',
    s.setMaps key init finit = .ok s' ∧
      Kept env s' mods (Function.update p a (some init)) (Function.update q a (some finit)) ∧
      s'.init = s.init ∧ s'.finit = s.finit ∧ s'.called = s.called := by
  obtain ⟨t, ht, hp⟩ := h.inits
  obtain ⟨u, hu, hq⟩ := h.quits
  have hlawful := stringFuncs_lawful env.junk
  obtain ⟨inits, hinits, ht'⟩ := ht.set hlawful hkey init
  obtain ⟨quits, hquits, hu'⟩ := hu.set hlawful hkey finit
  refine ⟨{ s with modInitlist := inits, modQuitlist := quits }, ?_, ?_, rfl, rfl, rfl⟩
  · rw [ModuleList.setMaps, hinits, Exec.ok_bind, hquits]
    rfl
  · refine ⟨h.nodes, h.nodup, h.count, ⟨_, ht', ?_⟩, ⟨_, hu', ?_⟩, ?_⟩
    · rw [HashTable.find_insert ht.pos, hp]
    · rw [HashTable.find_insert hu.pos, hq]
    · intro b
      rw [Function.update_apply, Function.update_apply]
      by_cases hb : b = a
      · simp [hb]
      · simp [hb, h.keys b]

theorem Kept.setCallbacks (h : Kept env s mods p q) (mod : μ) (init finit : Nat) :
    Kept env (s.setCallbacks mod init finit) mods p q :=
  ⟨h.nodes, h.nodup, h.count, h.inits, h.quits, h.keys⟩

omit [DecidableEq μ] in
theorem Kept.insert (h : Kept env s mods p q) (hmod : mod ∉ mods) : ∃ s', s.insert mod = .ok s' ∧
    Kept env s' (mods ++ [mod]) p q ∧ s'.init = s.init ∧ s'.finit = s.finit ∧ s'.called = s.called := by
  obtain ⟨nodes, hlists, hmods, hnext⟩ := h.nodes
  have hfresh : ∀ l ys, (fun _ : Unit => some nodes) l = some ys → s.next ∉ ys := by
    intro l ys hys hmem
    rw [Option.some.injEq] at hys
    exact Nat.lt_irrefl _ (hnext _ (hys ▸ hmem))
  obtain ⟨lists, hrun, hlists', hvalue⟩ := hlists.insert (l := ()) rfl hfresh mod
  refine ⟨{ s with lists := lists, next := s.next + 1, modcount := s.modcount + 1 }, ?_, ?_, rfl, rfl, rfl⟩
  · rw [ModuleList.insert, hrun]
    rfl
  · refine ⟨⟨nodes ++ [s.next], lists_update hlists', ?_, ?_⟩, ?_, ?_, h.inits, h.quits, h.keys⟩
    · have hsame : nodes.map lists.value = nodes.map s.lists.value := by
        apply List.map_congr_left
        intro k hk
        rw [hvalue, Function.update_of_ne (Nat.ne_of_lt (hnext k hk))]
      rw [List.map_append, hsame, hmods, hvalue]
      simp
    · intro k hk
      cases List.mem_append.mp hk with
      | inl hold => exact Nat.lt_succ_of_lt (hnext k hold)
      | inr hnew => exact (List.mem_singleton.mp hnew) ▸ Nat.lt_succ_self _
    · exact List.nodup_append.mpr
        ⟨h.nodup, List.nodup_singleton mod, fun x hx y hy hxy => hmod (List.mem_singleton.mp hy ▸ hxy ▸ hx)⟩
    · change s.modcount + 1 = _
      rw [h.count, List.length_append]
      rfl

theorem Kept.add_listed (h : Kept env s mods p q) (hmod : mod ∈ mods) (runModule : Bool) :
    s.moduleAdd env mod runModule = .ok (s, 0) := by
  rw [moduleAdd, h.moduleExists, decide_eq_true hmod]
  rfl

theorem Kept.add (h : Kept env s mods p q) (hmod : mod ∉ mods) (runModule : Bool)
    (hinit : runModule = true → s.init mod ≠ 0) : ∃ s',
    s.moduleAdd env mod runModule = .ok (s', if runModule then env.result (s.init mod) else -1) ∧
      Kept env s' (mods ++ [mod]) (Function.update p (env.ent mod).name (some (s.init mod)))
        (Function.update q (env.ent mod).name (some (s.finit mod))) ∧
      s'.called = s.called ++ if runModule then [s.init mod] else [] := by
  obtain ⟨s₁, hmaps, h₁, hinit₁, hfinit₁, hcalled₁⟩ :=
    h.setMaps (denotes_nameField (env.ent mod)) (s.init mod) (s.finit mod)
  have hcall : ∃ s₂, s₁.runInit env mod runModule =
      .ok (s₂, if runModule then env.result (s.init mod) else -1) ∧
      Kept env s₂ mods (Function.update p (env.ent mod).name (some (s.init mod)))
        (Function.update q (env.ent mod).name (some (s.finit mod))) ∧
      s₂.called = s.called ++ if runModule then [s.init mod] else [] := by
    cases runModule with
    | false => exact ⟨s₁, rfl, h₁, by simp [hcalled₁]⟩
    | true =>
      refine ⟨{ s₁ with called := s₁.called ++ [s₁.init mod] }, ?_,
        ⟨h₁.nodes, h₁.nodup, h₁.count, h₁.inits, h₁.quits, h₁.keys⟩, ?_⟩
      · rw [ModuleList.runInit, if_pos rfl, ModuleList.call, if_neg (hinit₁ ▸ hinit rfl), hinit₁]
        rfl
      · simp [hcalled₁, hinit₁]
  obtain ⟨s₂, hrun, h₂, hcalled₂⟩ := hcall
  obtain ⟨s₃, hinsert, h₃, -, -, hcalled₃⟩ :=
    (h₂.setCallbacks mod env.moduleInitCback env.moduleRemoverManager).insert hmod
  refine ⟨s₃, ?_, h₃, hcalled₃.trans hcalled₂⟩
  rw [moduleAdd, h.moduleExists, decide_eq_false hmod]
  change (ofMemory (s.setMaps _ _ _) >>= _) = _
  rw [hmaps]
  change (s₁.runInit env mod runModule >>= _) = _
  rw [hrun, Exec.ok_bind]
  change (ofList ((s₂.setCallbacks mod _ _).insert mod) >>= _) = _
  rw [hinsert]
  rfl

theorem Kept.add_null (h : Kept env s mods p q) (hmod : mod ∉ mods) (hinit : s.init mod = 0) :
    s.moduleAdd env mod true = .error .nullCall := by
  obtain ⟨s₁, hmaps, -, hinit₁, -, -⟩ := h.setMaps (denotes_nameField (env.ent mod)) (s.init mod) (s.finit mod)
  rw [moduleAdd, h.moduleExists, decide_eq_false hmod]
  change (ofMemory (s.setMaps _ _ _) >>= _) = _
  rw [hmaps]
  change (s₁.runInit env mod true >>= _) = _
  rw [ModuleList.runInit, if_pos rfl, ModuleList.call, hinit₁, if_pos hinit]
  rfl

/-! ## Removals -/

omit [DecidableEq μ] in
theorem Kept.removeAt (h : Kept env s mods p q) (hi : i < mods.length) : ∃ s', s.removeAt i = .ok s' ∧
    Kept env s' (mods.eraseIdx i) p q ∧ s'.modcount = s.modcount - 1 ∧ s'.init = s.init ∧ s'.finit = s.finit ∧
    s'.called = s.called := by
  obtain ⟨nodes, hlists, hmods, hnext⟩ := h.nodes
  have hlen : i < nodes.length := by rwa [← hmods, List.length_map] at hi
  obtain ⟨lists, hrun, hlists', hvalue⟩ := hlists.remove (l := ()) rfl hlen
  refine ⟨{ s with lists := lists, modcount := s.modcount - 1 }, ?_, ?_, rfl, rfl, rfl, rfl⟩
  · rw [ModuleList.removeAt, hrun]
    rfl
  · refine ⟨⟨nodes.eraseIdx i, lists_update hlists', ?_, ?_⟩, ?_, ?_, h.inits, h.quits, h.keys⟩
    · change (nodes.eraseIdx i).map lists.value = _
      rw [hvalue, ← hmods, List.eraseIdx_map]
    · exact fun k hk => hnext k ((List.eraseIdx_sublist nodes i).subset hk)
    · exact (List.eraseIdx_sublist mods i).nodup h.nodup
    · change s.modcount - 1 = _
      rw [h.count, List.length_eraseIdx_of_lt hi]
      omega

omit [DecidableEq μ] in
theorem Kept.removeAt_length (h : Kept env s mods p q) : s.removeAt mods.length = .error .nullPointer := by
  obtain ⟨nodes, hlists, hmods, -⟩ := h.nodes
  rw [ModuleList.removeAt, ← hmods, List.length_map, hlists.remove_length (l := ()) rfl]
  rfl

theorem Kept.remove_index (h : Kept env s mods p q) {k : Int} (hk : 0 ≤ k) (hlt : k < mods.length) : ∃ s',
    s.moduleRemove env (.index k) = .ok (s', 1) ∧ Kept env s' (mods.eraseIdx k.toNat) p q ∧
      s'.called = s.called := by
  obtain ⟨nodes, hforeach, hmods⟩ := h.foreach_eq
  have hlen : nodes.length = mods.length := by rw [← hmods, List.length_map]
  obtain ⟨s', hrun, hkept, -, -, -, hcalled⟩ := h.removeAt (i := k.toNat) (by omega)
  refine ⟨s', ?_, hkept, hcalled⟩
  rw [moduleRemove, hforeach]
  change (if k < 0 ∨ (nodes.length : Int) < k then _ else _) = _
  rw [if_neg (by omega), hrun]
  rfl

theorem Kept.remove_outside (h : Kept env s mods p q) {k : Int} (hk : k < 0 ∨ mods.length < k) :
    s.moduleRemove env (.index k) = .ok (s, 0) := by
  obtain ⟨nodes, hforeach, hmods⟩ := h.foreach_eq
  have hlen : nodes.length = mods.length := by rw [← hmods, List.length_map]
  rw [moduleRemove, hforeach]
  change (if k < 0 ∨ (nodes.length : Int) < k then _ else _) = _
  rw [if_pos (by omega)]
  rfl

theorem Kept.remove_count (h : Kept env s mods p q) :
    s.moduleRemove env (.index mods.length) = .error (.list .nullPointer) := by
  obtain ⟨nodes, hforeach, hmods⟩ := h.foreach_eq
  have hlen : nodes.length = mods.length := by rw [← hmods, List.length_map]
  rw [moduleRemove, hforeach]
  change (if (mods.length : Int) < 0 ∨ (nodes.length : Int) < mods.length then _ else _) = _
  rw [if_neg (by omega), Int.toNat_natCast, h.removeAt_length]
  rfl

theorem Kept.remove_pointer (h : Kept env s mods p q) (hmod : mod ∈ mods) : ∃ s' mods',
    s.moduleRemove env (.pointer mod) = .ok (s', 1) ∧ Kept env s' mods' p q ∧ s'.called = s.called := by
  obtain ⟨nodes, hlists, hmods, hnext⟩ := h.nodes
  obtain ⟨k, hk, hvalue⟩ := List.mem_map.mp (hmods ▸ hmod)
  cases hfind : nodes.find? fun k => decide (s.lists.value k = mod) with
  | none => simpa [hvalue] using List.find?_eq_none.mp hfind k hk
  | some j =>
    have hj := List.mem_of_find?_eq_some hfind
    obtain ⟨lists, hrun, hlists', hsame⟩ := hlists.delete (l := ()) rfl hj
    have hsub : ((nodes.erase j).map lists.value).Sublist mods := by
      rw [hsame, ← hmods]
      exact List.erase_sublist.map _
    refine ⟨{ s with lists := lists, modcount := s.modcount - 1 }, _, ?_,
      ⟨⟨nodes.erase j, lists_update hlists', rfl, ?_⟩, ?_, ?_, h.inits, h.quits, h.keys⟩, rfl⟩
    · rw [moduleRemove, listFind, (hlists () nodes rfl).foreach_eq]
      change (match nodes.find? _ with | none => _ | some n => _) = _
      rw [hfind]
      change (ofList (listDelete s.lists () j) >>= _) = _
      rw [hrun]
      rfl
    · exact fun x hx => hnext x (List.mem_of_mem_erase hx)
    · exact hsub.nodup h.nodup
    · change s.modcount - 1 = _
      have hpos : 0 < nodes.length := List.length_pos_of_mem hj
      rw [h.count, ← hmods, List.length_map, List.length_map, List.length_erase_of_mem hj]
      omega

theorem Kept.remove_unlisted (h : Kept env s mods p q) (hmod : mod ∉ mods) :
    s.moduleRemove env (.pointer mod) = .ok (s, 0) := by
  obtain ⟨nodes, hforeach, hmods⟩ := h.foreach_eq
  have hfind : (nodes.find? fun k => decide (s.lists.value k = mod)) = none := by
    rw [List.find?_eq_none]
    intro k hk hvalue
    exact hmod (hmods ▸ List.mem_map.mpr ⟨k, hk, of_decide_eq_true hvalue⟩)
  rw [moduleRemove, listFind, hforeach]
  change (match nodes.find? _ with | none => _ | some n => _) = _
  rw [hfind]
  rfl

/-! ## Removals by name -/

omit [DecidableEq μ] in
theorem Kept.get (h : Kept env s mods p q) (hkey : DenotesText key a) :
    hashmapGet s.modInitlist key = .ok ((p a).getD 0) ∧ hashmapGet s.modQuitlist key = .ok ((q a).getD 0) := by
  obtain ⟨t, ht, hp⟩ := h.inits
  obtain ⟨u, hu, hq⟩ := h.quits
  rw [ht.get (stringFuncs_lawful env.junk) hkey, hu.get (stringFuncs_lawful env.junk) hkey, hp, hq]
  exact ⟨rfl, rfl⟩

omit [DecidableEq μ] in
theorem Kept.works_iff (h : Kept env s mods p q) : Works env s mod ↔
    (p (env.ent mod).name).getD 0 = (env.ent mod).init ∧ (q (env.ent mod).name).getD 0 = (env.ent mod).finit := by
  obtain ⟨hinit, hfinit⟩ := h.get (denotes_nameField (env.ent mod))
  rw [Works, hinit, hfinit, Except.ok.injEq, Except.ok.injEq]

omit [DecidableEq μ] in
theorem Kept.removeMaps (h : Kept env s mods p q) (hkey : DenotesText key a) (ha : (p a).isSome) : ∃ s',
    s.removeMaps key = .ok s' ∧ Kept env s' mods (Function.update p a none) (Function.update q a none) ∧
      s'.modcount = s.modcount ∧ s'.init = s.init ∧ s'.finit = s.finit ∧ s'.called = s.called := by
  obtain ⟨t, ht, hp⟩ := h.inits
  obtain ⟨u, hu, hq⟩ := h.quits
  have hlawful := stringFuncs_lawful env.junk
  obtain ⟨inits, hinits, ht'⟩ := ht.remove hlawful hkey (hp ▸ ha)
  obtain ⟨quits, hquits, hu'⟩ := hu.remove hlawful hkey (by rw [hq, ← h.keys a]; exact ha)
  refine ⟨{ s with modInitlist := inits, modQuitlist := quits }, ?_, ?_, rfl, rfl, rfl, rfl⟩
  · rw [ModuleList.removeMaps, hinits, Exec.ok_bind, hquits]
    rfl
  · refine ⟨h.nodes, h.nodup, h.count, ⟨_, ht', ?_⟩, ⟨_, hu', ?_⟩, ?_⟩
    · rw [HashTable.find_erase ht.wellPlaced ht.pos, hp]
    · rw [HashTable.find_erase hu.wellPlaced hu.pos, hq]
    · intro b
      rw [Function.update_apply, Function.update_apply]
      by_cases hb : b = a
      · simp [hb]
      · simp [hb, h.keys b]

theorem Kept.unload (h : Kept env s mods p q) (mod : μ) (hi : i < mods.length) (hkey : DenotesText key a)
    (hfinit : (q a).getD 0 ≠ 0) : ∃ s', s.unload mod key i = .ok s' ∧
      Kept env s' (mods.eraseIdx i) (Function.update p a none) (Function.update q a none) ∧
      s'.modcount = s.modcount - 1 ∧ s'.init = Function.update s.init mod ((p a).getD 0) ∧
      s'.finit = Function.update s.finit mod ((q a).getD 0) ∧ s'.called = s.called ++ [(q a).getD 0] := by
  obtain ⟨hgetInit, hgetFinit⟩ := h.get hkey
  have hsome : (p a).isSome := by
    rw [h.keys a]
    cases hq : q a with
    | none => simp [hq] at hfinit
    | some y => rfl
  have hcalled : Kept env { s with called := s.called ++ [(q a).getD 0] } mods p q :=
    ⟨h.nodes, h.nodup, h.count, h.inits, h.quits, h.keys⟩
  obtain ⟨s₁, hmaps, h₁, hcount₁, hinit₁, hfinit₁, hcalled₁⟩ :=
    (hcalled.setCallbacks mod ((p a).getD 0) ((q a).getD 0)).removeMaps hkey hsome
  obtain ⟨s₂, hlist, h₂, hcount₂, hinit₂, hfinit₂, hcalled₂⟩ := h₁.removeAt hi
  refine ⟨s₂, ?_, h₂, ?_, hinit₂.trans hinit₁, hfinit₂.trans hfinit₁, hcalled₂.trans hcalled₁⟩
  · rw [ModuleList.unload, hgetInit, hgetFinit]
    change (s.call ((q a).getD 0) >>= _) = _
    rw [ModuleList.call, if_neg hfinit, Exec.ok_bind, hmaps]
    change ofList (s₁.removeAt i) = _
    rw [hlist]
    rfl
  · rw [hcount₂, hcount₁]
    rfl

theorem Kept.unload_null (h : Kept env s mods p q) (hkey : DenotesText key a) (hfinit : (q a).getD 0 = 0) :
    s.unload mod key i = .error .nullCall := by
  obtain ⟨hgetInit, hgetFinit⟩ := h.get hkey
  rw [ModuleList.unload, hgetInit, hgetFinit]
  change (s.call ((q a).getD 0) >>= _) = _
  rw [ModuleList.call, if_pos hfinit]
  rfl

omit [DecidableEq μ] in
theorem strcmp_nameField (e : ModEnt) (a : CText) :
    ∃ d, strcmp e.nameField (a.1 ++ [0]) = .ok d ∧ (d = 0 ↔ e.name = a) := by
  obtain ⟨d, hd, hiff⟩ := strcmp_eq_zero (denotes_nameField e) (denotes_name a)
  exact ⟨d, hd, hiff.trans Subtype.ext_iff.symm⟩

theorem removeNamed_cons {k : Nat} (hname : (env.ent (s.lists.value k)).name ≠ a) :
    s.removeNamed env (a.1 ++ [0]) i (k :: nodes) = s.removeNamed env (a.1 ++ [0]) (i + 1) nodes := by
  obtain ⟨d, hd, hiff⟩ := strcmp_nameField (env.ent (s.lists.value k)) a
  rw [removeNamed, hd]
  change (if d = 0 then _ else _) = _
  rw [if_neg (fun hzero => hname (hiff.mp hzero))]

theorem removeNamed_found {k : Nat} {front back : List Nat}
    (hfront : ∀ j ∈ front, (env.ent (s.lists.value j)).name ≠ a) (hname : (env.ent (s.lists.value k)).name = a) :
    s.removeNamed env (a.1 ++ [0]) i (front ++ k :: back) =
      (s.unload (s.lists.value k) (a.1 ++ [0]) (i + front.length)).map (·, 1) := by
  induction front generalizing i with
  | nil =>
    obtain ⟨d, hd, hiff⟩ := strcmp_nameField (env.ent (s.lists.value k)) a
    rw [List.nil_append, removeNamed, hd]
    change (if d = 0 then _ else _) = _
    rw [if_pos (hiff.mpr hname)]
    cases s.unload (s.lists.value k) (a.1 ++ [0]) i <;> rfl
  | cons j front ih =>
    rw [List.cons_append, removeNamed_cons (hfront j (by simp)), ih fun l hl => hfront l (by simp [hl]),
      List.length_cons, Nat.add_assoc, Nat.add_comm 1]

theorem removeNamed_absent (h : ∀ j ∈ nodes, (env.ent (s.lists.value j)).name ≠ a) :
    s.removeNamed env (a.1 ++ [0]) i nodes = .ok (s, 0) := by
  induction nodes generalizing i with
  | nil => rfl
  | cons j nodes ih => rw [removeNamed_cons (h j (by simp)), ih fun l hl => h l (by simp [hl])]

theorem Kept.remove_absent (h : Kept env s mods p q) (ha : ∀ m ∈ mods, (env.ent m).name ≠ a) :
    s.moduleRemove env (.name a) = .ok (s, 0) := by
  obtain ⟨nodes, hforeach, hmods⟩ := h.foreach_eq
  rw [moduleRemove, hforeach]
  change s.removeNamed env (a.1 ++ [0]) 0 nodes = _
  exact removeNamed_absent fun j hj => ha _ (hmods ▸ List.mem_map_of_mem hj)

theorem Kept.remove_first (h : Kept env s mods p q) {front back : List μ} (hmods : mods = front ++ mod :: back)
    (hfront : ∀ m ∈ front, (env.ent m).name ≠ a) (hname : (env.ent mod).name = a) :
    s.moduleRemove env (.name a) = (s.unload mod (a.1 ++ [0]) front.length).map (·, 1) := by
  obtain ⟨nodes, hforeach, hvalues⟩ := h.foreach_eq
  obtain ⟨left, right, rfl, hleft, hright⟩ := List.map_eq_append_iff.mp (hvalues.trans hmods)
  obtain ⟨k, back', rfl, rfl, -⟩ := List.map_eq_cons_iff.mp hright
  have hother : ∀ j ∈ left, (env.ent (s.lists.value j)).name ≠ a :=
    fun j hj => hfront _ (hleft ▸ List.mem_map_of_mem hj)
  have hlen : front.length = left.length := by rw [← hleft, List.length_map]
  rw [moduleRemove, hforeach]
  change s.removeNamed env (a.1 ++ [0]) 0 (left ++ k :: back') = _
  rw [removeNamed_found hother hname, Nat.zero_add, hlen]

omit [DecidableEq μ] in
theorem find_split : mods.find? (fun m => (env.ent m).name = a) = some mod ↔ (env.ent mod).name = a ∧
    ∃ front back, mods = front ++ mod :: back ∧ ∀ m ∈ front, (env.ent m).name ≠ a := by
  rw [List.find?_eq_some_iff_append]
  simp

theorem Kept.remove_found (h : Kept env s mods p q) (hfind : mods.find? (fun m => (env.ent m).name = a) = some mod)
    (hfinit : (q a).getD 0 ≠ 0) : ∃ s', s.moduleRemove env (.name a) = .ok (s', 1) ∧
      Kept env s' (mods.erase mod) (Function.update p a none) (Function.update q a none) ∧
      s'.modcount = s.modcount - 1 ∧ s'.init = Function.update s.init mod ((p a).getD 0) ∧
      s'.finit = Function.update s.finit mod ((q a).getD 0) ∧ s'.called = s.called ++ [(q a).getD 0] := by
  obtain ⟨hname, front, back, hmods, hfront⟩ := find_split.mp hfind
  have hlt : front.length < mods.length := by
    rw [hmods, List.length_append, List.length_cons]
    omega
  have herase : mods.eraseIdx front.length = mods.erase mod := by
    rw [← h.nodup.erase_getElem _ hlt]
    congr 1
    simp [hmods]
  obtain ⟨s', hrun, hkept, hfields⟩ := h.unload mod hlt (denotes_name a) hfinit
  refine ⟨s', ?_, herase ▸ hkept, hfields⟩
  rw [h.remove_first hmods hfront hname, hrun]
  rfl

theorem Kept.remove_null (h : Kept env s mods p q) (hfind : mods.find? (fun m => (env.ent m).name = a) = some mod)
    (hfinit : (q a).getD 0 = 0) : s.moduleRemove env (.name a) = .error .nullCall := by
  obtain ⟨hname, front, back, hmods, hfront⟩ := find_split.mp hfind
  rw [h.remove_first hmods hfront hname, h.unload_null (denotes_name a) hfinit]
  rfl

/-! ## Every reached list -/

theorem Kept.moduleAdd {runModule : Bool} {ret : Int} (h : Kept env s mods p q)
    (hrun : s.moduleAdd env mod runModule = .ok (s', ret)) : ∃ mods' p' q', Kept env s' mods' p' q' := by
  by_cases hmod : mod ∈ mods
  · rw [h.add_listed hmod] at hrun
    cases hrun
    exact ⟨mods, p, q, h⟩
  · by_cases hnull : runModule = true ∧ s.init mod = 0
    · rw [hnull.1, h.add_null hmod hnull.2] at hrun
      cases hrun
    · obtain ⟨s₁, hrun₁, h₁, -⟩ := h.add hmod runModule fun hrun hzero => hnull ⟨hrun, hzero⟩
      rw [hrun₁] at hrun
      cases hrun
      exact ⟨_, _, _, h₁⟩

theorem Kept.moduleRemove {r : Removal μ} {ret : Nat} (h : Kept env s mods p q)
    (hrun : s.moduleRemove env r = .ok (s', ret)) : ∃ mods' p' q', Kept env s' mods' p' q' := by
  cases r with
  | name a =>
    cases hfind : mods.find? fun m => decide ((env.ent m).name = a) with
    | none =>
      have habsent : ∀ m ∈ mods, (env.ent m).name ≠ a := by simpa using hfind
      rw [h.remove_absent habsent] at hrun
      cases hrun
      exact ⟨mods, p, q, h⟩
    | some mod =>
      by_cases hfinit : (q a).getD 0 = 0
      · rw [h.remove_null hfind hfinit] at hrun
        cases hrun
      · obtain ⟨s₁, hrun₁, h₁, -⟩ := h.remove_found hfind hfinit
        rw [hrun₁] at hrun
        cases hrun
        exact ⟨_, _, _, h₁⟩
  | index k =>
    by_cases houtside : k < 0 ∨ mods.length < k
    · rw [h.remove_outside houtside] at hrun
      cases hrun
      exact ⟨mods, p, q, h⟩
    · by_cases hcount : k = mods.length
      · rw [hcount, h.remove_count] at hrun
        cases hrun
      · have hk : 0 ≤ k := by omega
        have hlt : k < mods.length := by omega
        obtain ⟨s₁, hrun₁, h₁, -⟩ := h.remove_index hk hlt
        rw [hrun₁] at hrun
        cases hrun
        exact ⟨_, _, _, h₁⟩
  | pointer mod =>
    by_cases hmod : mod ∈ mods
    · obtain ⟨s₁, mods₁, hrun₁, h₁, -⟩ := h.remove_pointer hmod
      rw [hrun₁] at hrun
      cases hrun
      exact ⟨_, _, _, h₁⟩
    · rw [h.remove_unlisted hmod] at hrun
      cases hrun
      exact ⟨mods, p, q, h⟩

omit [DecidableEq μ] in
theorem kept_start (mem : ListMem Nat Unit μ) (hn : 0 < n) (hlt : n < 2 ^ 30) :
    Kept env (start env mem n) [] (fun _ => none) fun _ => none := by
  have hmap : ∃ t, TextMap env.junk (hashmapCreate env.junk n) t ∧ HashTable.find textHash t = fun _ => none :=
    ⟨List.replicate n [], represents_create env.junk _ _ hn hlt, funext fun a => HashTable.find_empty n a⟩
  refine ⟨⟨[], ?_, rfl, by simp⟩, List.nodup_nil, rfl, hmap, hmap, fun _ => rfl⟩
  intro l xs hxs
  rw [Option.some.injEq] at hxs
  exact hxs ▸ isList_create mem l

theorem Reached.kept {mem : ListMem Nat Unit μ} (h : Reached env mem n s) (hn : 0 < n) (hlt : n < 2 ^ 30) :
    ∃ mods p q, Kept env s mods p q := by
  induction h with
  | start => exact ⟨_, _, _, kept_start mem hn hlt⟩
  | add _ hrun ih =>
    obtain ⟨mods, p, q, hkept⟩ := ih
    exact hkept.moduleAdd hrun
  | remove _ hrun ih =>
    obtain ⟨mods, p, q, hkept⟩ := ih
    exact hkept.moduleRemove hrun

/-! ## What a removal does -/

theorem Kept.unloads_name (h : Kept env s mods p q) (ha : (env.ent mod).name = a)
    (hu : Unloadable env s mods (.name a) mod) : Unloads env s mods (.name a) mod := by
  obtain ⟨b, hb, hfind, hnull, honly⟩ := hu
  cases hb
  have hmem : mod ∈ mods := List.mem_of_find?_eq_some hfind
  obtain ⟨hp, hq⟩ := h.works_iff.mp ((honly mod hmem ha).mpr rfl)
  rw [ha] at hp hq
  have hfinit : (q a).getD 0 ≠ 0 := hq ▸ hnull
  obtain ⟨s', hrun, hkept, hcount, hinit', hfinit', hcalled⟩ := h.remove_found hfind hfinit
  have hown : s'.init mod = (env.ent mod).init := by rw [hinit', Function.update_self, hp]
  refine ⟨s', hrun, ⟨by rw [hcalled, hq], hown, by rw [hfinit', Function.update_self, hq], hkept.listed,
    ⟨hcount, hkept.count⟩, ?_, ?_⟩⟩
  · intro m hm hne
    refine ⟨by rw [hinit', Function.update_of_ne hne], by rw [hfinit', Function.update_of_ne hne], fun hworks => ?_⟩
    have hname : (env.ent m).name ≠ a := fun hname => hne ((honly m hm hname).mp hworks)
    rw [hkept.works_iff, Function.update_of_ne hname, Function.update_of_ne hname]
    exact h.works_iff.mp hworks
  · intro hinit
    obtain ⟨s'', hrun'', -, hcalled''⟩ := hkept.add h.nodup.not_mem_erase true fun _ => hown ▸ hinit
    rw [if_pos rfl, hown] at hrun'' hcalled''
    exact ⟨s'', hrun'', hcalled''⟩

theorem Kept.unloadable_name (h : Kept env s mods p q) (hmod : mod ∈ mods) (ha : (env.ent mod).name = a)
    (hu : Unloads env s mods (.name a) mod) : Unloadable env s mods (.name a) mod := by
  obtain ⟨s', hrun, hunloaded⟩ := hu
  cases hfind : mods.find? fun m => decide ((env.ent m).name = a) with
  | none =>
    have habsent := List.find?_eq_none.mp hfind mod hmod
    simp [ha] at habsent
  | some first =>
    by_cases hfinit : (q a).getD 0 = 0
    · rw [h.remove_null hfind hfinit] at hrun
      cases hrun
    · obtain ⟨s₁, hrun₁, hkept, -, hinit₁, -, hcalled₁⟩ := h.remove_found hfind hfinit
      rw [hrun₁] at hrun
      cases hrun
      -- the list tells which module was removed
      have hsame : mod = first := by
        by_contra hne
        have hlist := hkept.listed.symm.trans hunloaded.listed
        rw [Except.ok.injEq] at hlist
        have hin : mod ∈ mods.erase first := (h.nodup.mem_erase_iff).mpr ⟨hne, hmod⟩
        exact h.nodup.not_mem_erase (hlist ▸ hin)
      have hq : (q a).getD 0 = (env.ent mod).finit := by
        have hcalled := hcalled₁.symm.trans hunloaded.called
        simpa using hcalled
      have hp : (p a).getD 0 = (env.ent mod).init := by
        have hinit := hunloaded.init
        rwa [hinit₁, hsame, Function.update_self, ← hsame] at hinit
      have hworks : Works env s mod := h.works_iff.mpr (ha ▸ ⟨hp, hq⟩)
      refine ⟨a, rfl, hsame ▸ hfind, hq ▸ hfinit, fun m hm hname => ⟨fun hw => ?_, fun hm => hm ▸ hworks⟩⟩
      by_contra hne
      have hafter := (hkept.works_iff.mp ((hunloaded.others m hm hne).2.2 hw)).2
      have hbefore := (h.works_iff.mp hw).2
      rw [hname, Function.update_self] at hafter
      rw [hname] at hbefore
      exact hfinit (hbefore.trans hafter.symm)

theorem not_unloads_of_called {r : Removal μ} (h : s.moduleRemove env r = .ok (s', 1))
    (hcalled : s'.called = s.called) : ¬ Unloads env s mods r mod := by
  intro ⟨s₁, hrun, hunloaded⟩
  rw [h] at hrun
  cases hrun
  simpa [hcalled] using hunloaded.called

theorem Kept.unloads_iff {r : Removal μ} (h : Kept env s mods p q) (hmod : mod ∈ mods) (hr : Names env mods r mod) :
    Unloads env s mods r mod ↔ Unloadable env s mods r mod := by
  cases r with
  | name a => exact ⟨h.unloadable_name hmod hr, h.unloads_name hr⟩
  | index k =>
    obtain ⟨hk, hget⟩ := hr
    obtain ⟨hlt, -⟩ := List.getElem?_eq_some_iff.mp hget
    have hk' : k < mods.length := by omega
    obtain ⟨s', hrun, -, hcalled⟩ := h.remove_index hk hk'
    refine ⟨fun hu => absurd hu (not_unloads_of_called hrun hcalled), fun ⟨a, ha, _⟩ => ?_⟩
    cases ha
  | pointer m =>
    cases hr
    obtain ⟨s', mods', hrun, -, hcalled⟩ := h.remove_pointer hmod
    refine ⟨fun hu => absurd hu (not_unloads_of_called hrun hcalled), fun ⟨a, ha, _⟩ => ?_⟩
    cases ha

theorem Kept.ignored_iff {r : Removal μ} (h : Kept env s mods p q) (hr : ∀ m ∈ mods, ¬ Names env mods r m) :
    s.moduleRemove env r = .ok (s, 0) ↔ r ≠ .index mods.length := by
  cases r with
  | name a => exact iff_of_true (h.remove_absent hr) nofun
  | index k =>
    by_cases hcount : k = mods.length
    · refine iff_of_false (fun hrun => ?_) (fun hne => hne (by rw [hcount]))
      rw [hcount, h.remove_count] at hrun
      cases hrun
    · have houtside : k < 0 ∨ mods.length < k := by
        by_contra hin
        have hlt : k.toNat < mods.length := by omega
        exact hr _ (List.getElem_mem hlt) ⟨by omega, List.getElem?_eq_getElem hlt⟩
      exact iff_of_true (h.remove_outside houtside) fun hr => hcount (Removal.index.inj hr)
  | pointer m => exact iff_of_true (h.remove_unlisted fun hm => hr m hm rfl) nofun

/-- In every reached list, `modcount` is its length. A module in it is removed properly by its name exactly if it
is the first with this name, the maps hold its functions and those of no other module with the name, and it has
a `finit`; by its index or its address it never is. Anything else is ignored, except for the index that is the
length of the list. -/
theorem moduleRemove_iff {mem : ListMem Nat Unit μ} (hn : 0 < n) (hlt : n < 2 ^ 30) (h : Reached env mem n s) :
    ∃ mods, s.listed = .ok mods ∧ s.modcount = mods.length ∧
      (∀ mod ∈ mods, ∀ r, Names env mods r mod → (Unloads env s mods r mod ↔ Unloadable env s mods r mod)) ∧
      ∀ r, (∀ m ∈ mods, ¬ Names env mods r m) →
        (s.moduleRemove env r = .ok (s, 0) ↔ r ≠ .index mods.length) := by
  obtain ⟨mods, p, q, hkept⟩ := h.kept hn hlt
  exact ⟨mods, hkept.listed, hkept.count, fun mod hmod r hr => hkept.unloads_iff hmod hr,
    fun r hr => hkept.ignored_iff hr⟩

/-- One module with two functions, in a kernel whose stubs are at 1 and 2. -/
def oneModule : ModuleEnv Unit := ⟨fun _ => ⟨⟨[97], by decide⟩, by decide, 3, 4⟩, 1, 2, fun _ => 0, fun _ => 0⟩

def noNodes : ListMem Nat Unit Unit :=
  ⟨fun _ => ⟨none, none⟩, fun _ => (), fun _ => none, fun _ => none, fun _ => none, fun _ => 0⟩

theorem reached_oneModule : ∃ s p q, Reached oneModule noNodes 1 s ∧ Kept oneModule s [()] p q := by
  have hstart : Kept oneModule (start oneModule noNodes 1) [] (fun _ => none) fun _ => none :=
    kept_start noNodes (by decide) (by decide)
  obtain ⟨s, hrun, hkept, -⟩ := hstart.add (List.not_mem_nil : () ∉ []) true fun _ => by decide
  exact ⟨s, _, _, .add .start hrun, hkept⟩

theorem moduleRemove_iff_oneModule : ∃ s mods, Reached oneModule noNodes 1 s ∧ s.listed = .ok mods ∧
    () ∈ mods ∧ ∀ mod ∈ mods, ∀ r, Names oneModule mods r mod →
      (Unloads oneModule s mods r mod ↔ Unloadable oneModule s mods r mod) := by
  obtain ⟨s, p, q, hreached, hkept⟩ := reached_oneModule
  obtain ⟨mods, hlisted, -, hiff, -⟩ := moduleRemove_iff (by decide) (by decide) hreached
  have hmods : [()] = mods := Except.ok.inj (hkept.listed.symm.trans hlisted)
  exact ⟨s, mods, hreached, hlisted, hmods ▸ List.mem_singleton_self _, hiff⟩

/-- A module that was added is removed by its address, and index 1 of the list of one module is not refused. -/
theorem not_unloads_pointer : ∃ s mods, Reached oneModule noNodes 1 s ∧ s.listed = .ok mods ∧ () ∈ mods ∧
    ¬ Unloads oneModule s mods (.pointer ()) () ∧ s.moduleRemove oneModule (.index 1) ≠ .ok (s, 0) := by
  obtain ⟨s, p, q, hreached, hkept⟩ := reached_oneModule
  obtain ⟨s', mods', hrun, -, hcalled⟩ := hkept.remove_pointer (List.mem_singleton_self ())
  have hpointer : ¬ Unloads oneModule s [()] (.pointer ()) () := not_unloads_of_called hrun hcalled
  refine ⟨s, [()], hreached, hkept.listed, List.mem_singleton_self _, hpointer, fun hok => ?_⟩
  rw [show (.index 1 : Removal Unit) = .index ([()] : List Unit).length from rfl, hkept.remove_count] at hok
  cases hok

end ModuleList

end KernelTest.Boot
