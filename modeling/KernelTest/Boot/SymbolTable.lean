import Mathlib.Data.Finmap
import KernelTest.Framework.Exec
import KernelTest.Libc.Hashmap

/-!
# The table of exported symbols

The table is an array of slots, of which the ones without a name are free. `symbol_add` and `symbol_remove` are
meant to keep a finite map in it, up to its capacity. But a lookup compares the name of every slot up to the
one it finds, and the name of a free slot is a null pointer.
-/

namespace KernelTest.Boot

open Libc

/-- `sym_t` -/
structure SymT where
  name : Option CText
  addr : UInt32

inductive SymbolFault
  /-- `strcmp` reads from a null pointer. -/
  | nullName
  /-- `strcmp` goes wrong on two strings. -/
  | string (f : Fault)
  deriving DecidableEq

/-- What `symbol_find` returns: an address, a slot, or `&symbol_invalid`. -/
inductive SymbolPointer
  | addr (a : UInt32)
  | slot (i : Nat)
  | invalid

/-- `KERNEL_SYMBOLS_TABLE_SIZE / sizeof(sym_t)` -/
def symbolSlots : Nat := 1024

/-- `!strcmp(slot.name, name)` -/
def sameName : Option CText → CText → Except SymbolFault Bool
  | none, _ => .error .nullName
  | some n, name =>
    match strcmp (n.1 ++ [0]) (name.1 ++ [0]) with
    | .error f => .error (.string f)
    | .ok d => .ok (d = 0)

/-- The loop of `symbol_find`. -/
def findSymbol (name : CText) : List SymT → Except SymbolFault (Option Nat)
  | [] => pure none
  | s :: sym => do
    let same ← sameName s.name name
    if same then pure (some 0) else (findSymbol name sym).map (·.map (· + 1))

/-- `symbol_find(name, get_addr)` -/
def symbolFind (sym : List SymT) (name : CText) (getAddr : Bool) : Except SymbolFault SymbolPointer := do
  match ← findSymbol name sym with
  | none => pure .invalid
  | some i => pure (if getAddr then .addr (sym[i]?.elim 0 (·.addr)) else .slot i)

/-- `symbol_next()` -/
def symbolNext (sym : List SymT) : Option Nat := sym.findIdx? (·.name.isNone)

/-- `symbol_exists(name)` -/
def symbolExists (sym : List SymT) (name : CText) : Except SymbolFault Bool := do
  match ← symbolFind sym name false with
  | .slot i => pure (sym[i]?.elim false (·.name.isSome))
  | _ => pure false

/-- `symbol_add(name, address)` -/
def symbolAdd (sym : List SymT) (name : CText) (address : UInt32) : Except SymbolFault (List SymT × Bool) := do
  let found ← symbolExists sym name
  if found then pure (sym, false)
  else
    match symbolNext sym with
    | none => pure (sym, false)
    | some i => pure (sym.set i ⟨some name, address⟩, true)

/-- `symbol_remove(name)` -/
def symbolRemove (sym : List SymT) (name : CText) : Except SymbolFault (List SymT × Bool) := do
  let found ← symbolExists sym name
  if found then do
    match ← symbolFind sym name false with
    | .slot i => pure (sym.set i ⟨none, 0⟩, true)
    | _ => pure (sym, false)
  else pure (sym, false)

inductive SymbolCall
  | add (name : CText) (address : UInt32)
  | remove (name : CText)
  | doesExist (name : CText)
  | find (name : CText)

inductive SymbolAnswer
  | flag (b : Bool)
  | pointer (p : SymbolPointer)

def SymbolCall.name : SymbolCall → CText
  | add name _ => name
  | remove name => name
  | doesExist name => name
  | find name => name

def symbolCall (sym : List SymT) : SymbolCall → Except SymbolFault (List SymT × SymbolAnswer)
  | .add name address => (symbolAdd sym name address).map fun r => (r.1, .flag r.2)
  | .remove name => (symbolRemove sym name).map fun r => (r.1, .flag r.2)
  | .doesExist name => (symbolExists sym name).map fun b => (sym, .flag b)
  | .find name => (symbolFind sym name true).map fun p => (sym, .pointer p)

def symbolCalls (sym : List SymT) : List SymbolCall → Except SymbolFault (List SymT × List SymbolAnswer)
  | [] => pure (sym, [])
  | c :: calls => do
    let (sym, answer) ← symbolCall sym c
    let (sym, answers) ← symbolCalls sym calls
    pure (sym, answer :: answers)

abbrev SymbolMap : Type := Finmap fun _ : CText => UInt32

/-- A call on a finite map with room for `capacity` names. -/
def SymbolMap.call (capacity : Nat) (m : SymbolMap) : SymbolCall → SymbolMap × SymbolAnswer
  | .add name address =>
    if name ∉ m ∧ m.keys.card < capacity then (m.insert name address, .flag true) else (m, .flag false)
  | .remove name => if name ∈ m then (m.erase name, .flag true) else (m, .flag false)
  | .doesExist name => (m, .flag (decide (name ∈ m)))
  | .find name => (m, .pointer ((m.lookup name).elim .invalid .addr))

def SymbolMap.calls (capacity : Nat) (m : SymbolMap) : List SymbolCall → SymbolMap × List SymbolAnswer
  | [] => (m, [])
  | c :: calls =>
    let (m, answer) := m.call capacity c
    let (m, answers) := SymbolMap.calls capacity m calls
    (m, answer :: answers)

def symbolNames (sym : List SymT) : List CText := sym.filterMap (·.name)

def contents : List SymT → SymbolMap
  | [] => ∅
  | s :: sym => s.name.elim (contents sym) fun name => (contents sym).insert name s.addr

/-- A symbol table whose names are distinct. -/
abbrev SymbolTable : Type := {sym : List SymT // sym.length = symbolSlots ∧ (symbolNames sym).Nodup}

/-- The calls do not go wrong, and return what they do on the finite map that the table stands for. -/
def RefinesMap (sym : List SymT) (calls : List SymbolCall) : Prop :=
  ∃ sym', symbolCalls sym calls = .ok (sym', ((contents sym).calls symbolSlots calls).2) ∧
    contents sym' = ((contents sym).calls symbolSlots calls).1

/-- No free slot is in front of the slot with the name, and none is anywhere if there is no such slot. -/
def Clear (sym : List SymT) (name : CText) : Prop :=
  ∀ s ∈ sym.takeWhile (·.name ≠ some name), s.name ≠ none

/-- Each call finds the table clear for its name. -/
def AllClear (sym : List SymT) : List SymbolCall → Prop
  | [] => True
  | c :: calls => Clear sym c.name ∧ ∀ r, symbolCall sym c = .ok r → AllClear r.1 calls

section Lookup

variable {sym u v : List SymT} {s : SymT} {name n : CText}

theorem sameName_some (n name : CText) : sameName (some n) name = .ok (decide (n = name)) := by
  obtain ⟨d, hd, hiff⟩ := strcmp_eq_zero (cString_terminated n.2) (cString_terminated name.2)
  rw [sameName, hd]
  simp only [Except.ok.injEq, decide_eq_decide]
  rw [hiff, Subtype.ext_iff]

theorem clear_cons : Clear (s :: sym) name ↔ s.name = some name ∨ s.name ≠ none ∧ Clear sym name := by
  by_cases hs : s.name = some name
  · simp [Clear, hs]
  · simp [Clear, hs]

theorem findSymbol_clear (h : Clear sym name) :
    findSymbol name sym = .ok (sym.findIdx? (·.name = some name)) := by
  induction sym with
  | nil => rfl
  | cons s sym ih =>
    rw [findSymbol, List.findIdx?_cons]
    cases hname : s.name with
    | none =>
      rw [clear_cons, hname] at h
      simp at h
    | some n =>
      rw [sameName_some, Exec.ok_bind]
      by_cases hn : n = name
      · simp [hn]
        rfl
      · have hrest : Clear sym name := by
          rw [clear_cons, hname] at h
          simpa [hn] using h
        simp only [hn, ih hrest, decide_false, Bool.false_eq_true, if_false, Option.some.injEq]
        rfl

theorem findSymbol_hole (h : ¬ Clear sym name) : findSymbol name sym = .error .nullName := by
  induction sym with
  | nil => exact absurd (by simp [Clear]) h
  | cons s sym ih =>
    rw [clear_cons] at h
    rw [findSymbol]
    cases hname : s.name with
    | none => rfl
    | some n =>
      rw [hname] at h
      have hn : n ≠ name := fun hn => h (by simp [hn])
      have hrest : ¬ Clear sym name := fun hrest => h (.inr ⟨by simp, hrest⟩)
      rw [sameName_some, Exec.ok_bind, ih hrest]
      simp [hn]
      rfl

theorem symbolNames_append (u v : List SymT) : symbolNames (u ++ v) = symbolNames u ++ symbolNames v :=
  List.filterMap_append

theorem mem_symbolNames : name ∈ symbolNames sym ↔ ∃ s ∈ sym, s.name = some name := List.mem_filterMap

theorem find?_absent (h : name ∉ symbolNames sym) : sym.find? (·.name = some name) = none := by
  rw [mem_symbolNames] at h
  simpa using h

theorem lookup_contents (sym : List SymT) (name : CText) :
    (contents sym).lookup name = (sym.find? (·.name = some name)).map (·.addr) := by
  induction sym with
  | nil => rfl
  | cons s sym ih =>
    rw [contents]
    cases hname : s.name with
    | none => simp [hname, ih]
    | some n =>
      by_cases hn : n = name
      · subst hn
        simp [hname]
      · have hne : name ≠ n := Ne.symm hn
        simp [hname, hn, hne, ih, Finmap.lookup_insert_of_ne]

theorem keys_contents (sym : List SymT) : (contents sym).keys = (symbolNames sym).toFinset := by
  ext name
  rw [Finmap.mem_keys, ← Finmap.lookup_isSome, lookup_contents, List.mem_toFinset, mem_symbolNames]
  simp [List.find?_isSome]

theorem card_contents (h : (symbolNames sym).Nodup) : (contents sym).keys.card = (symbolNames sym).length := by
  rw [keys_contents, List.toFinset_card_of_nodup h]

theorem findIdx?_absent (h : name ∉ contents sym) : sym.findIdx? (·.name = some name) = none := by
  rw [← Finmap.mem_keys, keys_contents, List.mem_toFinset, mem_symbolNames] at h
  simpa using h

theorem exists_slot (h : name ∈ contents sym) : ∃ u s v, sym = u ++ s :: v ∧ s.name = some name ∧
    sym.findIdx? (·.name = some name) = some u.length ∧ name ∉ symbolNames u := by
  rw [← Finmap.mem_keys, keys_contents, List.mem_toFinset] at h
  induction sym with
  | nil => simp [symbolNames] at h
  | cons s sym ih =>
    by_cases hs : s.name = some name
    · exact ⟨[], s, sym, rfl, hs, by simp [List.findIdx?_cons, hs], by simp [symbolNames]⟩
    · have hrest : name ∈ symbolNames sym := by
        rw [mem_symbolNames] at h ⊢
        simpa [hs] using h
      obtain ⟨u, x, v, rfl, hx, hfind, hu⟩ := ih hrest
      refine ⟨s :: u, x, v, rfl, hx, ?_, ?_⟩
      · simp [List.findIdx?_cons, hs, hfind]
      · rw [mem_symbolNames] at hu ⊢
        simpa [hs] using hu

theorem symbolExists_clear (h : Clear sym name) : symbolExists sym name = .ok (decide (name ∈ contents sym)) := by
  rw [symbolExists, symbolFind, findSymbol_clear h, Exec.ok_bind]
  by_cases hmem : name ∈ contents sym
  · obtain ⟨u, s, v, rfl, hs, hfind, -⟩ := exists_slot hmem
    rw [hfind]
    simp [hs, hmem]
    rfl
  · rw [findIdx?_absent hmem]
    simp [hmem]
    rfl

theorem symbolExists_hole (h : ¬ Clear sym name) : symbolExists sym name = .error .nullName := by
  rw [symbolExists, symbolFind, findSymbol_hole h]
  rfl

theorem symbolFind_clear (h : Clear sym name) :
    symbolFind sym name true = .ok (((contents sym).lookup name).elim .invalid .addr) := by
  rw [symbolFind, findSymbol_clear h, Exec.ok_bind, lookup_contents]
  by_cases hmem : name ∈ contents sym
  · obtain ⟨u, s, v, rfl, hs, hfind, hu⟩ := exists_slot hmem
    rw [hfind]
    simp [List.find?_append, find?_absent hu, hs]
    rfl
  · have hnone := findIdx?_absent hmem
    rw [hnone]
    rw [List.findIdx?_eq_none_iff] at hnone
    rw [List.find?_eq_none.mpr (by simpa using hnone)]
    rfl

theorem full_of_clear (h : Clear sym name) (habsent : name ∉ contents sym) : ∀ s ∈ sym, s.name ≠ none := by
  have hall : sym.takeWhile (·.name ≠ some name) = sym := by
    have hnone := findIdx?_absent habsent
    rw [List.findIdx?_eq_none_iff] at hnone
    rw [List.takeWhile_eq_self_iff]
    simpa using hnone
  rwa [Clear, hall] at h

theorem length_symbolNames (h : ∀ s ∈ sym, s.name ≠ none) : (symbolNames sym).length = sym.length := by
  induction sym with
  | nil => rfl
  | cons s sym ih =>
    obtain ⟨n, hn⟩ := Option.ne_none_iff_exists'.mp (h s (by simp))
    rw [symbolNames, List.filterMap_cons_some hn, List.length_cons, List.length_cons]
    exact congrArg (· + 1) (ih fun x hx => h x (by simp [hx]))

theorem symbolNames_removed (u v : List SymT) : symbolNames (u ++ ⟨none, 0⟩ :: v) = symbolNames u ++ symbolNames v :=
  symbolNames_append u _

theorem symbolNames_slot (u v : List SymT) (hs : s.name = some name) :
    symbolNames (u ++ s :: v) = symbolNames u ++ name :: symbolNames v := by
  rw [symbolNames_append]
  simp [symbolNames, hs]

theorem contents_removed (hnodup : (symbolNames (u ++ s :: v)).Nodup) (hs : s.name = some name) :
    contents (u ++ ⟨none, 0⟩ :: v) = (contents (u ++ s :: v)).erase name := by
  rw [symbolNames_slot u v hs, List.nodup_append, List.nodup_cons] at hnodup
  obtain ⟨-, ⟨hv, -⟩, happart⟩ := hnodup
  have hu : name ∉ symbolNames u := fun h => happart name h name (by simp) rfl
  apply Finmap.ext_lookup
  intro n
  by_cases hn : n = name
  · rw [hn, Finmap.lookup_erase, lookup_contents]
    simp [List.find?_append, find?_absent hu, find?_absent hv]
  · rw [Finmap.lookup_erase_ne hn, lookup_contents, lookup_contents]
    simp [List.find?_append, hs, Ne.symm hn]

end Lookup

section Runs

variable {sym : List SymT} {c : SymbolCall} {calls : List SymbolCall}

theorem symbolCall_clear (hlen : sym.length = symbolSlots) (hnodup : (symbolNames sym).Nodup) (h : Clear sym c.name) :
    ∃ sym', symbolCall sym c = .ok (sym', ((contents sym).call symbolSlots c).2) ∧
      contents sym' = ((contents sym).call symbolSlots c).1 ∧ sym'.length = symbolSlots ∧ (symbolNames sym').Nodup := by
  cases c with
  | add name address =>
    have hclear : Clear sym name := h
    rw [symbolCall, symbolAdd, symbolExists_clear hclear, SymbolMap.call]
    by_cases hmem : name ∈ contents sym
    · rw [if_neg fun h => h.1 hmem]
      exact ⟨sym, by simp [hmem]; rfl, rfl, hlen, hnodup⟩
    · have hfull := full_of_clear hclear hmem
      have hnext : symbolNext sym = none := by
        rw [symbolNext, List.findIdx?_eq_none_iff]
        simpa [Option.isSome_iff_ne_none] using hfull
      have hcard : ¬ (contents sym).keys.card < symbolSlots := by
        rw [card_contents hnodup, length_symbolNames hfull, hlen]
        exact Nat.lt_irrefl _
      rw [if_neg fun h => hcard h.2]
      exact ⟨sym, by simp [hmem, hnext]; rfl, rfl, hlen, hnodup⟩
  | remove name =>
    have hclear : Clear sym name := h
    rw [symbolCall, symbolRemove, symbolExists_clear hclear, SymbolMap.call]
    by_cases hmem : name ∈ contents sym
    · obtain ⟨u, s, v, rfl, hs, hfind, -⟩ := exists_slot hmem
      have hset : (u ++ s :: v).set u.length ⟨none, 0⟩ = u ++ ⟨none, 0⟩ :: v := by simp
      have hslot : symbolFind (u ++ s :: v) name false = .ok (.slot u.length) := by
        rw [symbolFind, findSymbol_clear hclear, hfind]
        rfl
      rw [if_pos hmem]
      refine ⟨u ++ ⟨none, 0⟩ :: v, ?_, contents_removed hnodup hs, by simpa using hlen, ?_⟩
      · simp only [hmem, decide_true, Exec.ok_bind, if_true, hslot, hset]
        rfl
      · rw [symbolNames_removed]
        rw [symbolNames_slot u v hs] at hnodup
        exact hnodup.sublist (List.Sublist.append_left (List.sublist_cons_self name _) _)
    · rw [if_neg hmem]
      exact ⟨sym, by simp [hmem]; rfl, rfl, hlen, hnodup⟩
  | doesExist name =>
    have hclear : Clear sym name := h
    exact ⟨sym, by rw [symbolCall, symbolExists_clear hclear]; rfl, rfl, hlen, hnodup⟩
  | find name =>
    have hclear : Clear sym name := h
    exact ⟨sym, by rw [symbolCall, symbolFind_clear hclear]; rfl, rfl, hlen, hnodup⟩

theorem symbolCall_hole (h : ¬ Clear sym c.name) : symbolCall sym c = .error .nullName := by
  have hexists : symbolExists sym c.name = .error .nullName := symbolExists_hole h
  have hfind : findSymbol c.name sym = .error .nullName := findSymbol_hole h
  cases c with
  | add name address =>
    change symbolExists sym name = _ at hexists
    rw [symbolCall, symbolAdd, hexists]
    rfl
  | remove name =>
    change symbolExists sym name = _ at hexists
    rw [symbolCall, symbolRemove, hexists]
    rfl
  | doesExist name =>
    change symbolExists sym name = _ at hexists
    rw [symbolCall, hexists]
    rfl
  | find name =>
    change findSymbol name sym = _ at hfind
    rw [symbolCall, symbolFind, hfind]
    rfl

theorem refinesMap_of_allClear (hlen : sym.length = symbolSlots) (hnodup : (symbolNames sym).Nodup)
    (h : AllClear sym calls) : RefinesMap sym calls := by
  induction calls generalizing sym with
  | nil => exact ⟨sym, rfl, rfl⟩
  | cons c calls ih =>
    obtain ⟨sym₁, hcall, hmap, hlen₁, hnodup₁⟩ := symbolCall_clear hlen hnodup h.1
    obtain ⟨sym₂, hcalls, hcontents⟩ := ih hlen₁ hnodup₁ (h.2 _ hcall)
    rw [hmap] at hcalls hcontents
    refine ⟨sym₂, ?_, hcontents⟩
    rw [symbolCalls, hcall, Exec.ok_bind]
    dsimp only
    rw [hcalls]
    rfl

theorem allClear_of_runs {r : List SymT × List SymbolAnswer} (h : symbolCalls sym calls = .ok r) :
    AllClear sym calls := by
  induction calls generalizing sym r with
  | nil => trivial
  | cons c calls ih =>
    rw [symbolCalls] at h
    obtain ⟨r₁, hcall, h⟩ := Exec.of_bind_eq_ok h
    obtain ⟨r₂, hcalls, -⟩ := Exec.of_bind_eq_ok h
    constructor
    · by_contra hhole
      rw [symbolCall_hole hhole] at hcall
      cases hcall
    · intro r hr
      rw [hcall, Except.ok.injEq] at hr
      exact hr ▸ ih hcalls

/-- The calls work as on a finite map exactly if each of them finds no free slot in front of the slot of its
name, and none at all if the name is not in the table. -/
theorem refinesMap_iff (sym : SymbolTable) (calls : List SymbolCall) :
    RefinesMap sym.1 calls ↔ AllClear sym.1 calls := by
  constructor
  · intro ⟨_, hrun, _⟩
    exact allClear_of_runs hrun
  · exact refinesMap_of_allClear sym.2.1 sym.2.2

/-- The table without symbols, to which one is added. -/
theorem not_refinesMap_empty :
    ¬ RefinesMap (List.replicate symbolSlots ⟨none, 0⟩) [.add ⟨[97], by decide⟩ 4096] := by
  intro ⟨_, hrun, _⟩
  have hclear := (allClear_of_runs hrun).1
  have hfirst : List.replicate symbolSlots (⟨none, 0⟩ : SymT) = ⟨none, 0⟩ :: List.replicate 1023 ⟨none, 0⟩ := rfl
  rw [hfirst, clear_cons] at hclear
  cases hclear with
  | inl h => cases h
  | inr h => exact h.1 rfl

end Runs

end KernelTest.Boot
