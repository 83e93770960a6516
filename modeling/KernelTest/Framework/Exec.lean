import Mathlib.Logic.Basic

/-!
# Imperative programs with faults

A program threads a state and either returns or stops with a fault. The rules below run a program
one step at a time, and take the run of a sequence apart again.
-/

namespace KernelTest

/-- A program over the state `σ` that returns an `α` or stops with a fault `ε`. -/
abbrev Exec (ε σ α : Type) : Type := StateT σ (Except ε) α

namespace Exec

variable {ε σ α β : Type}

theorem bind_ok {x : Exec ε σ α} {f : α → Exec ε σ β} {s s' : σ} {a : α}
    (h : x s = .ok (a, s')) : (x >>= f) s = f a s' := by
  change (x s >>= fun p => f p.1 p.2) = f a s'
  rw [h]
  rfl

theorem bind_error {x : Exec ε σ α} {f : α → Exec ε σ β} {s : σ} {e : ε}
    (h : x s = .error e) : (x >>= f) s = .error e := by
  change (x s >>= fun p => f p.1 p.2) = .error e
  rw [h]
  rfl

theorem bind_congr {x y : Exec ε σ α} {f : α → Exec ε σ β} {s : σ} (h : x s = y s) :
    (x >>= f) s = (y >>= f) s := by
  change (x s >>= fun p => f p.1 p.2) = (y s >>= fun p => f p.1 p.2)
  rw [h]

theorem of_bind_ok {x : Exec ε σ α} {f : α → Exec ε σ β} {s s'' : σ} {b : β}
    (h : (x >>= f) s = .ok (b, s'')) :
    ∃ a s', x s = .ok (a, s') ∧ f a s' = .ok (b, s'') := by
  cases hx : x s with
  | error e =>
    rw [bind_error hx] at h
    cases h
  | ok p => exact ⟨p.1, p.2, rfl, by rwa [bind_ok hx] at h⟩

theorem ok_bind {f : α → Except ε β} (a : α) : (Except.ok a >>= f) = f a := rfl

theorem error_bind {f : α → Except ε β} (e : ε) : (Except.error e >>= f) = .error e := rfl

theorem of_bind_eq_ok {x : Except ε α} {f : α → Except ε β} {b : β} (h : (x >>= f) = .ok b) :
    ∃ a, x = .ok a ∧ f a = .ok b := by
  cases x with
  | error e => cases h
  | ok a => exact ⟨a, rfl, h⟩

@[simp] theorem pure_apply (a : α) (s : σ) : (pure a : Exec ε σ α) s = .ok (a, s) := rfl

@[simp] theorem get_bind (f : σ → Exec ε σ β) (s : σ) : (get >>= f) s = f s s := rfl

@[simp] theorem modify_bind (g : σ → σ) (f : PUnit → Exec ε σ β) (s : σ) :
    (modify g >>= f) s = f ⟨⟩ (g s) := rfl

@[simp] theorem modify_apply (g : σ → σ) (s : σ) :
    (modify g : Exec ε σ PUnit) s = .ok (⟨⟩, g s) := rfl

@[simp] theorem throw_apply (e : ε) (s : σ) : (throw e : Exec ε σ α) s = .error e := rfl

@[simp] theorem throw_bind (e : ε) (f : α → Exec ε σ β) (s : σ) :
    (throw e >>= f) s = .error e := rfl

/-- Stop with the fault `e` unless `p` holds. -/
def require (e : ε) (p : Prop) [Decidable p] : Exec ε σ PUnit :=
  if p then pure ⟨⟩ else throw e

theorem require_bind_of {e : ε} {p : Prop} [Decidable p] {f : PUnit → Exec ε σ β} {s : σ}
    (h : p) : (require e p >>= f) s = f ⟨⟩ s := by
  rw [require, if_pos h]
  rfl

theorem require_bind_of_not {e : ε} {p : Prop} [Decidable p] {f : PUnit → Exec ε σ β} {s : σ}
    (h : ¬ p) : (require e p >>= f) s = .error e := by
  rw [require, if_neg h]
  rfl

theorem of_require_bind_ok {e : ε} {p : Prop} [Decidable p] {f : PUnit → Exec ε σ β} {s : σ}
    {r : β × σ} (h : (require e p >>= f) s = .ok r) : p ∧ f ⟨⟩ s = .ok r := by
  by_cases hp : p
  · rw [require_bind_of hp] at h
    exact ⟨hp, h⟩
  · rw [require_bind_of_not hp] at h
    cases h

theorem bind_ne_error {x : Exec ε σ α} {f : α → Exec ε σ β} {s : σ} {e : ε}
    (hx : x s ≠ .error e) (hf : ∀ a t, x s = .ok (a, t) → f a t ≠ .error e) :
    (x >>= f) s ≠ .error e := by
  cases h : x s with
  | error e' =>
    rw [bind_error h]
    intro heq
    cases heq
    exact hx h
  | ok p =>
    rw [bind_ok h]
    exact hf p.1 p.2 h

theorem require_bind_ne_error {e e' : ε} {p : Prop} [Decidable p] {f : PUnit → Exec ε σ β} {s : σ}
    (hne : e ≠ e') (hf : p → f ⟨⟩ s ≠ .error e') : (require e p >>= f) s ≠ .error e' := by
  by_cases hp : p
  · rw [require_bind_of hp]
    exact hf hp
  · rw [require_bind_of_not hp]
    intro heq
    cases heq
    exact hne rfl

/-- `for(i = start; i < start + n; i++) body(i)`. -/
def forFrom (body : Nat → Exec ε σ PUnit) : Nat → Nat → Exec ε σ PUnit
  | _, 0 => pure ⟨⟩
  | start, n + 1 => do
    body start
    forFrom body (start + 1) n

theorem forFrom_invariant {body : Nat → Exec ε σ PUnit} {I : Nat → σ → Prop}
    {start n : Nat} {s : σ} (h0 : I start s)
    (hstep : ∀ i t, start ≤ i → i < start + n → I i t →
      ∃ t', body i t = .ok (⟨⟩, t') ∧ I (i + 1) t') :
    ∃ s', forFrom body start n s = .ok (⟨⟩, s') ∧ I (start + n) s' := by
  induction n generalizing start s with
  | zero => exact ⟨s, rfl, h0⟩
  | succ n ih =>
    obtain ⟨t, hbody, ht⟩ := hstep start s (Nat.le_refl start) (by omega) h0
    obtain ⟨s', hrest, hs'⟩ := ih ht fun i u hi hi' => hstep i u (by omega) (by omega)
    refine ⟨s', ?_, ?_⟩
    · rw [forFrom, bind_ok hbody]
      exact hrest
    · rwa [Nat.add_right_comm] at hs'

/-- From `s` the program returns with a result and a state that satisfy `Q`, or stops with one of
the faults that `stops` allows. -/
@[irreducible] def Returns (stops : ε → Prop) (x : Exec ε σ α) (s : σ) (Q : α → σ → Prop) : Prop :=
  match x s with
  | .ok (a, t) => Q a t
  | .error e => stops e

section Returns

variable {stops : ε → Prop} {x : Exec ε σ α} {f : α → Exec ε σ β} {s t : σ} {a : α}
  {Q : α → σ → Prop} {R : β → σ → Prop}

theorem returns_of_ok (h : x s = .ok (a, t)) (hQ : Q a t) : Returns stops x s Q := by
  rw [Returns, h]
  exact hQ

theorem Returns.ok (h : Returns stops x s Q) (hx : x s = .ok (a, t)) : Q a t := by
  rw [Returns, hx] at h
  exact h

theorem Returns.error (h : Returns stops x s Q) {e : ε} (hx : x s = .error e) : stops e := by
  rw [Returns, hx] at h
  exact h

theorem Returns.mono {stops' : ε → Prop} {Q' : α → σ → Prop} (h : Returns stops x s Q)
    (hstops : ∀ e, stops e → stops' e) (hQ : ∀ a t, Q a t → Q' a t) : Returns stops' x s Q' := by
  rw [Returns] at h ⊢
  split
  · next hx =>
    rw [hx] at h
    exact hQ _ _ h
  · next hx =>
    rw [hx] at h
    exact hstops _ h

theorem Returns.bind (h : Returns stops x s Q)
    (hf : ∀ a t, Q a t → Returns stops (f a) t R) : Returns stops (x >>= f) s R := by
  cases hx : x s with
  | error e =>
    rw [Returns, bind_error hx]
    exact h.error hx
  | ok p =>
    have hrest := hf p.1 p.2 (h.ok hx)
    rw [Returns] at hrest ⊢
    rwa [bind_ok (show x s = .ok (p.1, p.2) from hx)]

theorem returns_bind_of_ok (h : x s = .ok (a, t)) (hf : Returns stops (f a) t R) :
    Returns stops (x >>= f) s R := by
  rw [Returns] at hf ⊢
  rwa [bind_ok h]

@[simp] theorem returns_pure : Returns stops (pure a) s Q ↔ Q a s := by
  rw [Returns]
  rfl

@[simp] theorem returns_get_bind {f : σ → Exec ε σ β} :
    Returns stops (get >>= f) s R ↔ Returns stops (f s) s R := by
  rw [Returns, Returns, get_bind]

@[simp] theorem returns_modify_bind {g : σ → σ} {f : PUnit → Exec ε σ β} :
    Returns stops (modify g >>= f) s R ↔ Returns stops (f ⟨⟩) (g s) R := by
  rw [Returns, Returns, modify_bind]

@[simp] theorem returns_modify {g : σ → σ} {Q : PUnit → σ → Prop} :
    Returns stops (modify g) s Q ↔ Q ⟨⟩ (g s) := by
  rw [Returns, modify_apply]

theorem returns_require_bind {e : ε} {p : Prop} [Decidable p] {f : PUnit → Exec ε σ β} (hp : p)
    (h : Returns stops (f ⟨⟩) s R) : Returns stops (require e p >>= f) s R := by
  rw [Returns] at h ⊢
  rwa [require_bind_of hp]

theorem returns_require_bind_iff {e : ε} {p : Prop} [Decidable p] {f : PUnit → Exec ε σ β} :
    Returns stops (require e p >>= f) s R ↔
      (p → Returns stops (f ⟨⟩) s R) ∧ (¬ p → stops e) := by
  by_cases hp : p
  · rw [Returns, Returns, require_bind_of hp]
    simp [hp]
  · rw [Returns, Returns, require_bind_of_not hp]
    simp [hp]

@[simp] theorem returns_throw {e : ε} : Returns stops (throw e : Exec ε σ α) s Q ↔ stops e := by
  rw [Returns, throw_apply]

theorem returns_forFrom {body : Nat → Exec ε σ PUnit} {I : Nat → σ → Prop} {start n : Nat}
    (h0 : I start s) (hstep : ∀ i t, start ≤ i → i < start + n → I i t →
      Returns stops (body i) t fun _ => I (i + 1)) :
    Returns stops (forFrom body start n) s fun _ => I (start + n) := by
  induction n generalizing start s with
  | zero => exact returns_pure.2 h0
  | succ n ih =>
    rw [forFrom]
    refine (hstep start s (Nat.le_refl start) (by omega) h0).bind fun _ t ht => ?_
    rw [show start + (n + 1) = start + 1 + n by omega]
    exact ih ht fun i u hi hi' => hstep i u (by omega) (by omega)

end Returns

def lift (x : Except ε α) : Exec ε σ α := fun s => x.map fun a => (a, s)

theorem lift_bind_ok {x : Except ε α} {f : α → Exec ε σ β} {s : σ} {a : α} (h : x = .ok a) :
    (lift x >>= f) s = f a s := by
  subst h
  rfl

theorem of_lift_bind_ok {x : Except ε α} {f : α → Exec ε σ β} {s : σ} {r : β × σ}
    (h : (lift x >>= f) s = .ok r) : ∃ a, x = .ok a ∧ f a s = .ok r := by
  cases x with
  | error e => cases h
  | ok a => exact ⟨a, rfl, h⟩

def Keeps (P : σ → Prop) (x : Exec ε σ α) : Prop := ∀ s a t, P s → x s = .ok (a, t) → P t

section Keeps

variable {P : σ → Prop} {x : Exec ε σ α} {f : α → Exec ε σ β}

theorem keeps_pure {a : α} : Keeps P (pure a : Exec ε σ α) := by
  intro s b t h hrun
  cases hrun
  exact h

theorem keeps_throw {e : ε} : Keeps P (throw e : Exec ε σ α) := by
  intro s a t _ hrun
  cases hrun

theorem keeps_modify {g : σ → σ} (h : ∀ s, P s → P (g s)) : Keeps P (modify g : Exec ε σ PUnit) := by
  intro s a t hs hrun
  cases hrun
  exact h s hs

theorem keeps_lift {x : Except ε α} : Keeps P (lift x : Exec ε σ α) := by
  intro s a t h hrun
  cases x with
  | error e => cases hrun
  | ok b =>
    cases hrun
    exact h

theorem Keeps.bind (hx : Keeps P x) (hf : ∀ a, Keeps P (f a)) : Keeps P (x >>= f) := by
  intro s b u h hrun
  obtain ⟨a, t, hfirst, hrest⟩ := of_bind_ok hrun
  exact hf a t b u (hx s a t h hfirst) hrest

end Keeps

end Exec

end KernelTest
