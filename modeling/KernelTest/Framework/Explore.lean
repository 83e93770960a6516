import Mathlib.Data.List.Perm.Basic
import Mathlib.Data.List.Nodup
import Mathlib.Data.List.Pairwise

/-!
# Exploration without a record of the visited nodes

A recursive search that goes through the items of a node, yields something at each and goes on into the node an
item leads to. It comes to a node once along each route, and it ends where no route is infinite.
-/

namespace KernelTest.Explore

variable {V I H : Type}

/-- The results of the calls for a list of items one after another, when each call has one. -/
def collect (f : I → Option (List H)) : List I → Option (List H)
  | [] => some []
  | i :: is => (f i).bind fun h => (collect f is).map (h ++ ·)

theorem collect_eq_some (f : I → Option (List H)) (l : List I) (h : List H) :
    collect f l = some h ↔ (∀ i ∈ l, (f i).isSome) ∧ h = l.flatMap fun i => (f i).getD [] := by
  induction l generalizing h with
  | nil => exact ⟨fun heq => ⟨fun i hi => by (cases hi), (Option.some.inj heq).symm⟩, fun ⟨_, heq⟩ => heq ▸ rfl⟩
  | cons i is ih =>
    cases hi : f i with
    | none => simp [collect, hi]
    | some first =>
      simp only [collect, hi, Option.bind_some, Option.map_eq_some_iff, ih, List.forall_mem_cons,
        List.flatMap_cons, Option.getD_some, Option.isSome_some, true_and]
      constructor
      · rintro ⟨_, ⟨hall, rfl⟩, rfl⟩
        exact ⟨hall, rfl⟩
      · rintro ⟨hall, rfl⟩
        exact ⟨_, ⟨hall, rfl⟩, rfl⟩

theorem collect_congr {f g : I → Option (List H)} {l : List I} (h : ∀ i ∈ l, f i = g i) :
    collect f l = collect g l := by
  induction l with
  | nil => rfl
  | cons i is ih =>
    obtain ⟨hi, his⟩ := List.forall_mem_cons.mp h
    rw [collect, collect, hi, ih his]

theorem collect_append (f : I → Option (List H)) (l l' : List I) :
    collect f (l ++ l') = (collect f l).bind fun h => (collect f l').map (h ++ ·) := by
  induction l with
  | nil =>
    cases hl : collect f l' <;> simp [collect, hl]
  | cons i is ih =>
    rw [List.cons_append, collect, collect, ih]
    cases f i <;> cases collect f is <;> cases collect f l' <;> simp

theorem collect_flatMap {J : Type} (f : I → Option (List H)) (g : J → List I) (l : List J) :
    collect f (l.flatMap g) = collect (fun j => collect f (g j)) l := by
  induction l with
  | nil => rfl
  | cons j js ih => rw [List.flatMap_cons, collect_append, ih, collect]

theorem collect_map {J : Type} (f : I → Option (List H)) (g : J → I) (l : List J) :
    collect f (l.map g) = collect (fun j => f (g j)) l := by
  induction l with
  | nil => rfl
  | cons j js ih => rw [List.map_cons, collect, collect, ih]

theorem collect_filter (f : I → Option (List H)) (p : I → Bool) (l : List I) :
    collect f (l.filter p) = collect (fun i => if p i then f i else some []) l := by
  induction l with
  | nil => rfl
  | cons i is ih =>
    cases hp : p i with
    | true => rw [List.filter_cons_of_pos hp, collect, collect, ih, if_pos hp]
    | false =>
      rw [List.filter_cons_of_neg (by rw [hp]; decide), collect, if_neg (by rw [hp]; decide), ih]
      simp

variable (items : V → List I) (next : V → I → Option V) (out : V → I → List H)

/-- What the exploration from a node yields, and nothing where it goes deeper than the given depth. -/
def explore : Nat → V → Option (List H)
  | 0, _ => none
  | depth + 1, v => collect (fun i => match next v i with
    | none => some (out v i)
    | some w => (explore depth w).map (out v i ++ ·)) (items v)

/-- The items to take, one after another, from one node to another. -/
inductive Route : V → List I → V → Prop
  | nil (v : V) : Route v [] v
  | cons {v w u : V} {i : I} {p : List I} (hi : i ∈ items v) (hnext : next v i = some w) (rest : Route w p u) :
    Route v (i :: p) u

def Leads (w v : V) : Prop := ∃ i ∈ items v, next v i = some w

/-- The routes from a node that are shorter than a depth, with the nodes they end at. -/
def routes : Nat → V → List (List I × V)
  | 0, _ => []
  | depth + 1, v => ([], v) :: (items v).flatMap fun i => match next v i with
    | none => []
    | some w => (routes depth w).map fun r => (i :: r.1, r.2)

variable {items next out}

theorem explore_mono {depth d : Nat} {v : V} {h : List H} (hv : explore items next out depth v = some h)
    (hle : depth ≤ d) : explore items next out d v = some h := by
  induction depth generalizing v h d with
  | zero => cases hv
  | succ depth ih =>
    obtain ⟨d, rfl⟩ : ∃ k, d = k + 1 := ⟨d - 1, by omega⟩
    have hall := ((collect_eq_some _ _ _).mp hv).1
    rw [← hv, explore, explore]
    refine collect_congr fun i hi => ?_
    have hsome := hall i hi
    cases hnext : next v i with
    | none => rfl
    | some w =>
      simp only [hnext, Option.isSome_map] at hsome ⊢
      obtain ⟨h', hw⟩ := Option.isSome_iff_exists.mp hsome
      rw [hw, ih hw (by omega)]

theorem exists_explore_iff (v : V) :
    (∃ depth h, explore items next out depth v = some h) ↔ Acc (Leads items next) v := by
  constructor
  · rintro ⟨depth, h, hv⟩
    induction depth generalizing v h with
    | zero => cases hv
    | succ depth ih =>
      refine ⟨v, fun w ⟨i, hi, hnext⟩ => ?_⟩
      have hsome := ((collect_eq_some _ _ _).mp hv).1 i hi
      simp only [hnext, Option.isSome_map] at hsome
      obtain ⟨h', hw⟩ := Option.isSome_iff_exists.mp hsome
      exact ih w h' hw
  · intro hv
    induction hv with
    | intro v _ ih =>
      -- one depth is enough for all the items of the node
      have hdepth (l : List I) (hl : l ⊆ items v) : ∃ d, ∀ i ∈ l, ∀ w, next v i = some w →
          (explore items next out d w).isSome := by
        induction l with
        | nil => exact ⟨0, fun i hi => by cases hi⟩
        | cons i is ihl =>
          obtain ⟨d, hd⟩ := ihl fun j hj => hl (.tail _ hj)
          cases hnext : next v i with
          | none =>
            refine ⟨d, fun j hj w hw => ?_⟩
            rcases List.mem_cons.mp hj with rfl | hj
            · rw [hnext] at hw; cases hw
            · exact hd j hj w hw
          | some u =>
            obtain ⟨d', h', hu⟩ := ih u ⟨i, hl (.head _), hnext⟩
            refine ⟨max d d', fun j hj w hw => ?_⟩
            rcases List.mem_cons.mp hj with rfl | hj
            · obtain rfl := Option.some.inj (hnext.symm.trans hw)
              rw [explore_mono hu (Nat.le_max_right _ _)]
              rfl
            · obtain ⟨h'', hw'⟩ := Option.isSome_iff_exists.mp (hd j hj w hw)
              rw [explore_mono hw' (Nat.le_max_left _ _)]
              rfl
      obtain ⟨d, hd⟩ := hdepth (items v) fun _ h => h
      refine ⟨d + 1, _, (collect_eq_some _ _ _).mpr ⟨fun i hi => ?_, rfl⟩⟩
      cases hnext : next v i with
      | none => rfl
      | some w => simpa [hnext] using hd i hi w hnext

theorem not_acc_of_leads {v : V} (h : Leads items next v v) : ¬ Acc (Leads items next) v := by
  intro hv
  induction hv with
  | intro v _ ih => exact ih v h h

theorem explore_perm {depth : Nat} {v : V} {h : List H} (hv : explore items next out depth v = some h) :
    h.Perm ((routes items next depth v).flatMap fun r => (items r.2).flatMap (out r.2)) := by
  induction depth generalizing v h with
  | zero => cases hv
  | succ depth ih =>
    obtain ⟨hall, rfl⟩ := (collect_eq_some _ _ _).mp hv
    rw [routes, List.flatMap_cons, List.flatMap_assoc]
    refine .trans (List.Perm.flatMap_left _ fun i hi => ?_) (List.flatMap_append_perm _ _ _).symm
    have hsome := hall i hi
    cases hnext : next v i with
    | none => simp
    | some w =>
      simp only [hnext, Option.isSome_map] at hsome ⊢
      obtain ⟨h', hw⟩ := Option.isSome_iff_exists.mp hsome
      rw [hw, Option.map_some, Option.getD_some, List.flatMap_map]
      exact (ih hw).append_left _

theorem route_of_mem_routes {depth : Nat} {v w : V} {p : List I} (h : (p, w) ∈ routes items next depth v) :
    Route items next v p w := by
  induction depth generalizing v p with
  | zero => cases h
  | succ depth ih =>
    rcases List.mem_cons.mp h with heq | h
    · obtain ⟨rfl, rfl⟩ := Prod.mk.inj heq
      exact .nil _
    · obtain ⟨i, hi, h⟩ := List.mem_flatMap.mp h
      cases hnext : next v i with
      | none => rw [hnext] at h; cases h
      | some u =>
        rw [hnext] at h
        obtain ⟨⟨q, x⟩, hq, heq⟩ := List.mem_map.mp h
        cases heq
        exact .cons hi hnext (ih hq)

theorem mem_routes {depth : Nat} {v w : V} {p : List I} {h : List H}
    (hv : explore items next out depth v = some h) :
    (p, w) ∈ routes items next depth v ↔ Route items next v p w := by
  refine ⟨route_of_mem_routes, fun hroute => ?_⟩
  induction hroute generalizing depth h with
  | nil v =>
    cases depth with
    | zero => cases hv
    | succ => exact List.mem_cons_self
  | @cons v w u i p hi hnext _ ih =>
    cases depth with
    | zero => cases hv
    | succ depth =>
      have hsome := ((collect_eq_some _ _ _).mp hv).1 i hi
      simp only [hnext, Option.isSome_map] at hsome
      obtain ⟨h', hw⟩ := Option.isSome_iff_exists.mp hsome
      refine .tail _ (List.mem_flatMap.mpr ⟨i, hi, ?_⟩)
      rw [hnext]
      exact List.mem_map.mpr ⟨(p, u), ih hw, rfl⟩

theorem nodup_routes (hitems : ∀ v, (items v).Nodup) (depth : Nat) (v : V) :
    (routes items next depth v).Nodup := by
  induction depth generalizing v with
  | zero => exact .nil
  | succ depth ih =>
    have hfirst (i : I) (r : List I × V)
        (hr : r ∈ match next v i with
          | none => []
          | some w => (routes items next depth w).map fun s : List I × V => (i :: s.1, s.2)) : r.1.head? = some i := by
      cases hnext : next v i with
      | none => rw [hnext] at hr; cases hr
      | some w =>
        rw [hnext] at hr
        obtain ⟨q, -, rfl⟩ := List.mem_map.mp hr
        rfl
    refine List.nodup_cons.mpr ⟨fun hmem => ?_, List.nodup_flatMap.mpr ⟨fun i _ => ?_, ?_⟩⟩
    · obtain ⟨i, -, hr⟩ := List.mem_flatMap.mp hmem
      cases hfirst i _ hr
    · cases next v i with
      | none => exact .nil
      | some w =>
        refine (ih w).map fun r s heq => ?_
        obtain ⟨h1, h2⟩ := Prod.mk.inj heq
        exact Prod.ext (List.cons.inj h1).2 h2
    · refine (hitems v).imp fun {i j} hne r hr hs => hne ?_
      exact Option.some.inj ((hfirst i r hr).symm.trans (hfirst j r hs))

theorem mem_explore {depth : Nat} {v : V} {h : List H} (hv : explore items next out depth v = some h) (x : H) :
    x ∈ h ↔ ∃ p w, Route items next v p w ∧ ∃ i ∈ items w, x ∈ out w i := by
  simp only [(explore_perm hv).mem_iff, List.mem_flatMap, Prod.exists, mem_routes hv]

theorem nodup_explore (hitems : ∀ v, (items v).Nodup) {depth : Nat} {v : V} {h : List H}
    (hv : explore items next out depth v = some h) :
    h.Nodup ↔ (∀ p w, Route items next v p w → ((items w).flatMap (out w)).Nodup) ∧
      ∀ p w q u, Route items next v p w → Route items next v q u → (p, w) ≠ (q, u) →
        ((items w).flatMap (out w)).Disjoint ((items u).flatMap (out u)) := by
  rw [(explore_perm hv).nodup_iff, List.nodup_flatMap]
  refine and_congr ⟨fun hall p w hp => hall (p, w) ((mem_routes hv).mpr hp), fun hall r hr =>
    hall r.1 r.2 ((mem_routes hv).mp hr)⟩ ⟨fun hpair p w q u hp hq hne => ?_, fun hall => ?_⟩
  · have : Std.Symm (fun r s : List I × V =>
        ((items r.2).flatMap (out r.2)).Disjoint ((items s.2).flatMap (out s.2))) :=
      ⟨fun _ _ hd _ hs hr => hd hr hs⟩
    exact hpair.forall ((mem_routes hv).mpr hp) ((mem_routes hv).mpr hq) hne
  · exact (nodup_routes hitems depth v).pairwise_of_forall_ne fun r hr s hs hne =>
      hall r.1 r.2 s.1 s.2 ((mem_routes hv).mp hr) ((mem_routes hv).mp hs) hne

end KernelTest.Explore
