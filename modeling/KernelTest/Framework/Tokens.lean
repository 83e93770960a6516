import Mathlib.Data.List.Basic

/-!
# Tokens of a separated list

`tokens sep s` are the non-empty pieces between the occurrences of `sep` in `s`, in order, and
`joined sep ts` puts a separator in front of every piece. `fields sep s` are the pieces between the
maximal runs of separators, of which the first and the last one may be empty.
-/

namespace KernelTest

variable {α : Type} {sep : α} {s t : List α} {ts : List (List α)}

/-- Every piece with a separator in front of it. -/
def joined (sep : α) (ts : List (List α)) : List α := ts.flatMap (sep :: ·)

@[simp] theorem joined_nil : joined sep [] = [] := rfl

@[simp] theorem joined_cons : joined sep (t :: ts) = sep :: t ++ joined sep ts := rfl

@[simp] theorem joined_append (ts us : List (List α)) :
    joined sep (ts ++ us) = joined sep ts ++ joined sep us := List.flatMap_append

variable [DecidableEq α]

/-- The non-empty pieces of `s` between separators. -/
def tokens (sep : α) (s : List α) : List (List α) := (s.splitOn sep).filter (· ≠ [])

@[simp] theorem tokens_nil : tokens sep [] = [] := rfl

theorem tokens_append_cons (s t : List α) :
    tokens sep (s ++ sep :: t) = tokens sep s ++ tokens sep t := by
  rw [tokens, List.splitOn_append_cons_self, List.filter_append]
  rfl

@[simp] theorem tokens_cons_sep : tokens sep (sep :: s) = tokens sep s :=
  tokens_append_cons [] s

theorem tokens_of_notMem (h : sep ∉ s) (hs : s ≠ []) : tokens sep s = [s] := by
  simp [tokens, List.splitOn_eq_singleton h, hs]

theorem tokens_append_sep (h : sep ∉ s) (hs : s ≠ []) :
    tokens sep (s ++ sep :: t) = s :: tokens sep t := by
  rw [tokens_append_cons, tokens_of_notMem h hs]
  rfl

theorem tokens_dropWhile (s : List α) : tokens sep (s.dropWhile (· = sep)) = tokens sep s := by
  induction s with
  | nil => rfl
  | cons c s ih =>
    by_cases hc : c = sep
    · simp [hc, ih]
    · simp [hc]

theorem length_tokens_le (s : List α) : (tokens sep s).length ≤ s.length + 1 := by
  have hsplit : (s.splitOn sep).length ≤ s.length + 1 := by
    induction s with
    | nil => simp
    | cons c s ih =>
      rw [List.splitOn_cons_eq_if_modifyHead]
      split
      · simpa using ih
      · simp only [List.length_modifyHead, List.length_cons]
        omega
  exact Nat.le_trans (List.length_filter_le _ _) hsplit

theorem tokens_cases (sep : α) (s : List α) :
    (s.dropWhile (· = sep) = [] ∧ tokens sep s = []) ∨
      ∃ t, t ≠ [] ∧ sep ∉ t ∧ ((s.dropWhile (· = sep) = t ∧ tokens sep s = [t]) ∨
        ∃ u, s.dropWhile (· = sep) = t ++ sep :: u ∧ tokens sep s = t :: tokens sep u) := by
  rw [← tokens_dropWhile s]
  cases hv : s.dropWhile (· = sep) with
  | nil => exact Or.inl ⟨rfl, rfl⟩
  | cons c v =>
    right
    have hc : c ≠ sep := by
      have hhead := List.head?_dropWhile_not (· = sep) s
      rw [hv] at hhead
      simpa using hhead
    by_cases hmem : sep ∈ c :: v
    · obtain ⟨t, u, htu, ht⟩ := List.eq_append_cons_of_mem hmem
      have hne : t ≠ [] := by
        rintro rfl
        exact hc (List.cons.inj htu).1
      exact ⟨t, hne, ht, Or.inr ⟨u, htu, by rw [htu, tokens_append_sep ht hne]⟩⟩
    · exact ⟨c :: v, by simp, hmem, Or.inl ⟨rfl, tokens_of_notMem hmem (by simp)⟩⟩

theorem mem_tokens (h : t ∈ tokens sep s) : t ≠ [] ∧ sep ∉ t ∧ t ⊆ s := by
  induction hn : s.length using Nat.strongRecOn generalizing s with
  | ind n ih =>
    by_cases hmem : sep ∈ s
    · obtain ⟨a, b, rfl⟩ := List.append_of_mem hmem
      rw [tokens_append_cons, List.mem_append] at h
      rcases h with h | h
      · obtain ⟨hne, hsep, hsub⟩ := ih a.length (by simp [← hn]) h rfl
        exact ⟨hne, hsep, fun c hc => by simp [hsub hc]⟩
      · obtain ⟨hne, hsep, hsub⟩ := ih b.length (by simp [← hn]; omega) h rfl
        exact ⟨hne, hsep, fun c hc => by simp [hsub hc]⟩
    · by_cases hs : s = []
      · simp [hs] at h
      · rw [tokens_of_notMem hmem hs, List.mem_singleton] at h
        exact ⟨h ▸ hs, h ▸ hmem, h ▸ List.Subset.refl s⟩

theorem tokens_joined (h : ∀ t ∈ ts, t ≠ [] ∧ sep ∉ t) : tokens sep (joined sep ts) = ts := by
  induction ts with
  | nil => rfl
  | cons t ts ih =>
    have ht := h t (by simp)
    have hrest := ih fun u hu => h u (by simp [hu])
    rw [joined_cons, List.cons_append, tokens_cons_sep]
    cases ts with
    | nil => simpa using tokens_of_notMem ht.2 ht.1
    | cons u us =>
      rw [joined_cons, List.cons_append, tokens_cons_sep] at hrest
      rw [joined_cons, List.cons_append, tokens_append_sep ht.2 ht.1, hrest]

def fields (sep : α) : List α → List (List α)
  | [] => [[]]
  | c :: s =>
    if c = sep then if s.head? = some sep then fields sep s else [] :: fields sep s
    else (fields sep s).modifyHead (c :: ·)

theorem fields_cons_sep (s : List α) :
    fields sep (sep :: s) = [] :: fields sep (s.dropWhile (· = sep)) := by
  induction s with
  | nil => simp [fields]
  | cons c s ih =>
    rw [fields, if_pos rfl]
    by_cases hc : c = sep
    · subst hc
      simp [ih]
    · simp [hc]

theorem fields_of_notMem (h : sep ∉ s) : fields sep s = [s] := by
  induction s with
  | nil => rfl
  | cons c s ih =>
    rw [List.mem_cons, not_or] at h
    rw [fields, if_neg (Ne.symm h.1), ih h.2]
    rfl

theorem fields_append_cons (h : sep ∉ s) (t : List α) :
    fields sep (s ++ sep :: t) = s :: fields sep (t.dropWhile (· = sep)) := by
  induction s with
  | nil => exact fields_cons_sep t
  | cons c s ih =>
    rw [List.mem_cons, not_or] at h
    rw [List.cons_append, fields, if_neg (Ne.symm h.1), ih h.2]
    rfl

theorem fields_induction (sep : α) {P : List α → Prop} (last : ∀ s, sep ∉ s → P s)
    (next : ∀ s t, sep ∉ s → P (t.dropWhile (· = sep)) → P (s ++ sep :: t)) (s : List α) : P s := by
  induction hn : s.length using Nat.strongRecOn generalizing s with
  | ind n ih =>
    by_cases hmem : sep ∈ s
    · obtain ⟨a, t, rfl, ha⟩ := List.eq_append_cons_of_mem hmem
      apply next a t ha
      apply ih (t.dropWhile (· = sep)).length _ _ rfl
      have hle := (List.dropWhile_sublist (· = sep) (l := t)).length_le
      rw [List.length_append, List.length_cons] at hn
      omega
    · exact last s hmem

theorem length_fields_pos (sep : α) (s : List α) : 0 < (fields sep s).length := by
  induction s using fields_induction sep with
  | last s hs => simp [fields_of_notMem hs]
  | next s t hs => simp [fields_append_cons hs]

theorem filter_fields (s : List α) : (fields sep s).filter (· ≠ []) = tokens sep s := by
  induction s using fields_induction sep with
  | last s hs =>
    rw [fields_of_notMem hs]
    by_cases hnil : s = []
    · simp [hnil]
    · simp [hnil, tokens_of_notMem hs hnil]
  | next s t hs ih =>
    rw [tokens_dropWhile] at ih
    rw [fields_append_cons hs, tokens_append_cons]
    by_cases hnil : s = []
    · simpa [hnil] using ih
    · rw [tokens_of_notMem hs hnil, List.filter_cons_of_pos (by simpa using hnil), ih]
      rfl

private theorem head?_dropWhile_sep (t : List α) : (t.dropWhile (· = sep)).head? ≠ some sep := by
  have hhead := List.head?_dropWhile_not (· = sep) t
  intro h
  simp [h] at hhead

private theorem getLast?_dropWhile_sep (t : List α) :
    (sep :: t).getLast? = some sep ↔
      t.dropWhile (· = sep) = [] ∨ (t.dropWhile (· = sep)).getLast? = some sep := by
  induction t with
  | nil => simp
  | cons c t ih =>
    by_cases hc : c = sep
    · subst hc
      simpa using ih
    · simp [hc]

theorem nil_mem_fields (s : List α) :
    [] ∈ fields sep s ↔ s = [] ∨ s.head? = some sep ∨ s.getLast? = some sep := by
  induction s using fields_induction sep with
  | last s hs =>
    rw [fields_of_notMem hs, List.mem_singleton, eq_comm]
    have hhead : s.head? ≠ some sep := fun h => hs (List.mem_of_head? h)
    have hlast : s.getLast? ≠ some sep := fun h => hs (List.mem_of_getLast? h)
    simp [hhead, hlast]
  | next s t hs ih =>
    rw [fields_append_cons hs, List.mem_cons, ih, List.getLast?_append_cons, getLast?_dropWhile_sep]
    cases s with
    | nil => simp
    | cons c s =>
      have hc : c ≠ sep := fun he => hs (by simp [he])
      simp [hc, head?_dropWhile_sep]

theorem fields_eq_tokens (s : List α) :
    fields sep s = tokens sep s ↔ s ≠ [] ∧ s.head? ≠ some sep ∧ s.getLast? ≠ some sep := by
  rw [← filter_fields, eq_comm, List.filter_eq_self]
  have hnil : [] ∈ fields sep s ↔ s = [] ∨ s.head? = some sep ∨ s.getLast? = some sep := nil_mem_fields s
  constructor
  · intro h
    have hnone : [] ∉ fields sep s := fun hmem => by simpa using h [] hmem
    simpa [hnil] using hnone
  · intro h t ht
    have hnone : [] ∉ fields sep s := by simpa [hnil] using h
    simpa using fun he : t = [] => hnone (he ▸ ht)

end KernelTest
