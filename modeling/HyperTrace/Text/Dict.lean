import Mathlib.Data.List.Induction
import Mathlib.Data.List.Nodup

/-!
# Dicts that remember their order

A `dict` as its items: a key that is assigned again keeps its place and takes the new value.
A dict that was filled by assignments has each key once, with the value assigned last.
-/

namespace Dict

variable {κ β : Type} [DecidableEq κ]

/-- `d[key] = v` -/
def set (d : List (κ × β)) (key : κ) (v : β) : List (κ × β) :=
  if key ∈ d.map Prod.fst then d.map fun p => if p.1 = key then (key, v) else p
  else d ++ [(key, v)]

/-- What the assignments come to, one after the other. -/
def ofItems (items : List (κ × β)) : List (κ × β) := items.foldl (fun d p => set d p.1 p.2) []

theorem map_fst_set (d : List (κ × β)) (key : κ) (v : β) :
    (set d key v).map Prod.fst
      = if key ∈ d.map Prod.fst then d.map Prod.fst else d.map Prod.fst ++ [key] := by
  unfold set
  split
  · rw [List.map_map]
    refine List.map_congr_left fun p _ => ?_
    by_cases hp : p.1 = key
    · simp [hp]
    · simp [hp]
  · rw [List.map_append]
    rfl

theorem nodup_set {d : List (κ × β)} (h : (d.map Prod.fst).Nodup) (key : κ) (v : β) :
    ((set d key v).map Prod.fst).Nodup := by
  rw [map_fst_set]
  split
  · exact h
  · rename_i hkey
    exact h.append (List.nodup_singleton key) (List.disjoint_singleton.mpr hkey)

theorem mem_set_iff {d : List (κ × β)} {key k : κ} {v x : β} :
    (k, x) ∈ set d key v ↔ (k = key ∧ x = v) ∨ (k ≠ key ∧ (k, x) ∈ d) := by
  by_cases hkey : key ∈ d.map Prod.fst
  · rw [set, if_pos hkey, List.mem_map]
    constructor
    · rintro ⟨p, hp, heq⟩
      by_cases hpk : p.1 = key
      · rw [if_pos hpk] at heq
        cases heq
        exact Or.inl ⟨rfl, rfl⟩
      · rw [if_neg hpk] at heq
        subst heq
        exact Or.inr ⟨hpk, hp⟩
    · rintro (⟨rfl, rfl⟩ | ⟨hne, hmem⟩)
      · obtain ⟨p, hp, hpk⟩ := List.mem_map.mp hkey
        exact ⟨p, hp, if_pos hpk⟩
      · exact ⟨(k, x), hmem, if_neg hne⟩
  · rw [set, if_neg hkey, List.mem_append, List.mem_singleton, Prod.mk.injEq]
    constructor
    · rintro (hmem | heq)
      · refine Or.inr ⟨?_, hmem⟩
        rintro rfl
        exact hkey (List.mem_map.mpr ⟨_, hmem, rfl⟩)
      · exact Or.inl heq
    · rintro (heq | ⟨-, hmem⟩)
      · exact Or.inr heq
      · exact Or.inl hmem

theorem ofItems_append (items : List (κ × β)) (p : κ × β) :
    ofItems (items ++ [p]) = set (ofItems items) p.1 p.2 := List.foldl_concat ..

theorem nodup_ofItems (items : List (κ × β)) : ((ofItems items).map Prod.fst).Nodup := by
  induction items using List.reverseRecOn with
  | nil => exact List.nodup_nil
  | append_singleton items p ih =>
      rw [ofItems_append]
      exact nodup_set ih p.1 p.2

theorem set_of_new {d : List (κ × β)} {key : κ} (h : key ∉ d.map Prod.fst) (v : β) :
    set d key v = d ++ [(key, v)] := if_neg h

/-- Distinct keys are all appended. -/
theorem ofItems_of_nodup {items : List (κ × β)} (h : (items.map Prod.fst).Nodup) :
    ofItems items = items := by
  induction items using List.reverseRecOn with
  | nil => rfl
  | append_singleton items p ih =>
      rw [List.map_append, List.map_singleton] at h
      have hnew : p.1 ∉ items.map Prod.fst := fun hmem =>
        List.disjoint_of_nodup_append h hmem (List.mem_singleton_self _)
      rw [ofItems_append, ih h.of_append_left, set_of_new hnew]

/-- **The last value of each key.** -/
theorem mem_ofItems_iff {items : List (κ × β)} {k : κ} {x : β} :
    (k, x) ∈ ofItems items ↔ ∃ l r, items = l ++ (k, x) :: r ∧ ∀ p ∈ r, p.1 ≠ k := by
  induction items using List.reverseRecOn with
  | nil => simp [ofItems]
  | append_singleton items p ih =>
      rw [ofItems_append, mem_set_iff, ih]
      constructor
      · rintro (⟨rfl, rfl⟩ | ⟨hne, l, r, rfl, hlast⟩)
        · exact ⟨items, [], rfl, fun p hp => by cases hp⟩
        · refine ⟨l, r ++ [p], by simp, fun p' hp' => ?_⟩
          rcases List.mem_append.mp hp' with hp' | hp'
          · exact hlast p' hp'
          · rw [List.mem_singleton.mp hp']
            exact hne.symm
      · rintro ⟨l, r, heq, hlast⟩
        rcases List.eq_nil_or_concat r with rfl | ⟨r, p', rfl⟩
        · obtain ⟨-, hp⟩ := List.append_inj' heq rfl
          cases hp
          exact Or.inl ⟨rfl, rfl⟩
        · rw [List.concat_eq_append, ← List.cons_append, ← List.append_assoc] at heq
          obtain ⟨hitems, hp⟩ := List.append_inj' heq rfl
          cases hp
          exact Or.inr ⟨(hlast p (by simp)).symm, l, r, hitems,
            fun p' hp' => hlast p' (by simp [hp'])⟩

end Dict
