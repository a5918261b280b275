import Mathlib.Data.List.Basic

/-!
# State machines

A machine is its step function; an act it cannot take in a state gives `none`. A
run is a list of acts, oldest first, all taken and all meeting a condition, and it
determines the state it leads to.
-/

namespace Effect

/-- A machine of states `σ` and acts `α`. -/
abbrev Machine (σ α : Type) := σ → α → Option σ

namespace Machine

variable {σ α : Type} (M : Machine σ α)

/-- Run from `s` with the acts `as`, all meeting the condition, to a state. -/
inductive Run (ok : σ → α → Prop) (s : σ) : List α → σ → Prop where
  | init : Run ok s [] s
  | tail {as : List α} {s' s'' : σ} {a : α} : Run ok s as s' → ok s' a → M s' a = some s'' →
      Run ok s (as ++ [a]) s''

variable {M} {ok : σ → α → Prop} {s s' : σ} {as : List α}

/-- **The induction rule**: what holds at first and is kept by every act. -/
theorem Run.keeps {I : List α → σ → Prop} (h : M.Run ok s as s') (hinit : I [] s)
    (hstep : ∀ as s₁ s₂ a, M.Run ok s as s₁ → ok s₁ a → M s₁ a = some s₂ → I as s₁ →
      I (as ++ [a]) s₂) : I as s' := by
  induction h with
  | init => exact hinit
  | tail hr hok hs ih => exact hstep _ _ _ _ hr hok hs ih

/-- A stricter condition leaves fewer runs. -/
theorem Run.mono {ok' : σ → α → Prop} (h : M.Run ok s as s') (hok : ∀ s a, ok s a → ok' s a) :
    M.Run ok' s as s' := by
  induction h with
  | init => exact .init
  | tail _ ha hs ih => exact ih.tail (hok _ _ ha) hs

theorem Run.trans {bs : List α} {s'' : σ} (h : M.Run ok s as s') (h' : M.Run ok s' bs s'') :
    M.Run ok s (as ++ bs) s'' := by
  induction h' with
  | init => rwa [List.append_nil]
  | tail _ ha hs ih =>
      rw [← List.append_assoc]
      exact ih.tail ha hs

/-- Every act of a run was taken in a state of a run. -/
theorem Run.origin (h : M.Run ok s as s') {pre post : List α} {a : α}
    (heq : as = pre ++ a :: post) :
    ∃ s₁ s₂, M.Run ok s pre s₁ ∧ ok s₁ a ∧ M s₁ a = some s₂ ∧ M.Run ok s₂ post s' := by
  induction h generalizing post with
  | init => simp at heq
  | @tail as s₁ s₂ b hr hb hs ih =>
      rcases List.eq_nil_or_concat post with rfl | ⟨post, c, rfl⟩
      · obtain ⟨rfl, hlast⟩ := List.append_inj' heq rfl
        obtain rfl := List.singleton_inj.mp hlast
        exact ⟨s₁, s₂, hr, hb, hs, .init⟩
      · rw [List.concat_eq_append, ← List.cons_append, ← List.append_assoc] at heq
        obtain ⟨rfl, hlast⟩ := List.append_inj' heq rfl
        obtain rfl := List.singleton_inj.mp hlast
        obtain ⟨t₁, t₂, hpre, ha, hta, hpost⟩ := ih rfl
        refine ⟨t₁, t₂, hpre, ha, hta, ?_⟩
        rw [List.concat_eq_append]
        exact hpost.tail hb hs

/-- A schedule, stopping at an act that cannot be taken or does not pass the check. -/
def exec (M : Machine σ α) (ok : σ → α → Bool) (s : σ) : List α → Option σ
  | [] => some s
  | a :: as => if ok s a then (M s a).bind fun s' => exec M ok s' as else none

theorem run_of_exec {ok : σ → α → Bool} {s s' : σ} {as : List α}
    (h : M.exec ok s as = some s') : M.Run (fun s a => ok s a) s as s' := by
  induction as generalizing s with
  | nil => exact Option.some.inj h ▸ .init
  | cons a as ih =>
      simp only [exec] at h
      split at h
      · rename_i ha
        obtain ⟨s₁, hs, h⟩ := Option.bind_eq_some_iff.mp h
        have hfirst : M.Run (fun s a => ok s a) s [a] s₁ := Run.init.tail ha hs
        exact hfirst.trans (ih h)
      · cases h

/-- A schedule that can be executed and ends in a state that passes a check. -/
theorem exists_run {ok : σ → α → Bool} {s : σ} {as : List α} {q : σ → Bool}
    (h : (M.exec ok s as).any q = true) :
    ∃ s', M.Run (fun s a => ok s a) s as s' ∧ q s' = true := by
  obtain ⟨s', hs, hq⟩ := (Option.any_eq_true _ _).mp h
  exact ⟨s', run_of_exec hs, hq⟩

end Machine

end Effect
