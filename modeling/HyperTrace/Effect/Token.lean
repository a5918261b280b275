import HyperTrace.Effect.System
import Mathlib.Data.Finset.Card

/-!
# Tokens

Many safety properties of concurrent programs say that something happens at most
once, and are kept the same way: there is one token, and whoever acts must hold
it. A token is held by threads, as far as their own state and transcript tell, or
lies in the pool that the world is. If every act conserves the number of tokens
around, or hands out the first one when there is none, there is never more than
one.

Who holds a token may be a reading of the past rather than a field of the code;
the code need not know that it plays this game.
-/

namespace Effect

variable {Op : Type} {Res : Op → Type} {ε σ χ τ ρ ι κ : Type}

/-- What counts as holding the token, for a thread and for the world. -/
structure Token (Op : Type) (Res : Op → Type) (ε σ τ ρ : Type) where
  holds : Thread Op Res ε τ ρ → List (Call Op Res ε) → Bool
  pool : σ → Nat

namespace Token

variable (T : Token Op Res ε σ τ ρ)

/-- The thread of number `i` holds the token. -/
def heldBy (c : Config Op Res ε σ τ ρ) (i : Nat) : Bool :=
  (c.threads[i]?).any fun t => T.holds t (hist c.trace i)

/-- The threads that hold it. -/
def holders (c : Config Op Res ε σ τ ρ) : Finset Nat :=
  (Finset.range c.threads.length).filter fun i => T.heldBy c i

/-- All tokens around. -/
def load (c : Config Op Res ε σ τ ρ) : Nat := (T.holders c).card + T.pool c.world

variable {T} {c d : Config Op Res ε σ τ ρ} {i : Nat}

@[simp] theorem mem_holders : i ∈ T.holders c ↔ T.heldBy c i = true := by
  rw [holders, Finset.mem_filter, Finset.mem_range]
  refine and_iff_right_of_imp fun h => ?_
  rw [heldBy] at h
  cases ht : c.threads[i]? with
  | none => simp [ht] at h
  | some t => exact (List.getElem?_eq_some_iff.mp ht).1

/-- Whoever holds the token takes part in the load. -/
theorem one_le_load (h : T.heldBy c i = true) : 1 + T.pool c.world ≤ T.load c :=
  Nat.add_le_add_right (Finset.card_pos.mpr ⟨i, mem_holders.mpr h⟩) _

/-- Two threads that hold it make it two. -/
theorem two_le_load {j : Nat} (hij : i ≠ j) (hi : T.heldBy c i = true) (hj : T.heldBy c j = true) :
    2 ≤ T.load c := by
  have hsub : {i, j} ⊆ T.holders c := by
    intro n hn
    rcases Finset.mem_insert.mp hn with rfl | hn
    · exact mem_holders.mpr hi
    · exact mem_holders.mpr (Finset.mem_singleton.mp hn ▸ hj)
  have hcard := Finset.card_le_card hsub
  rw [Finset.card_pair hij] at hcard
  exact hcard.trans (Nat.le_add_right _ _)

/-- The load, with one thread counted apart. -/
theorem load_eq (c : Config Op Res ε σ τ ρ) (i : Nat) :
    T.load c = ((T.holders c).erase i).card + (T.heldBy c i).toNat + T.pool c.world := by
  unfold load
  cases h : T.heldBy c i with
  | false => rw [Finset.erase_eq_of_notMem (by simp [h])]; rfl
  | true => rw [Finset.card_erase_of_mem (mem_holders.mpr h)]
            have := Finset.card_pos.mpr ⟨i, mem_holders.mpr h⟩
            simp only [Bool.toNat_true]
            omega

/-- **Only one thread's part in the load and the pool have changed.** -/
theorem load_le {n : Nat} (hoff : ∀ j, j ≠ i → T.heldBy d j = true → T.heldBy c j = true)
    (hi : (T.heldBy d i).toNat + T.pool d.world ≤ (T.heldBy c i).toNat + T.pool c.world + n) :
    T.load d ≤ T.load c + n := by
  have hsub : (T.holders d).erase i ⊆ (T.holders c).erase i := by
    intro j hj
    rw [Finset.mem_erase, mem_holders] at hj ⊢
    exact ⟨hj.1, hoff j hj.1 hj.2⟩
  have hcard := Finset.card_le_card hsub
  rw [T.load_eq d i, T.load_eq c i]
  omega

end Token

namespace System

variable {S : System Op Res ε σ χ τ ρ ι κ} {P : Config Op Res ε σ τ ρ → Act χ ι κ → Prop} {w : σ}
variable {T : Token Op Res ε σ τ ρ} {c : Config Op Res ε σ τ ρ}

/-- What a start, or a call, may do to the tokens: conserve them, or hand out the first. -/
def Conserves (load before after : Nat) : Prop := after ≤ before ∨ load = 0 ∧ after ≤ 1

/-- **There is never more than one token.** -/
theorem Run.load_le_one (hw : T.pool w ≤ 1)
    (hstart : ∀ {c x w' tag p}, S.Run P w c → P c (.start x) →
      S.start c.world c.threads.length x = some (w', tag, p) →
      Conserves (T.load c) (T.pool c.world) ((T.holds ⟨tag, p⟩ []).toNat + T.pool w'))
    (hstep : ∀ {c i x tag o k r w'}, S.Run P w c → P c (.step i x) →
      c.threads[i]? = some ⟨tag, .op o k⟩ → S.exec c.world o x = (r, w') →
      Conserves (T.load c) ((T.holds ⟨tag, .op o k⟩ (hist c.trace i)).toNat + T.pool c.world)
        ((T.holds ⟨tag, k r⟩ (⟨o, r⟩ :: hist c.trace i)).toNat + T.pool w'))
    (henv : ∀ {c e}, S.Run P w c → P c (.env e) → T.pool (S.env c.world e) ≤ T.pool c.world)
    (h : S.Run P w c) : T.load c ≤ 1 := by
  induction h with
  | init =>
      have hnone : T.holders (S.init w) = ∅ := rfl
      rw [Token.load, hnone]
      simpa [System.init] using hw
  | @tail c c' a hr hp hs ih =>
      -- induction on the run: only the thread that starts or steps can change hands
      rcases step_cases hs with ⟨x, w', tag, p, rfl, hst, rfl⟩ |
        ⟨i, x, tag, o, k, rfl, ht, rfl⟩ | ⟨v, rfl, rfl⟩
      · have hnew : hist c.trace c.threads.length = [] :=
          hist_eq_nil fun e he => Nat.ne_of_lt (hr.tid_lt he)
        have hold : T.heldBy c c.threads.length = false := by simp [Token.heldBy]
        have hoff : ∀ j, j ≠ c.threads.length →
            T.heldBy ⟨w', c.trace, c.threads ++ [⟨tag, p⟩]⟩ j = true → T.heldBy c j = true := by
          intro j hj hheld
          simp only [Token.heldBy, List.getElem?_append] at hheld ⊢
          split at hheld
          · exact hheld
          · rw [List.getElem?_eq_none (by simp; omega)] at hheld
            simp at hheld
        have hi : T.heldBy ⟨w', c.trace, c.threads ++ [⟨tag, p⟩]⟩ c.threads.length
            = T.holds ⟨tag, p⟩ [] := by
          simp [Token.heldBy, hnew]
        rcases hstart hr hp hst with hle | ⟨h0, h1⟩
        · have := Token.load_le (n := 0) hoff (by rw [hi, hold]; simpa using hle)
          omega
        · have := Token.load_le (n := 1) hoff (by rw [hi, hold]; dsimp only; omega)
          omega
      -- every other thread keeps its transcript and its program
      · have hlt := (List.getElem?_eq_some_iff.mp ht).1
        have hold : T.heldBy c i = T.holds ⟨tag, .op o k⟩ (hist c.trace i) := by
          simp [Token.heldBy, ht]
        have hoff : ∀ j, j ≠ i → T.heldBy ⟨(S.exec c.world o x).2,
            ⟨i, tag, o, (S.exec c.world o x).1, c.world, (S.exec c.world o x).2⟩ :: c.trace,
            c.threads.set i ⟨tag, k (S.exec c.world o x).1⟩⟩ j = true → T.heldBy c j = true := by
          intro j hj hheld
          rw [Token.heldBy, List.getElem?_set_ne (Ne.symm hj), hist_cons_ne (by exact Ne.symm hj)]
            at hheld
          exact hheld
        have hi : T.heldBy ⟨(S.exec c.world o x).2,
            ⟨i, tag, o, (S.exec c.world o x).1, c.world, (S.exec c.world o x).2⟩ :: c.trace,
            c.threads.set i ⟨tag, k (S.exec c.world o x).1⟩⟩ i
            = T.holds ⟨tag, k (S.exec c.world o x).1⟩
                (⟨o, (S.exec c.world o x).1⟩ :: hist c.trace i) := by
          simp [Token.heldBy, List.getElem?_set_self hlt, hist, Event.call]
        rcases hstep hr hp ht (Prod.mk.eta).symm with hle | ⟨h0, h1⟩
        · have := Token.load_le (n := 0) hoff (by rw [hi, hold]; exact hle)
          omega
        · have := Token.load_le (n := 1) hoff (by rw [hi]; dsimp only; omega)
          omega
      · have := Token.load_le (T := T) (c := c) (d := ⟨S.env c.world v, c.trace, c.threads⟩)
          (i := 0) (n := 0) (fun j _ hj => hj) (Nat.add_le_add_left (henv hr hp) _)
        omega

end System

end Effect
