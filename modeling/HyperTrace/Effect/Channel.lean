import HyperTrace.Effect.Count
import HyperTrace.Effect.System
import Mathlib.Algebra.GroupWithZero.Nat
import Mathlib.Data.List.Perm.Subperm

/-!
# What is sent is what is taken, and what waits

A queue of the world that calls only append to, and that threads are started from. Where
nothing else touches it, the messages that threads were started for and the ones that still
wait are together the ones that were sent: none is lost, none is there twice.
-/

namespace Effect

variable {Op : Type} {Res : Op → Type} {ε σ χ τ ρ ι κ M : Type}
variable {S : System Op Res ε σ χ τ ρ ι κ}

/-- A queue, and the messages a thread was started for, by its tag. -/
structure Channel (S : System Op Res ε σ χ τ ρ ι κ) (M : Type) where
  queue : σ → List M
  taken : τ → List M
  exec : ∀ w o x, queue w <+: queue (S.exec w o x).2
  start : ∀ {w n x w' tag p}, S.start w n x = some (w', tag, p) →
    (queue w).Perm (taken tag ++ queue w')

namespace Channel

variable (C : Channel S M)

/-- What a call has appended. -/
def sent (e : Event Op Res ε σ τ) : List M := (C.queue e.after).drop (C.queue e.before).length

variable {P : Config Op Res ε σ τ ρ → Act χ ι κ → Prop} {w : σ} {c : Config Op Res ε σ τ ρ}

/-- **No message is lost and none is there twice.** -/
theorem conserved (hw : C.queue w = [])
    (henv : ∀ c e, P c (.env e) → C.queue (S.env c.world e) = C.queue c.world)
    (h : S.Run P w c) :
    (c.threads.flatMap (fun t => C.taken t.tag) ++ C.queue c.world).Perm
      (c.trace.flatMap C.sent) := by
  induction h with
  | init => simp [System.init, hw]
  | @tail c c' a hr hp hs ih =>
      rcases System.step_cases hs with ⟨x, w', tag, p, rfl, hst, rfl⟩ |
        ⟨i, x, tag, o, k, rfl, ht, rfl⟩ | ⟨e, rfl, rfl⟩
      · rw [List.flatMap_append, List.flatMap_singleton, List.append_assoc]
        exact ((C.start hst).symm.append_left _).trans ih
      · -- the new messages stand at the end of the queue, and in front of the trace
        obtain ⟨ms, hms⟩ := C.exec c.world o x
        have hsent : ∀ res, C.sent ⟨i, tag, o, res, c.world, (S.exec c.world o x).2⟩ = ms := by
          intro res
          rw [sent, ← hms, List.drop_left]
        have htags : ∀ t', t'.tag = tag →
            (c.threads.set i t').flatMap (fun t => C.taken t.tag)
              = c.threads.flatMap (fun t => C.taken t.tag) := by
          intro t' htag
          obtain ⟨hlt, hget⟩ := List.getElem?_eq_some_iff.mp ht
          have hmap : (c.threads.set i t').map (fun t => C.taken t.tag)
              = c.threads.map fun t => C.taken t.tag := by
            rw [List.map_set, htag]
            have hsame : (c.threads.map fun t => C.taken t.tag)[i]? = some (C.taken tag) := by
              rw [List.getElem?_map, ht]
              rfl
            obtain ⟨hlt', hget'⟩ := List.getElem?_eq_some_iff.mp hsame
            rw [← hget', List.set_getElem_self]
          rw [List.flatMap_def, List.flatMap_def, hmap]
        rw [htags _ rfl, List.flatMap_cons, hsent, ← hms, ← List.append_assoc]
        exact (List.perm_append_comm).trans (ih.append_left ms)
      · rw [henv c e hp]
        exact ih

/-- The law, counting the messages of a kind. -/
theorem countP_conserved (hw : C.queue w = [])
    (henv : ∀ c e, P c (.env e) → C.queue (S.env c.world e) = C.queue c.world)
    (h : S.Run P w c) (q : M → Bool) :
    (c.threads.map fun t => (C.taken t.tag).countP q).sum + (C.queue c.world).countP q
      = (c.trace.map fun e => (C.sent e).countP q).sum := by
  have hcount := (C.conserved hw henv h).countP_eq q
  rwa [List.countP_append, List.countP_flatMap, List.countP_flatMap] at hcount

end Channel

/-- Where of the elements before one of the kind at most one is of it, and is marked. -/
theorem countP_le_of_newest {α : Type} {l : List α} {p q : α → Bool}
    (h : ∀ x pre, x :: pre <:+ l → p x = true →
      pre.countP p ≤ 1 ∧ ∀ y ∈ pre, p y = true → q y = true) :
    l.countP p ≤ 2 ∧ l.countP p ≤ 1 + l.countP fun y => p y && q y := by
  induction l with
  | nil => exact ⟨Nat.zero_le _, Nat.zero_le _⟩
  | cons x l ih =>
      rw [List.countP_cons, List.countP_cons]
      cases hx : p x with
      | false =>
          have hrest := ih fun y pre hsuf => h y pre (hsuf.trans (List.suffix_cons _ _))
          exact hrest
      | true =>
          obtain ⟨hone, hmarked⟩ := h x l (List.suffix_refl _) hx
          have hsame : l.countP p = l.countP fun y => p y && q y := by
            refine List.countP_congr fun y hy => ?_
            rw [Bool.and_eq_true]
            exact ⟨fun hp => ⟨hp, hmarked y hy hp⟩, And.left⟩
          rw [if_pos rfl]
          omega

/-- A sum of ones and noughts is a count. -/
theorem sum_map_toNat {α : Type} {l : List α} {f : α → ℕ} {u : α → Bool}
    (h : ∀ a ∈ l, f a = (u a).toNat) : (l.map f).sum = l.countP u := by
  induction l with
  | nil => rfl
  | cons a l ih =>
      rw [List.map_cons, List.sum_cons, List.countP_cons, h a (List.mem_cons_self ..),
        ih fun b hb => h b (List.mem_cons_of_mem _ hb), Nat.add_comm]
      cases u a <;> rfl

/-- Events of which each thread has at most one are no more than such threads. -/
theorem System.Run.countP_le_threads {P : Config Op Res ε σ τ ρ → Act χ ι κ → Prop} {w : σ}
    {c : Config Op Res ε σ τ ρ} (h : S.Run P w c) {g : Event Op Res ε σ τ → Bool} {u : τ → Bool}
    (hg : ∀ e ∈ c.trace, g e = true → u e.tag = true) (hone : OnePer Event.tid g c.trace) :
    c.trace.countP g ≤ c.threads.countP fun t => u t.tag := by
  have hsubset : (c.trace.filter g).map Event.tid
      ⊆ (c.threads.zipIdx.filter fun t => u t.1.tag).map Prod.snd := by
    intro i hi
    obtain ⟨e, he, rfl⟩ := List.mem_map.mp hi
    obtain ⟨he, hge⟩ := List.mem_filter.mp he
    obtain ⟨t, ht, htag⟩ := h.tag_of_mem he
    refine List.mem_map.mpr ⟨(t, e.tid), List.mem_filter.mpr ⟨?_, ?_⟩, rfl⟩
    · exact List.mem_zipIdx_iff_getElem?.mpr ht
    · rw [htag]
      exact hg e he hge
  have hle := (List.subperm_of_subset hone.nodup hsubset).length_le
  have hthreads : (c.threads.zipIdx.filter fun t => u t.1.tag).length
      = c.threads.countP fun t => u t.tag := by
    conv_rhs => rw [← List.zipIdx_map_fst 0 c.threads, List.countP_map]
    rw [List.countP_eq_length_filter]
    rfl
  rwa [List.length_map, List.length_map, hthreads, ← List.countP_eq_length_filter] at hle

end Effect
