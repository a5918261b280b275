import HyperTrace.Effect.Prog
import Mathlib.Data.List.Basic

/-!
# Concurrent runs of programs over a shared world

A `System` executes any number of threads, each the program of one handler, over
one shared world. A run is a sequence of acts: a thread is started, a thread
makes its next call, or the environment moves. Between two calls of one thread
anything may happen, so a property of all runs is a property of all
interleavings.

Every call is recorded in the trace, newest first, with the world just before and
just after it. That is what turns "what this thread once read" into something a
later state can still refer to. Three facts about traces carry all the reasoning:

* `Run.origin` — each event happened in a reachable configuration;
* `Run.le_of_mem` — the world only grows, in whatever order it is monotone for;
* `Run.obeys` — each thread keeps to the discipline of its own program, so the
  events of one thread always tell a coherent story.
-/

namespace Effect

/-- A call made by a thread, with the world around it. -/
structure Event (Op : Type) (Res : Op → Type) (ε σ τ : Type) where
  tid : Nat
  tag : τ
  op : Op
  res : Except ε (Res op)
  before : σ
  after : σ

/-- A started program. The tag says which handler it is and for which input. -/
structure Thread (Op : Type) (Res : Op → Type) (ε τ ρ : Type) where
  tag : τ
  prog : Prog Op Res ε ρ

/-- The shared world, what happened so far, and the threads in starting order. -/
structure Config (Op : Type) (Res : Op → Type) (ε σ τ ρ : Type) where
  world : σ
  trace : List (Event Op Res ε σ τ)
  threads : List (Thread Op Res ε τ ρ)

/-- One act of a run. -/
inductive Act (χ ι κ : Type) where
  /-- A new thread is started. -/
  | start (x : ι)
  /-- A thread makes its next call, resolved by the environment's choice. -/
  | step (tid : Nat) (c : χ)
  /-- The environment moves. -/
  | env (e : κ)

/-- How calls are executed, which threads may start, and what the environment does. -/
structure System (Op : Type) (Res : Op → Type) (ε σ χ τ ρ ι κ : Type) where
  exec : σ → (o : Op) → χ → Except ε (Res o) × σ
  /-- Given the world and the number of the new thread. -/
  start : σ → Nat → ι → Option (σ × τ × Prog Op Res ε ρ)
  env : σ → κ → σ

variable {Op : Type} {Res : Op → Type} {ε σ χ τ ρ ι κ : Type}

/-- The event as its own thread sees it. -/
def Event.call (e : Event Op Res ε σ τ) : Call Op Res ε := ⟨e.op, e.res⟩

/-- The calls of thread `i`, newest first. -/
def hist (tr : List (Event Op Res ε σ τ)) (i : Nat) : List (Call Op Res ε) :=
  (tr.filter (fun e => e.tid = i)).map Event.call

@[simp] theorem hist_nil (i : Nat) : hist ([] : List (Event Op Res ε σ τ)) i = [] := rfl

@[simp] theorem hist_cons_self (e : Event Op Res ε σ τ) (tr : List (Event Op Res ε σ τ)) :
    hist (e :: tr) e.tid = e.call :: hist tr e.tid := by
  simp [hist]

theorem hist_cons_ne {e : Event Op Res ε σ τ} {i : Nat} (h : e.tid ≠ i)
    (tr : List (Event Op Res ε σ τ)) : hist (e :: tr) i = hist tr i := by
  simp [hist, h]

theorem mem_hist {tr : List (Event Op Res ε σ τ)} {i : Nat} {c : Call Op Res ε} :
    c ∈ hist tr i ↔ ∃ e ∈ tr, e.tid = i ∧ e.call = c := by
  simp [hist, and_assoc]

theorem hist_suffix {tr tr' : List (Event Op Res ε σ τ)} (h : tr <:+ tr') (i : Nat) :
    hist tr i <:+ hist tr' i :=
  (h.filter _).map _

/-- Of two events of a trace, one came first. -/
theorem suffix_cases {tr pre pre' : List (Event Op Res ε σ τ)} {e e' : Event Op Res ε σ τ}
    (h : e :: pre <:+ tr) (h' : e' :: pre' <:+ tr) :
    (e = e' ∧ pre = pre') ∨ e :: pre <:+ pre' ∨ e' :: pre' <:+ pre := by
  rcases List.suffix_or_suffix_of_suffix h h' with hs | hs
  · rcases List.suffix_cons_iff.mp hs with heq | hs
    · exact Or.inl (List.cons.inj heq)
    · exact Or.inr (Or.inl hs)
  · rcases List.suffix_cons_iff.mp hs with heq | hs
    · obtain ⟨rfl, rfl⟩ := List.cons.inj heq
      exact Or.inl ⟨rfl, rfl⟩
    · exact Or.inr (Or.inr hs)

/-- A call in a transcript is an event, and what stands before it came before. -/
theorem hist_split {tr : List (Event Op Res ε σ τ)} {i : Nat} {l t : List (Call Op Res ε)}
    {c : Call Op Res ε} (h : hist tr i = l ++ c :: t) :
    ∃ e pre, e :: pre <:+ tr ∧ e.tid = i ∧ e.call = c ∧ hist pre i = t := by
  induction tr generalizing l with
  | nil => simp at h
  | cons e tr ih =>
      by_cases hi : e.tid = i
      · subst hi
        rw [hist_cons_self] at h
        cases l with
        | nil =>
            obtain ⟨hc, hl⟩ := List.cons.inj h
            exact ⟨e, tr, List.suffix_refl _, rfl, hc, hl⟩
        | cons _ l =>
            obtain ⟨e', pre, hsuf, hrest⟩ := ih (List.cons.inj h).2
            exact ⟨e', pre, hsuf.trans (List.suffix_cons _ _), hrest⟩
      · rw [hist_cons_ne hi] at h
        obtain ⟨e', pre, hsuf, hrest⟩ := ih h
        exact ⟨e', pre, hsuf.trans (List.suffix_cons _ _), hrest⟩

/-- The newest call of a kind in a transcript is found in the trace. -/
theorem find_of_hist {tr : List (Event Op Res ε σ τ)} {i : Nat} {q : Op → Bool}
    {l t : List (Call Op Res ε)} {c : Call Op Res ε} (h : hist tr i = l ++ c :: t)
    (hl : ∀ d ∈ l, q d.op = false) (hc : q c.op = true) :
    ∃ e pre, tr.find? (fun e => e.tid = i && q e.op) = some e ∧ e :: pre <:+ tr ∧ e.tid = i
      ∧ e.call = c ∧ hist pre i = t := by
  induction tr generalizing l with
  | nil => simp at h
  | cons e tr ih =>
      -- an event of another thread is in neither
      by_cases hi : e.tid = i
      · subst hi
        rw [hist_cons_self] at h
        cases l with
        | nil =>
            obtain ⟨rfl, ht⟩ := List.cons.inj h
            have hq : q e.op = true := hc
            exact ⟨e, tr, by simp [hq], List.suffix_refl _, rfl, rfl, ht⟩
        | cons d l =>
            obtain ⟨rfl, hrest⟩ := List.cons.inj h
            have hq : q e.op = false := hl _ (List.mem_cons_self ..)
            obtain ⟨e', pre, hfind, hsuf, hrest⟩ :=
              ih hrest fun d hd => hl d (List.mem_cons_of_mem _ hd)
            exact ⟨e', pre, by simpa [hq] using hfind, hsuf.trans (List.suffix_cons _ _), hrest⟩
      · rw [hist_cons_ne hi] at h
        obtain ⟨e', pre, hfind, hsuf, hrest⟩ := ih h hl
        exact ⟨e', pre, by simpa [hi] using hfind, hsuf.trans (List.suffix_cons _ _), hrest⟩

theorem hist_eq_nil {tr : List (Event Op Res ε σ τ)} {i : Nat} (h : ∀ e ∈ tr, e.tid ≠ i) :
    hist tr i = [] := by
  simp only [hist, List.map_eq_nil_iff, List.filter_eq_nil_iff, decide_eq_true_eq]
  exact h

theorem hist_mono {tr tr' : List (Event Op Res ε σ τ)} (h : tr <:+ tr') {i : Nat}
    {c : Call Op Res ε} (hc : c ∈ hist tr i) : c ∈ hist tr' i := by
  obtain ⟨e, he, hi⟩ := mem_hist.mp hc
  exact mem_hist.mpr ⟨e, h.subset he, hi⟩

namespace System

variable (S : System Op Res ε σ χ τ ρ ι κ)

/-- Nothing has happened yet. -/
def init (_ : System Op Res ε σ χ τ ρ ι κ) (w : σ) : Config Op Res ε σ τ ρ := ⟨w, [], []⟩

/-- The call a thread is about to make. -/
def next (c : Config Op Res ε σ τ ρ) (i : Nat) : Option Op :=
  match c.threads[i]? with
  | some ⟨_, .op o _⟩ => some o
  | _ => none

/-- The effect of one act; `none` when it is not possible. -/
def step (c : Config Op Res ε σ τ ρ) : Act χ ι κ → Option (Config Op Res ε σ τ ρ)
  | .start x =>
      match S.start c.world c.threads.length x with
      | none => none
      | some (w, tag, p) => some ⟨w, c.trace, c.threads ++ [⟨tag, p⟩]⟩
  | .step i x =>
      match c.threads[i]? with
      | some ⟨tag, .op o k⟩ =>
          let r := S.exec c.world o x
          some ⟨r.2, ⟨i, tag, o, r.1, c.world, r.2⟩ :: c.trace, c.threads.set i ⟨tag, k r.1⟩⟩
      | _ => none
  | .env e => some ⟨S.env c.world e, c.trace, c.threads⟩

/-- A whole schedule, stopping at an act that is not possible or not allowed. -/
def steps (ok : Config Op Res ε σ τ ρ → Act χ ι κ → Bool) (c : Config Op Res ε σ τ ρ) :
    List (Act χ ι κ) → Option (Config Op Res ε σ τ ρ)
  | [] => some c
  | a :: as =>
      if ok c a then
        match S.step c a with
        | none => none
        | some c' => steps ok c' as
      else none

/-- A schedule that goes on after another. -/
theorem steps_append {ok : Config Op Res ε σ τ ρ → Act χ ι κ → Bool} {as bs : List (Act χ ι κ)}
    {c c' : Config Op Res ε σ τ ρ} (h : S.steps ok c as = some c') :
    S.steps ok c (as ++ bs) = S.steps ok c' bs := by
  induction as generalizing c with
  | nil => rw [← Option.some.inj h, List.nil_append]
  | cons a as ih =>
      simp only [steps, List.cons_append] at h ⊢
      split at h
      · rename_i hok
        rw [if_pos hok]
        split at h
        · cases h
        · exact ih h
      · cases h

/-- **A thread can be run to its end**, while nothing else happens. -/
theorem exists_finished (x : χ) {i : Nat} {c : Config Op Res ε σ τ ρ} {t : Thread Op Res ε τ ρ}
    (ht : c.threads[i]? = some t) :
    ∃ n c', S.steps (fun _ _ => true) c (List.replicate n (.step i x)) = some c'
      ∧ c'.world = (t.prog.run S.exec (fun _ => x) c.world).2
      ∧ c'.threads.length = c.threads.length := by
  obtain ⟨tag, p⟩ := t
  -- by the program: each call is one step
  induction p generalizing c with
  | ret a => exact ⟨0, c, rfl, rfl, rfl⟩
  | raise e => exact ⟨0, c, rfl, rfl, rfl⟩
  | op o k ih =>
      have hlt := (List.getElem?_eq_some_iff.mp ht).1
      obtain ⟨n, c', hsteps, hworld, hlen⟩ := ih (S.exec c.world o x).1
        (c := ⟨(S.exec c.world o x).2,
          ⟨i, tag, o, (S.exec c.world o x).1, c.world, (S.exec c.world o x).2⟩ :: c.trace,
          c.threads.set i ⟨tag, k (S.exec c.world o x).1⟩⟩)
        (List.getElem?_set_self hlt)
      refine ⟨n + 1, c', ?_, hworld, hlen.trans (List.length_set ..)⟩
      rw [List.replicate_succ, steps, if_pos rfl]
      simp only [step, ht]
      exact hsteps

theorem next_of_thread {c : Config Op Res ε σ τ ρ} {i : Nat} {tag : τ} {o : Op}
    {k : Except ε (Res o) → Prog Op Res ε ρ} (h : c.threads[i]? = some ⟨tag, .op o k⟩) :
    next c i = some o := by
  simp only [next, h]

variable {S}

/-- **Everything one act can do.** -/
theorem step_cases {c c' : Config Op Res ε σ τ ρ} {a : Act χ ι κ} (h : S.step c a = some c') :
    (∃ x w tag p, a = .start x ∧ S.start c.world c.threads.length x = some (w, tag, p)
      ∧ c' = ⟨w, c.trace, c.threads ++ [⟨tag, p⟩]⟩)
    ∨ (∃ i x tag o k, a = .step i x ∧ c.threads[i]? = some ⟨tag, .op o k⟩
      ∧ c' = ⟨(S.exec c.world o x).2,
          ⟨i, tag, o, (S.exec c.world o x).1, c.world, (S.exec c.world o x).2⟩ :: c.trace,
          c.threads.set i ⟨tag, k (S.exec c.world o x).1⟩⟩)
    ∨ (∃ e, a = .env e ∧ c' = ⟨S.env c.world e, c.trace, c.threads⟩) := by
  cases a with
  | start x =>
      simp only [step] at h
      split at h
      · exact absurd h (by simp)
      · rename_i w tag p hs
        exact Or.inl ⟨x, w, tag, p, rfl, hs, (Option.some.inj h).symm⟩
  | step i x =>
      simp only [step] at h
      split at h
      · rename_i tag o k ht
        exact Or.inr (Or.inl ⟨i, x, tag, o, k, rfl, ht, (Option.some.inj h).symm⟩)
      · exact absurd h (by simp)
  | env e => exact Or.inr (Or.inr ⟨e, rfl, (Option.some.inj h).symm⟩)

theorem trace_of_step {c c' : Config Op Res ε σ τ ρ} {a : Act χ ι κ} (h : S.step c a = some c') :
    c.trace <:+ c'.trace := by
  rcases step_cases h with ⟨x, w, tag, p, _, _, rfl⟩ | ⟨i, x, tag, o, k, _, _, rfl⟩ | ⟨e, _, rfl⟩
  · exact List.suffix_refl _
  · exact List.suffix_cons ..
  · exact List.suffix_refl _

/-- Configurations reached from `w` by acts that all meet the condition `P`. -/
inductive Run (S : System Op Res ε σ χ τ ρ ι κ)
    (P : Config Op Res ε σ τ ρ → Act χ ι κ → Prop) (w : σ) : Config Op Res ε σ τ ρ → Prop where
  | init : Run S P w (S.init w)
  | tail {c c' : Config Op Res ε σ τ ρ} {a : Act χ ι κ} :
      Run S P w c → P c a → S.step c a = some c' → Run S P w c'

variable {P : Config Op Res ε σ τ ρ → Act χ ι κ → Prop} {w : σ} {c : Config Op Res ε σ τ ρ}

/-- A stricter condition leaves fewer runs. -/
theorem Run.mono {P' : Config Op Res ε σ τ ρ → Act χ ι κ → Prop} (h : S.Run P w c)
    (hP : ∀ c a, P c a → P' c a) : S.Run P' w c := by
  induction h with
  | init => exact .init
  | tail _ hp hs ih => exact ih.tail (hP _ _ hp) hs

/--
**The induction rule** for what holds of the state and the trace: the three ways an act
can change them, each with the run it belongs to.
-/
theorem Run.keeps {I : σ → List (Event Op Res ε σ τ) → Prop} (h : S.Run P w c) (hinit : I w [])
    (hstart : ∀ (c : Config Op Res ε σ τ ρ) x w' tag p,
      S.start c.world c.threads.length x = some (w', tag, p) →
      I c.world c.trace → I w' c.trace)
    (hstep : ∀ (c : Config Op Res ε σ τ ρ) i x tag o k, S.Run P w c → P c (.step i x) →
      c.threads[i]? = some ⟨tag, .op o k⟩ →
      S.Run P w ⟨(S.exec c.world o x).2,
        ⟨i, tag, o, (S.exec c.world o x).1, c.world, (S.exec c.world o x).2⟩ :: c.trace,
        c.threads.set i ⟨tag, k (S.exec c.world o x).1⟩⟩ →
      I c.world c.trace → I (S.exec c.world o x).2
        (⟨i, tag, o, (S.exec c.world o x).1, c.world, (S.exec c.world o x).2⟩ :: c.trace))
    (henv : ∀ (c : Config Op Res ε σ τ ρ) e, I c.world c.trace → I (S.env c.world e) c.trace) :
    I c.world c.trace := by
  induction h with
  | init => exact hinit
  | @tail c c' a hr hp hs ih =>
      have hr' := hr.tail hp hs
      rcases step_cases hs with ⟨x, w', tag, p, _, hst, rfl⟩ | ⟨i, x, tag, o, k, rfl, ht, rfl⟩ |
        ⟨e, _, rfl⟩
      · exact hstart c x w' tag p hst ih
      · exact hstep c i x tag o k hr hp ht hr' ih
      · exact henv c e ih

/-- A schedule all of whose acts are allowed is a run, and makes no other acts. -/
theorem Run.steps {ok : Config Op Res ε σ τ ρ → Act χ ι κ → Bool} {l as : List (Act χ ι κ)}
    {c c' : Config Op Res ε σ τ ρ} (hr : S.Run (fun c a => ok c a = true ∧ a ∈ l) w c)
    (hl : ∀ a ∈ as, a ∈ l) (h : S.steps ok c as = some c') :
    S.Run (fun c a => ok c a = true ∧ a ∈ l) w c' := by
  induction as generalizing c with
  | nil => exact Option.some.inj h ▸ hr
  | cons a as ih =>
      simp only [System.steps] at h
      split at h
      · rename_i ha
        split at h
        · exact absurd h (by simp)
        · rename_i c'' hs
          exact ih (hr.tail ⟨ha, hl a (List.mem_cons_self ..)⟩ hs)
            (fun a' ha' => hl a' (List.mem_cons_of_mem _ ha')) h
      · exact absurd h (by simp)

/-- A schedule that can be executed and ends in a configuration that passes a check. -/
theorem exists_run_mem {p : Config Op Res ε σ τ ρ → Act χ ι κ → Bool} {l : List (Act χ ι κ)}
    {q : Config Op Res ε σ τ ρ → Bool} (h : (S.steps p (S.init w) l).any q = true) :
    ∃ c, S.Run (fun c a => p c a = true ∧ a ∈ l) w c ∧ q c = true := by
  obtain ⟨c, hc, hcheck⟩ := (Option.any_eq_true _ _).mp h
  exact ⟨c, Run.steps .init (fun _ ha => ha) hc, hcheck⟩

theorem exists_run {p : Config Op Res ε σ τ ρ → Act χ ι κ → Bool} {l : List (Act χ ι κ)}
    {q : Config Op Res ε σ τ ρ → Bool} (h : (S.steps p (S.init w) l).any q = true) :
    ∃ c, S.Run (fun c a => p c a) w c ∧ q c = true := by
  obtain ⟨c, hr, hcheck⟩ := exists_run_mem h
  exact ⟨c, hr.mono fun _ _ hp => hp.1, hcheck⟩

/-! ## Threads -/

/-- Events belong to started threads, under the tag the thread was started with. -/
theorem Run.tag_of_mem (h : S.Run P w c) {e : Event Op Res ε σ τ} (he : e ∈ c.trace) :
    ∃ t, c.threads[e.tid]? = some t ∧ t.tag = e.tag := by
  induction h with
  | init => simp [System.init] at he
  | @tail c c' a _ _ hs ih =>
      rcases step_cases hs with ⟨x, w', tag, p, _, _, rfl⟩ | ⟨i, x, tag, o, k, _, ht, rfl⟩ |
        ⟨v, _, rfl⟩
      · obtain ⟨t, ht, htag⟩ := ih he
        exact ⟨t, by rw [List.getElem?_append_left (List.getElem?_eq_some_iff.mp ht).1]; exact ht,
          htag⟩
      · have hlt := (List.getElem?_eq_some_iff.mp ht).1
        rcases List.mem_cons.mp he with rfl | he
        · exact ⟨_, List.getElem?_set_self hlt, rfl⟩
        · obtain ⟨t, ht', htag⟩ := ih he
          by_cases hi : i = e.tid
          · subst hi
            rw [ht] at ht'
            exact ⟨_, List.getElem?_set_self hlt, by rw [← htag, ← Option.some.inj ht']⟩
          · exact ⟨t, by simpa [List.getElem?_set_ne hi] using ht', htag⟩
      · exact ih he

theorem Run.tid_lt (h : S.Run P w c) {e : Event Op Res ε σ τ} (he : e ∈ c.trace) :
    e.tid < c.threads.length := by
  obtain ⟨t, ht, _⟩ := h.tag_of_mem he
  exact (List.getElem?_eq_some_iff.mp ht).1

/-- Two events of one thread carry one tag. -/
theorem Run.tag_eq (h : S.Run P w c) {e e' : Event Op Res ε σ τ} (he : e ∈ c.trace)
    (he' : e' ∈ c.trace) (hi : e.tid = e'.tid) : e.tag = e'.tag := by
  obtain ⟨t, ht, htag⟩ := h.tag_of_mem he
  obtain ⟨t', ht', htag'⟩ := h.tag_of_mem he'
  rw [hi, ht'] at ht
  rw [← htag, ← htag', Option.some.inj ht]

/-- Every thread was started in a reachable configuration, before anything it did. -/
theorem Run.started (h : S.Run P w c) {i : Nat} {t : Thread Op Res ε τ ρ}
    (ht : c.threads[i]? = some t) :
    ∃ c₀ x w' p, S.Run P w c₀ ∧ P c₀ (.start x) ∧ c₀.threads.length = i
      ∧ S.start c₀.world i x = some (w', t.tag, p) ∧ c₀.trace <:+ c.trace := by
  induction h generalizing t with
  | init => simp [System.init] at ht
  | @tail c c' a hr hp hs ih =>
      rcases step_cases hs with ⟨x, w', tag, p, rfl, hst, rfl⟩ |
        ⟨j, x, tag, o, k, _, hj, rfl⟩ | ⟨v, _, rfl⟩
      · rcases Nat.lt_or_ge i c.threads.length with hlt | hge
        · exact ih (by rwa [List.getElem?_append_left hlt] at ht)
        -- the thread that this very action starts
        · rw [List.getElem?_append_right hge] at ht
          have hi : c.threads.length = i := by
            have := (List.getElem?_eq_some_iff.mp ht).1
            simp at this; omega
          subst hi
          simp only [Nat.sub_self, List.getElem?_cons_zero, Option.some.injEq] at ht
          subst ht
          exact ⟨c, x, w', p, hr, hp, rfl, hst, List.suffix_refl _⟩
      · have hstarted : ∀ (e : Event Op Res ε σ τ) {u}, c.threads[i]? = some u →
            ∃ c₀ x w' p, S.Run P w c₀ ∧ P c₀ (.start x) ∧ c₀.threads.length = i
              ∧ S.start c₀.world i x = some (w', u.tag, p) ∧ c₀.trace <:+ e :: c.trace := by
          intro e u hu
          obtain ⟨c₀, x, w', p, hr₀, hp₀, hi, hst, hsuf⟩ := ih hu
          exact ⟨c₀, x, w', p, hr₀, hp₀, hi, hst, hsuf.trans (List.suffix_cons _ _)⟩
        by_cases hij : j = i
        · subst hij
          have hlt := (List.getElem?_eq_some_iff.mp hj).1
          rw [List.getElem?_set_self hlt] at ht
          obtain rfl := Option.some.inj ht
          exact hstarted _ (u := ⟨tag, .op o k⟩) hj
        · exact hstarted _ (by rwa [List.getElem?_set_ne hij] at ht)
      · exact ih ht

/-! ## Where events come from, and how the world grows -/

/-- **Every event happened in a reachable configuration.** -/
theorem Run.origin (h : S.Run P w c) {e : Event Op Res ε σ τ} {pre : List (Event Op Res ε σ τ)}
    (he : e :: pre <:+ c.trace) :
    ∃ c₀ x k, S.Run P w c₀ ∧ P c₀ (.step e.tid x) ∧ c₀.world = e.before ∧ c₀.trace = pre
      ∧ c₀.threads[e.tid]? = some ⟨e.tag, .op e.op k⟩
      ∧ S.exec e.before e.op x = (e.res, e.after) := by
  induction h with
  | init => simp [System.init] at he
  | @tail c c' a hr hp hs ih =>
      rcases step_cases hs with ⟨x, w', tag, p, _, _, rfl⟩ | ⟨i, x, tag, o, k, rfl, ht, rfl⟩ |
        ⟨v, _, rfl⟩
      · exact ih he
      · rcases List.suffix_cons_iff.mp he with heq | hsuf
        · injection heq with he hpre
          subst he hpre
          exact ⟨c, x, k, hr, hp, rfl, rfl, ht, rfl⟩
        · exact ih hsuf
      · exact ih he

/-- `Run.origin`, for an event one only knows to be in the trace. -/
theorem Run.origin_of_mem (h : S.Run P w c) {e : Event Op Res ε σ τ} (he : e ∈ c.trace) :
    ∃ pre, e :: pre <:+ c.trace ∧ ∃ c₀ x k, S.Run P w c₀ ∧ P c₀ (.step e.tid x)
      ∧ c₀.world = e.before ∧ c₀.trace = pre ∧ c₀.threads[e.tid]? = some ⟨e.tag, .op e.op k⟩
      ∧ S.exec e.before e.op x = (e.res, e.after) := by
  obtain ⟨post, pre, hsplit⟩ := List.append_of_mem he
  have hsuf : e :: pre <:+ c.trace := ⟨post, hsplit.symm⟩
  exact ⟨pre, hsuf, h.origin hsuf⟩

/--
A fact about the world that neither starts nor the environment bring about was
there from the beginning, or some call made it true.
-/
theorem Run.arises {F : σ → Prop}
    (hstart : ∀ {c x w' tag p}, S.Run P w c → P c (.start x) →
      S.start c.world c.threads.length x = some (w', tag, p) → F w' → F c.world)
    (henv : ∀ {c e}, S.Run P w c → P c (.env e) → F (S.env c.world e) → F c.world)
    (h : S.Run P w c) (hF : F c.world) :
    F w ∨ ∃ e pre, e :: pre <:+ c.trace ∧ ¬ F e.before ∧ F e.after := by
  induction h with
  | init => exact Or.inl hF
  | @tail c c' a hr hp hs ih =>
      rcases step_cases hs with ⟨x, w', tag, p, rfl, hst, rfl⟩ | ⟨i, x, tag, o, k, rfl, ht, rfl⟩ |
        ⟨v, rfl, rfl⟩
      · exact ih (hstart hr hp hst hF)
      · by_cases hb : F c.world
        · rcases ih hb with hw | ⟨e, pre, he, hF⟩
          · exact Or.inl hw
          · exact Or.inr ⟨e, pre, he.trans (List.suffix_cons _ _), hF⟩
        · exact Or.inr ⟨_, _, List.suffix_refl _, hb, hF⟩
      · exact ih (henv hr hp hF)

/--
A part of the world that neither starts nor the environment touch is as some event
left it, or some later call has changed it.
-/
theorem Run.changed_since {γ : Type} {G : σ → γ}
    (hstart : ∀ {w n x w' tag p}, S.start w n x = some (w', tag, p) → G w' = G w)
    (henv : ∀ w e, G (S.env w e) = G w) (h : S.Run P w c) {e : Event Op Res ε σ τ}
    {pre : List (Event Op Res ε σ τ)} (he : e :: pre <:+ c.trace) :
    G c.world = G e.after ∨ ∃ e' pre', e' :: pre' <:+ c.trace ∧ e :: pre <:+ pre'
      ∧ G e'.after ≠ G e'.before := by
  induction h with
  | init => simp [System.init] at he
  | @tail c c' a hr _ hs ih =>
      rcases step_cases hs with ⟨x, w', tag, p, _, hst, rfl⟩ | ⟨i, x, tag, o, k, _, _, rfl⟩ |
        ⟨v, _, rfl⟩
      · exact Or.imp_left (hstart hst).trans (ih he)
      · rcases List.suffix_cons_iff.mp he with heq | hsuf
        · exact Or.inl (by rw [(List.cons.inj heq).1])
        · by_cases hG : G (S.exec c.world o x).2 = G c.world
          · refine Or.imp hG.trans ?_ (ih hsuf)
            intro hx
            obtain ⟨e', pre', he', hrest⟩ := hx
            exact ⟨e', pre', he'.trans (List.suffix_cons _ _), hrest⟩
          · exact Or.inr ⟨_, _, List.suffix_refl _, hsuf, hG⟩
      · exact Or.imp_left (henv _ _).trans (ih he)

/-- An order on worlds along which every act moves up. -/
structure Grows (S : System Op Res ε σ χ τ ρ ι κ) (R : σ → σ → Prop) : Prop where
  refl : ∀ w, R w w
  trans : ∀ {u v w}, R u v → R v w → R u w
  exec : ∀ w o x, R w (S.exec w o x).2
  start : ∀ {w n x w' tag p}, S.start w n x = some (w', tag, p) → R w w'
  env : ∀ w e, R w (S.env w e)

theorem Grows.le_of_step {R : σ → σ → Prop} (hR : S.Grows R) {c c' : Config Op Res ε σ τ ρ}
    {a : Act χ ι κ} (h : S.step c a = some c') : R c.world c'.world := by
  rcases step_cases h with ⟨x, w', tag, p, _, hst, rfl⟩ | ⟨i, x, tag, o, k, _, _, rfl⟩ |
    ⟨v, _, rfl⟩
  · exact hR.start hst
  · exact hR.exec ..
  · exact hR.env ..

/-- What starting a thread establishes, and growth keeps, holds as long as the thread is there. -/
theorem Run.of_thread {R : σ → σ → Prop} (hR : S.Grows R) {F : τ → σ → Prop}
    (hstart : ∀ {w n x w' tag p}, S.start w n x = some (w', tag, p) → F tag w')
    (hmono : ∀ {tag w w'}, R w w' → F tag w → F tag w') (h : S.Run P w c) {i : Nat}
    {t : Thread Op Res ε τ ρ} (ht : c.threads[i]? = some t) : F t.tag c.world := by
  induction h generalizing t with
  | init => simp [System.init] at ht
  | @tail c c' a _ _ hs ih =>
      rcases step_cases hs with ⟨x, w', tag, p, _, hst, rfl⟩ | ⟨j, x, tag, o, k, _, hj, rfl⟩ |
        ⟨v, _, rfl⟩
      · rw [List.getElem?_append] at ht
        split at ht
        · exact hmono (hR.start hst) (ih ht)
        · have htag : t = ⟨tag, p⟩ := by
            have := List.mem_of_getElem? ht
            simpa using this
          rw [htag]
          exact hstart hst
      · refine hmono (hR.exec ..) ?_
        by_cases hij : j = i
        · subst hij
          rw [List.getElem?_set_self (List.getElem?_eq_some_iff.mp hj).1] at ht
          rw [← Option.some.inj ht]
          exact ih (t := ⟨tag, .op o k⟩) hj
        · exact ih (by rwa [List.getElem?_set_ne hij] at ht)
      · exact hmono (hR.env ..) (ih ht)

/-- The world has only grown since any recorded event. -/
theorem Run.le_of_mem {R : σ → σ → Prop} (hR : S.Grows R) (h : S.Run P w c)
    {e : Event Op Res ε σ τ} (he : e ∈ c.trace) : R e.after c.world := by
  induction h with
  | init => simp [System.init] at he
  | @tail c c' a _ _ hs ih =>
      rcases step_cases hs with ⟨x, w', tag, p, _, hst, rfl⟩ | ⟨i, x, tag, o, k, _, _, rfl⟩ |
        ⟨v, _, rfl⟩
      · exact hR.trans (ih he) (hR.start hst)
      · rcases List.mem_cons.mp he with rfl | he
        · exact hR.refl _
        · exact hR.trans (ih he) (hR.exec ..)
      · exact hR.trans (ih he) (hR.env ..)

/-- And it had already grown that far before any later event. -/
theorem Run.le_of_suffix {R : σ → σ → Prop} (hR : S.Grows R) (h : S.Run P w c)
    {e e' : Event Op Res ε σ τ} {pre : List (Event Op Res ε σ τ)} (he : e :: pre <:+ c.trace)
    (he' : e' ∈ pre) : R e'.after e.before := by
  obtain ⟨c₀, _, _, hr, _, hw, ht, _⟩ := h.origin he
  exact hw ▸ hr.le_of_mem hR (ht ▸ he')

/-! ## The discipline of each thread -/

section Obeys

variable {D : τ → Discipline Op Res ε} {Q : τ → List (Call Op Res ε) → Except ε ρ → Prop}

/--
**Each thread keeps to its discipline, whatever the others do.**

It is enough that programs are started obedient, and that no call is ever
answered in a way the discipline did not expect.
-/
theorem Run.obeys
    (hstart : ∀ {c x w' tag p}, S.Run P w c → P c (.start x) →
      S.start c.world c.threads.length x = some (w', tag, p) → p.Obeys (D tag) (Q tag) [])
    (hgives : ∀ {c i x tag o k}, S.Run P w c → P c (.step i x) →
      c.threads[i]? = some ⟨tag, .op o k⟩ → (D tag).may (hist c.trace i) o →
      (D tag).gives (hist c.trace i) o (S.exec c.world o x).1)
    (h : S.Run P w c) {i : Nat} {t : Thread Op Res ε τ ρ} (ht : c.threads[i]? = some t) :
    t.prog.Obeys (D t.tag) (Q t.tag) (hist c.trace i) := by
  -- induction on the run: a step answers the head of one program
  induction h generalizing i t with
  | init => simp [System.init] at ht
  | @tail c c' a hr hp hs ih =>
      rcases step_cases hs with ⟨x, w', tag, p, rfl, hst, rfl⟩ |
        ⟨j, x, tag, o, k, rfl, hj, rfl⟩ | ⟨v, _, rfl⟩
      · rcases Nat.lt_or_ge i c.threads.length with hlt | hge
        · exact ih (by rwa [List.getElem?_append_left hlt] at ht)
        · -- the thread just started: no event can carry its number yet
          rw [List.getElem?_append_right hge] at ht
          have hi : i = c.threads.length := by
            have := (List.getElem?_eq_some_iff.mp ht).1
            simp at this; omega
          subst hi
          simp only [Nat.sub_self, List.getElem?_cons_zero, Option.some.injEq] at ht
          subst ht
          rw [hist_eq_nil fun e he => Nat.ne_of_lt (hr.tid_lt he)]
          exact hstart hr hp hst
      · by_cases hij : j = i
        · subst hij
          have hlt := (List.getElem?_eq_some_iff.mp hj).1
          rw [List.getElem?_set_self hlt] at ht
          obtain rfl := Option.some.inj ht
          have hob := ih hj
          simp only [Prog.obeys_op] at hob
          have hnew := hob.2 _ (hgives hr hp hj hob.1)
          simpa [hist, Event.call] using hnew
        · rw [List.getElem?_set_ne hij] at ht
          rw [hist_cons_ne (by exact hij)]
          exact ih ht
      · exact ih ht

/-- **Every recorded call was one its thread might make.** -/
theorem Run.may
    (hstart : ∀ {c x w' tag p}, S.Run P w c → P c (.start x) →
      S.start c.world c.threads.length x = some (w', tag, p) → p.Obeys (D tag) (Q tag) [])
    (hgives : ∀ {c i x tag o k}, S.Run P w c → P c (.step i x) →
      c.threads[i]? = some ⟨tag, .op o k⟩ → (D tag).may (hist c.trace i) o →
      (D tag).gives (hist c.trace i) o (S.exec c.world o x).1)
    (h : S.Run P w c) {e : Event Op Res ε σ τ} {pre : List (Event Op Res ε σ τ)}
    (he : e :: pre <:+ c.trace) : (D e.tag).may (hist pre e.tid) e.op := by
  obtain ⟨c₀, x, k, hr, _, _, htr, ht, _⟩ := h.origin he
  have hob := Run.obeys (Q := Q) hstart hgives hr ht
  simp only [Prog.obeys_op] at hob
  exact htr ▸ hob.1

end Obeys

end System

end Effect
