import HyperTrace.Pipeline
import HyperTrace.Proof.Correlation
import HyperTrace.Proof.Dwell
import Mathlib.Data.Finset.Dedup
import Mathlib.Data.Finset.Card

/-!
# Readings and collection cycles

The dwell counts messages. One cycle of a collector sends a message for each pod, and
all pods of a workload come under one service, so a workload with three pods on a
node dwells through a single cycle. What the cycles have to do with the dwell is said
by `dwell`: the threads whose readings qualified, one after the other. The persisted
count never exceeds its length, so an anomaly is published only where it is three
long; and its cycles are as many as those of the first three in it.
-/

namespace HyperTrace.Proof

open HyperTrace Effect Behaviour

variable {K : Type}

section

variable [Scalar K] {cfg : Settings}
variable {P : SysConfig K → SysAct K → Prop} {w : World K} {c : SysConfig K}

/-- Whether the reading of a thread qualifies, judged by what the thread has looked up. -/
def qualified (tr : List (SysEvent K)) (i : Nat) (m : CostEvent K) : Bool :=
  (lookedIn tr i).any (qualifiesIn · m)

/--
The threads of the readings of a service that qualified one after the other, newest first.

A reading that does not qualify ends the row once its save has taken effect, which is where
the persisted count is zero.
-/
def dwell (service : String) : List (SysEvent K) → List Nat
  | [] => []
  | e :: tr =>
      match e.tag, e.op with
      | .cost m, .saveProfile s metric _ =>
          if s = service ∧ metric = metricCost then
            if qualified tr e.tid m then e.tid :: dwell service tr
            else if consecutiveQualifying e.after service = 0 then [] else dwell service tr
          else dwell service tr
      | _, _ => dwell service tr

theorem dwell_cons_ne {service : String} {e : SysEvent K} {tr : List (SysEvent K)}
    (h : ∀ row, e.op ≠ .saveProfile service metricCost row) :
    dwell service (e :: tr) = dwell service tr := by
  simp only [dwell]
  split
  · rename_i m s metric row htag hop
    refine if_neg ?_
    intro hx
    obtain ⟨rfl, rfl⟩ := hx
    exact h row hop
  · rfl

/-- **What a save does to the row of readings.** -/
theorem dwell_saved (h : (system cfg).Run P w c) {e : SysEvent K} {pre : List (SysEvent K)}
    (he : e :: pre <:+ c.trace) {service : String} {row : BaselineRow K}
    (hop : e.op = .saveProfile service metricCost row) :
    ∃ m tz, e.tag = .cost m ∧ Counts m (profileOf e.before service metricCost) tz row
      ∧ qualified pre e.tid m = qualifies m (profileOf e.before service metricCost) tz
      ∧ dwell service (e :: pre)
          = if qualified pre e.tid m then e.tid :: dwell service pre
            else if consecutiveQualifying e.after service = 0 then [] else dwell service pre := by
  obtain ⟨m, tz, htag, _, hcounts, hreadings⟩ := judged_at_save h he hop
  refine ⟨m, tz, htag, hcounts, ?_, ?_⟩
  · simp only [readings, htag, hop, and_self, ↓reduceIte, List.cons.injEq, and_true] at hreadings
    exact hreadings
  · simp only [dwell, htag, hop, and_self, ↓reduceIte]

/-! ## The count and the row -/

/-- A save takes effect or is lost. -/
theorem profileOf_after (h : (system cfg).Run P w c) {e : SysEvent K} {pre : List (SysEvent K)}
    (he : e :: pre <:+ c.trace) {service : String} {row : BaselineRow K}
    (hop : e.op = .saveProfile service metricCost row) :
    profileOf e.after service metricCost = row.profile
      ∨ profileOf e.after service metricCost = profileOf e.before service metricCost := by
  obtain ⟨tid, tag, op, res, before, after⟩ := e
  dsimp only at hop
  subst hop
  obtain ⟨⟨fault, tie⟩, hx⟩ := exec_of_suffix h he
  cases fault with
  | none =>
      obtain rfl : before.saveProfile service metricCost row = after := congrArg Prod.snd hx
      exact Or.inl (profileOf_saved before service metricCost row)
  | before err =>
      obtain rfl : before = after := congrArg Prod.snd hx
      exact Or.inr rfl
  | after err =>
      obtain rfl : before.saveProfile service metricCost row = after := congrArg Prod.snd hx
      exact Or.inl (profileOf_saved before service metricCost row)

/-- A save counts one more, or starts again from nothing, or is lost. -/
theorem count_le_saved (h : (system cfg).Run P w c) {e : SysEvent K} {pre : List (SysEvent K)}
    (he : e :: pre <:+ c.trace) {service : String} {row : BaselineRow K}
    (hop : e.op = .saveProfile service metricCost row)
    (hle : consecutiveQualifying e.before service ≤ (dwell service pre).length) :
    consecutiveQualifying e.after service ≤ (dwell service (e :: pre)).length := by
  obtain ⟨m, tz, _, ⟨suppressed, hrow⟩, hq, hdwell⟩ := dwell_saved h he hop
  rw [hdwell, hq]
  rcases profileOf_after h he hop with hsaved | hsame
  · have hcount : consecutiveQualifying e.after service
        = dwelt m (profileOf e.before service metricCost) tz := by
      rw [consecutiveQualifying, hsaved, hrow]
      rfl
    rw [hcount, dwelt]
    cases qualifies m (profileOf e.before service metricCost) tz with
    | true =>
        rw [if_pos rfl, if_pos rfl, List.length_cons]
        exact Nat.succ_le_succ hle
    | false => exact Nat.zero_le _
  · have hcount : consecutiveQualifying e.after service
        = consecutiveQualifying e.before service := by
      rw [consecutiveQualifying, hsame, consecutiveQualifying]
    rw [hcount]
    cases qualifies m (profileOf e.before service metricCost) tz with
    | true =>
        rw [if_pos rfl, List.length_cons]
        exact Nat.le_succ_of_le hle
    | false =>
        rw [if_neg Bool.false_ne_true]
        split
        · rename_i hzero
          exact le_of_eq hzero
        · exact hle

/-- **The persisted count is no larger than the row is long.** -/
theorem count_le_dwell (h : (system cfg).Run P (World.empty K) c) (service : String) :
    consecutiveQualifying c.world service ≤ (dwell service c.trace).length := by
  refine h.keeps (I := fun v tr => consecutiveQualifying v service ≤ (dwell service tr).length)
    (Nat.le_refl 0) ?_ ?_ ?_
  · intro c x w' tag p hst ih
    rw [consecutiveQualifying, profileOf_start hst]
    exact ih
  · intro c i x tag o k _ _ _ h' ih
    by_cases hop : ∃ row, o = .saveProfile service metricCost row
    · obtain ⟨row, rfl⟩ := hop
      exact count_le_saved h' (List.suffix_refl _) rfl ih
    · push Not at hop
      rcases profileOf_changes (exec_changes c.world o x) service metricCost with
        hsame | ⟨row, ho, _⟩
      · dsimp only [system]
        rw [dwell_cons_ne hop, consecutiveQualifying, hsame]
        exact ih
      · exact absurd ho (hop row)
  · intro c v ih
    dsimp only [system]
    rw [consecutiveQualifying, profileOf_env]
    exact ih

/-! ## What is published has dwelt -/

theorem judged_true {m : CostEvent K} {t : History K} (hj : Judged m t true) :
    ∃ h p tz row now, t = ⟨.saveProfile m.service metricCost row, .ok ()⟩ :: ⟨.now, .ok now⟩ ::
      looked m p tz h ∧ Counts m p tz row ∧ dwellSamples ≤ dwelt m p tz := by
  generalize hflag : true = flag at hj
  cases hj with
  | mk _ hcounts => exact ⟨_, _, _, _, _, rfl, hcounts, of_decide_eq_true hflag.symm⟩

/-- **Before an anomaly is published three readings in a row have qualified.** -/
theorem dwell_of_published (h : (system cfg).Run P (World.empty K) c) {e : SysEvent K}
    {pre : List (SysEvent K)} (he : e :: pre <:+ c.trace) {ma : AnomalyMessage K}
    (hop : e.op = .basicPublish (.anomaly ma)) :
    ∃ s pre' row, s :: pre' <:+ pre ∧ s.tid = e.tid
      ∧ s.op = .saveProfile ma.service metricCost row
      ∧ 3 ≤ (dwell ma.service (s :: pre')).length := by
  have hcalls := calls_of_suffix h he
  rw [hop] at hcalls
  rcases detecting hcalls rfl with ⟨m, _, hmay⟩ | ⟨m, _, hmay⟩
  · cases hmay
  · generalize htr : hist pre e.tid = t at hmay
    cases hmay with
    | early _ ho => cases ho
    | @publish h₀ _ f id now hj hf hatt =>
        obtain ⟨h₁, p, tz, row, now', rfl, ⟨_, hrow⟩, hdwelt⟩ := judged_true hj
        have hsplit : ∃ l, hist pre e.tid = l ++ ⟨.saveProfile m.service metricCost row, .ok ()⟩ ::
            ⟨.now, .ok now'⟩ :: looked m p tz h₁ := by
          rw [htr]
          cases hatt with
          | first => exact ⟨[_, _, _], rfl⟩
          | second => exact ⟨[_, _, _, _], rfl⟩
        obtain ⟨l, hl⟩ := hsplit
        obtain ⟨s, pre', hs, hsi, hcall, _⟩ := hist_split hl
        have hservice : (f.message id now).service = m.service := hf.service
        have hsop : s.op = .saveProfile m.service metricCost row := congrArg Call.op hcall
        have hs' := hs.trans ((List.suffix_cons e pre).trans he)
        obtain ⟨m', tz', _, ⟨_, hrow'⟩, hq, hdwell⟩ := dwell_saved h hs' hsop
        -- the count the reading was judged by is the one that was saved
        have hcount : dwelt m p tz = dwelt m' (profileOf s.before m.service metricCost) tz' := by
          rw [hrow] at hrow'
          injection hrow' with hrow'
          injection hrow' with hrow'
          injection hrow'
        obtain ⟨c₀, _, _, hr₀, _, hw₀, htr₀, _⟩ := h.origin hs'
        have hle := count_le_dwell hr₀ m.service
        rw [hw₀, htr₀] at hle
        rw [hservice]
        refine ⟨s, pre', row, hs, hsi, hsop, ?_⟩
        rw [hcount, dwelt] at hdwelt
        rw [hdwell, hq]
        cases hqual : qualifies m' (profileOf s.before m.service metricCost) tz' with
        | true =>
            rw [hqual, if_pos rfl] at hdwelt
            rw [if_pos rfl, List.length_cons]
            exact hdwelt.trans (Nat.succ_le_succ hle)
        | false =>
            rw [hqual, if_neg Bool.false_ne_true] at hdwelt
            cases hdwelt

end

/-! ## Along the pipeline -/

/-- How many cycles the readings of these threads stem from. -/
def cycles (p : Pipeline K) (threads : List Nat) : Nat := (threads.map p.cycle).toFinset.card

/-- Whoever publishes an anomaly has completed a row of readings from three cycles or more. -/
def AcrossCycles [Scalar K] (p : Pipeline K) : Prop :=
  ∀ e pre ma, e :: pre <:+ p.system.trace → e.op = .basicPublish (.anomaly ma) →
    ∃ s pre' row, s :: pre' <:+ pre ∧ s.tid = e.tid ∧ s.op = .saveProfile ma.service metricCost row
      ∧ 3 ≤ cycles p (dwell ma.service (s :: pre'))

theorem cycles_cons_le (p : Pipeline K) (i : Nat) (l : List Nat) :
    cycles p l ≤ cycles p (i :: l) := by
  refine Finset.card_le_card fun t ht => ?_
  rw [List.map_cons, List.toFinset_cons]
  exact Finset.mem_insert_of_mem ht

theorem cycles_congr {p p' : Pipeline K} {l : List Nat} (h : ∀ i ∈ l, p'.cycle i = p.cycle i) :
    cycles p' l = cycles p l := by
  rw [cycles, cycles, List.map_congr_left h]

section

variable [Scalar K] {cfg : Settings} {pricing : Cost.PricingModel K}
variable {P : Pipeline K → Move K → Prop} {p p' : Pipeline K}

/--
The third reading in a row that qualifies stems from another cycle than the two before
it, and these from two.
-/
def thirdSpans (p : Pipeline K) : Move K → Bool
  | .act (.step i _) =>
      match p.system.threads[i]? with
      | some ⟨.cost m, .op (.saveProfile service metric _) _⟩ =>
          if metric = metricCost ∧ qualified p.system.trace i m = true
              ∧ (dwell service p.system.trace).length = 2 then
            decide ((i :: dwell service p.system.trace).map p.cycle).Nodup
          else true
      | _ => true
  | _ => true

theorem mem_of_dwell {service : String} {tr : List (SysEvent K)} {i : Nat}
    (h : i ∈ dwell service tr) : ∃ e ∈ tr, e.tid = i := by
  induction tr with
  | nil => cases h
  | cons e tr ih =>
      have hrest : i ∈ dwell service tr → ∃ e' ∈ e :: tr, e'.tid = i := by
        intro hi
        obtain ⟨e', he', hi'⟩ := ih hi
        exact ⟨e', List.mem_cons_of_mem _ he', hi'⟩
      simp only [dwell] at h
      split at h
      · split at h
        · split at h
          · rcases List.mem_cons.mp h with rfl | h
            · exact ⟨e, List.mem_cons_self .., rfl⟩
            · exact hrest h
          · split at h
            · cases h
            · exact hrest h
        · exact hrest h
      · exact hrest h

/-- **What a move does to the running system**: nothing, a delivery, or an act of its own. -/
theorem step_system {a : Move K} (h : p.step cfg pricing a = some p') :
    (p'.system = p.system ∧ p'.cycle = p.cycle)
      ∨ (∃ m, (system cfg).step p.system (.start (.cost m)) = some p'.system
          ∧ ∀ i < p.system.threads.length, p'.cycle i = p.cycle i)
      ∨ ∃ x, a = .act x ∧ (system cfg).step p.system x = some p'.system ∧ p'.cycle = p.cycle := by
  cases a with
  | collect api cluster node nodeUsage pods published =>
      obtain rfl := Option.some.inj h
      exact Or.inl ⟨rfl, rfl⟩
  | price n copies again =>
      simp only [Pipeline.step] at h
      split at h
      · cases h
      · obtain rfl := Option.some.inj h
        exact Or.inl ⟨rfl, rfl⟩
  | deliver n again =>
      simp only [Pipeline.step] at h
      split at h
      · cases h
      · split at h
        · cases h
        · rename_i hstep
          obtain rfl := Option.some.inj h
          exact Or.inr (Or.inl ⟨_, hstep, fun i hi => if_neg (Nat.ne_of_lt hi)⟩)
  | act x =>
      simp only [Pipeline.step] at h
      split at h
      · cases h
      · obtain ⟨c, hc, rfl⟩ := Option.map_eq_some_iff.mp h
        exact Or.inr (Or.inr ⟨x, rfl, hc, rfl⟩)

/-- Behind the collectors and the cost engine runs the system. -/
theorem run_system (h : Pipeline.Run cfg pricing P p) :
    (system cfg).Run (fun _ _ => True) (World.empty K) p.system := by
  induction h with
  | init => exact .init
  | tail _ _ hs ih =>
      rcases step_system hs with ⟨hsame, _⟩ | ⟨m, hstep, _⟩ | ⟨x, _, hstep, _⟩
      · rw [hsame]
        exact ih
      · exact ih.tail trivial hstep
      · exact ih.tail trivial hstep

/-- Wherever three readings in a row had qualified, they stem from three cycles. -/
def Spanned (p : Pipeline K) (service : String) : Prop :=
  ∀ tr, tr <:+ p.system.trace → 3 ≤ (dwell service tr).length →
    3 ≤ cycles p (dwell service tr)

theorem Spanned.congr {service : String} (h : Spanned p service)
    (hrun : Pipeline.Run cfg pricing P p) (htr : p'.system.trace = p.system.trace)
    (hcycle : ∀ i < p.system.threads.length, p'.cycle i = p.cycle i) : Spanned p' service := by
  intro tr hsuf hlen
  rw [htr] at hsuf
  rw [cycles_congr (p := p)]
  · exact h tr hsuf hlen
  · intro i hi
    obtain ⟨e, he, rfl⟩ := mem_of_dwell hi
    exact hcycle _ ((run_system hrun).tid_lt (hsuf.subset he))

/-- A reading added to a row of two is the one the condition is about. -/
theorem spanned_saved {service : String} {e : SysEvent K}
    (hrun : (system cfg).Run (fun _ _ => True) (World.empty K) p'.system)
    (htr : p'.system.trace = e :: p.system.trace) (hcycle : p'.cycle = p.cycle)
    (h : Spanned p service) {x : Choice} {k : Except Err (Op.Res e.op) → Py K Reply}
    (ht : p.system.threads[e.tid]? = some ⟨e.tag, .op e.op k⟩)
    (hspans : thirdSpans p (.act (.step e.tid x)) = true) {row : BaselineRow K}
    (hop : e.op = .saveProfile service metricCost row)
    (hlen : 3 ≤ (dwell service (e :: p.system.trace)).length) :
    3 ≤ cycles p' (dwell service (e :: p.system.trace)) := by
  obtain ⟨tid, tag, op, res, before, after⟩ := e
  dsimp only at hop ht
  subst hop
  have hsuf := List.suffix_refl p'.system.trace
  nth_rewrite 1 [htr] at hsuf
  obtain ⟨m, tz, htag, _, _, hdwell⟩ := dwell_saved hrun hsuf rfl
  dsimp only at htag hdwell
  subst htag
  rw [cycles_congr (p := p) fun i _ => congrFun hcycle i]
  rw [hdwell] at hlen ⊢
  by_cases hq : qualified p.system.trace tid m = true
  · rw [if_pos hq] at hlen ⊢
    by_cases htwo : (dwell service p.system.trace).length = 2
    · simp only [thirdSpans, ht, hq, htwo, and_self, ↓reduceIte, decide_eq_true_eq] at hspans
      rw [cycles, List.toFinset_card_of_nodup hspans, List.length_map]
      exact hlen
    · have hthree : 3 ≤ (dwell service p.system.trace).length := by
        rw [List.length_cons] at hlen
        omega
      exact (h _ (List.suffix_refl _) hthree).trans (cycles_cons_le ..)
  · rw [if_neg hq] at hlen ⊢
    split at hlen
    · cases hlen
    · rename_i hlost
      rw [if_neg hlost]
      exact h _ (List.suffix_refl _) hlen

/-- **Along a run of the condition every row of three spans three cycles.** -/
theorem spanned (h : Pipeline.Run cfg pricing (fun p a => thirdSpans p a) p) (service : String) :
    Spanned p service := by
  induction h with
  | init =>
      intro tr hsuf hlen
      obtain rfl := List.suffix_nil.mp hsuf
      cases hlen
  | @tail p p' a hr hp hs ih =>
      rcases step_system hs with ⟨hsame, hcycle⟩ | ⟨m, hstep, hcycle⟩ | ⟨x, rfl, hstep, hcycle⟩
      · exact ih.congr hr (congrArg Config.trace hsame) fun i _ => congrFun hcycle i
      · refine ih.congr hr ?_ hcycle
        rcases System.step_cases hstep with ⟨_, _, _, _, _, _, heq⟩ | ⟨_, _, _, _, _, ha, _⟩ |
          ⟨_, ha, _⟩
        · rw [heq]
        · cases ha
        · cases ha
      · have hrun := run_system (hr.tail hp hs)
        rcases System.step_cases hstep with ⟨y, w', tag, q, _, _, heq⟩ |
          ⟨i, y, tag, o, k, rfl, ht, heq⟩ | ⟨v, _, heq⟩
        · exact ih.congr hr (by rw [heq]) fun i _ => congrFun hcycle i
        · intro tr hsuf hlen
          have htr := congrArg Config.trace heq
          dsimp only at htr
          rw [htr] at hsuf
          rcases List.suffix_cons_iff.mp hsuf with rfl | hsuf
          · by_cases hop : ∃ row, o = .saveProfile service metricCost row
            · obtain ⟨row, rfl⟩ := hop
              exact spanned_saved hrun htr hcycle ih ht hp rfl hlen
            · push Not at hop
              rw [dwell_cons_ne hop] at hlen ⊢
              rw [cycles_congr (p := p) fun i _ => congrFun hcycle i]
              exact ih _ (List.suffix_refl _) hlen
          · rw [cycles_congr (p := p) fun i _ => congrFun hcycle i]
            exact ih tr hsuf hlen
        · exact ih.congr hr (by rw [heq]) fun i _ => congrFun hcycle i

/--
**Where the third reading in a row is always of a third cycle, an anomaly spans three.**

In every state of every such run, whatever fails, is repeated or overtakes.
-/
theorem dwell_spans_cycles (h : Pipeline.Run cfg pricing (fun p a => thirdSpans p a) p) :
    AcrossCycles p := by
  intro e pre ma he hop
  obtain ⟨s, pre', row, hs, hsi, hsop, hlen⟩ := dwell_of_published (run_system h) he hop
  refine ⟨s, pre', row, hs, hsi, hsop, ?_⟩
  exact spanned h ma.service _ (hs.trans ((List.suffix_cons e pre).trans he)) hlen

end

/-! ## One scrape of three replicas -/

section

variable [Scalar K] {cfg : Settings} {pricing : Cost.PricingModel K}

/-- A schedule all of whose moves are allowed is a run. -/
theorem run_of_steps {ok : Pipeline K → Move K → Bool} {as : List (Move K)} {p p' : Pipeline K}
    (hr : Pipeline.Run cfg pricing (fun p a => ok p a) p)
    (h : Pipeline.steps cfg pricing ok p as = some p') :
    Pipeline.Run cfg pricing (fun p a => ok p a) p' := by
  induction as generalizing p with
  | nil => exact Option.some.inj h ▸ hr
  | cons a as ih =>
      simp only [Pipeline.steps] at h
      split at h
      · rename_i ha
        split at h
        · cases h
        · rename_i hs
          exact ih (hr.tail ha hs) h
      · cases h

theorem exists_pipeline_run (ok : Pipeline K → Move K → Bool) (as : List (Move K))
    (q : Pipeline K → Bool)
    (h : (Pipeline.steps cfg pricing ok (Pipeline.init K cfg) as).any q = true) :
    ∃ p, Pipeline.Run cfg pricing (fun p a => ok p a) p ∧ q p = true := by
  obtain ⟨p, hp, hcheck⟩ := (Option.any_eq_true _ _).mp h
  exact ⟨p, run_of_steps .init hp, hcheck⟩

end

namespace Scenario

/-- A core costs one an hour, memory nothing. -/
def corePricing : Cost.PricingModel ℚ := ⟨1, 0⟩

/-- The replicas of the Deployment `victim`. -/
def victimPods : List ObjectName :=
  [⟨"victim-5d9-a", by decide, by decide⟩, ⟨"victim-5d9-b", by decide, by decide⟩,
    ⟨"victim-5d9-c", by decide, by decide⟩]

/-- Every pod belongs to the one ReplicaSet, and that to the Deployment. -/
def victimOwners : Collector.OwnerApi where
  pod _ _ := .ok [⟨"ReplicaSet", ⟨"victim-5d9", by decide, by decide⟩⟩]
  replicaSet _ _ := .ok [⟨"Deployment", ⟨"victim", by decide, by decide⟩⟩]

/-- Ten seconds later a cycle finds the replicas using so many cores. -/
def scrape (cores : List ℚ) : List (Move ℚ) :=
  [.act (.env (.tick 10000000)),
    .collect victimOwners "c" "n" ⟨4, 0⟩
      ((victimPods.zip cores).map fun u => ⟨shop, u.1, u.2, 0⟩) 4,
    .price 0 1 false]

/-- The next reading, handled by the thread of the given number in so many calls. -/
def read (tid n : Nat) : List (Move ℚ) :=
  [.price 0 1 false, .deliver 0 false] ++ List.replicate n (.act (.step tid .ok))

def flatTraffic : List (Move ℚ) :=
  [.act (.start (.traffic ⟨0, victim, 50⟩))] ++ List.replicate 5 (.act (.step 0 .ok))

/-- Two cycles to learn from, and one in which all three replicas stand out. -/
def oneScrape : List (Move ℚ) :=
  flatTraffic ++ scrape [10, 11, 10] ++ read 1 8 ++ read 2 8 ++ read 3 8 ++
    scrape [11, 10, 11] ++ read 4 8 ++ read 5 8 ++ read 6 8 ++
    scrape [100, 100, 100] ++ read 7 8 ++ read 8 8 ++ read 9 12

/-- A single replica, standing out in three cycles. -/
def threeScrapes : List (Move ℚ) :=
  flatTraffic ++ scrape [10] ++ read 1 8 ++ scrape [11] ++ read 2 8 ++ scrape [10] ++ read 3 8 ++
    scrape [11] ++ read 4 8 ++ scrape [10] ++ read 5 8 ++ scrape [100] ++ read 6 8 ++
    scrape [100] ++ read 7 8 ++ scrape [100] ++ read 8 12

/-- A publish of an anomaly of the victim. -/
def publishesVictim : Op ℚ → Bool
  | .basicPublish (.anomaly ma) => ma.service = victim
  | _ => false

theorem of_publishesVictim {o : Op ℚ} (h : publishesVictim o = true) :
    ∃ ma, o = .basicPublish (.anomaly ma) ∧ ma.service = victim := by
  unfold publishesVictim at h
  split at h
  · exact ⟨_, rfl, of_decide_eq_true h⟩
  · cases h

/-- No save of the thread completes a row from three cycles. -/
def narrow (p : Pipeline ℚ) (i : Nat) : List (SysEvent ℚ) → Bool
  | [] => true
  | e :: tr =>
      (e.tid ≠ i || !savesCost e.op || cycles p (dwell victim (e :: tr)) < 3) && narrow p i tr

theorem of_narrow {p : Pipeline ℚ} {i : Nat} {tr pre : List (SysEvent ℚ)} {s : SysEvent ℚ}
    (h : narrow p i tr = true) (hs : s :: pre <:+ tr) (hi : s.tid = i)
    (hsave : savesCost s.op = true) : cycles p (dwell victim (s :: pre)) < 3 := by
  induction tr with
  | nil => cases List.suffix_nil.mp hs
  | cons e tr ih =>
      simp only [narrow, Bool.and_eq_true] at h
      rcases List.suffix_cons_iff.mp hs with heq | hs
      · cases heq
        simpa [hi, hsave] using h.1
      · exact ih h.2 hs

end Scenario

open Scenario in
/-- Three cycles in which the one replica stands out: the third raises the incident. -/
theorem dwell_spans_cycles_scrapes :
    ∃ p : Pipeline ℚ, p.system.world.anomalyQueue.length = 1 ∧ AcrossCycles p := by
  obtain ⟨p, hrun, hone⟩ := exists_pipeline_run thirdSpans threeScrapes
    (fun p => p.system.world.anomalyQueue.length = 1)
    (show (Pipeline.steps settings corePricing _ (Pipeline.init ℚ settings) _).any _ = true by
      decide +kernel)
  exact ⟨p, of_decide_eq_true hone, dwell_spans_cycles hrun⟩

open Scenario in
/--
**The samples of one scrape raise an incident**: three replicas, all scraped at once.

All three readings of the row carry the timestamp of the same cycle, and nothing failed.
-/
theorem one_scrape_raises :
    ∃ p : Pipeline ℚ, Pipeline.Run settings corePricing (fun _ _ => True) p
      ∧ p.system.world.anomalyQueue.length = 1
      ∧ cycles p (dwell victim p.system.trace) = 1 ∧ ¬ AcrossCycles p := by
  obtain ⟨p, hrun, hcheck⟩ := exists_pipeline_run (fun _ _ => true) oneScrape
    (fun p => p.system.world.anomalyQueue.length = 1
      && cycles p (dwell victim p.system.trace) = 1 && narrow p 9 p.system.trace
      && p.system.trace.any fun e => e.tid = 9 && publishesVictim e.op)
    (show (Pipeline.steps settings corePricing _ (Pipeline.init ℚ settings) _).any _ = true by
      decide +kernel)
  simp only [Bool.and_eq_true, decide_eq_true_eq, List.any_eq_true] at hcheck
  obtain ⟨⟨⟨hqueue, hcycles⟩, hnarrow⟩, e, he, htid, hpub⟩ := hcheck
  refine ⟨p, by simpa using hrun, hqueue, hcycles, fun h => ?_⟩
  obtain ⟨ma, hop, hservice⟩ := of_publishesVictim hpub
  obtain ⟨post, pre, hsplit⟩ := List.append_of_mem he
  have hsuf : e :: pre <:+ p.system.trace := ⟨post, hsplit.symm⟩
  obtain ⟨s, pre', row, hs, hsi, hsop, hthree⟩ := h e pre ma hsuf hop
  have hsave : savesCost s.op = true := by
    rw [hsop]
    rfl
  have hlt := of_narrow hnarrow (hs.trans ((List.suffix_cons e pre).trans hsuf))
    (hsi.trans htid) hsave
  rw [hservice] at hthree
  exact absurd hthree (not_le.mpr hlt)

end HyperTrace.Proof
