import HyperTrace.Effect.Only
import HyperTrace.Proof.Evidence
import HyperTrace.Proof.PolicyOrder
import HyperTrace.Proof.Writes

/-!
# The policies, as a store

Policies are created and deleted by requests that overlap freely, each in a
transaction of its own, and nobody checks anything first. The listing is still what
one would expect of a store: it answers, it shows what was created and not deleted,
and no id twice, and what was deleted does not come back.

All of it rests on one fact: a row is only ever inserted under an id that its own
thread has just drawn.
-/

namespace HyperTrace.Proof

open HyperTrace Effect

variable {K : Type}

/-! ## Who writes policies -/

section

variable {v v' : World K} {x : Choice}

end

/-! ## What the table holds -/

variable [Scalar K]

variable {cfg : Settings} {P : SysConfig K → SysAct K → Prop} {w : World K} {c : SysConfig K}

/-- The row was inserted, whatever the call answered. -/
def Stores (row : PolicyRow K) (e : SysEvent K) : Prop :=
  e.op = .insertPolicy row ∧ row ∈ e.after.policies

/-- What had the id was deleted, whatever the call answered. -/
def Removes (id : Uuid) (e : SysEvent K) : Prop :=
  e.op = .deletePolicy id ∧ (∃ row ∈ e.before.policies, row.id = id)
    ∧ ∀ row ∈ e.after.policies, row.id ≠ id

/-- The table is what the calls made of it. -/
structure Faithful (v : World K) (tr : List (SysEvent K)) : Prop where
  created : ∀ row ∈ v.policies, ∃ e ∈ tr, e.op = .insertPolicy row
  nodup : (v.policies.map PolicyRow.id).Nodup
  /-- What was inserted is there, unless it was deleted since. -/
  durable : ∀ e pre row, e :: pre <:+ tr → Stores row e →
    row ∈ v.policies ∨ ∃ d pre', d :: pre' <:+ tr ∧ e :: pre <:+ pre' ∧ Removes row.id d
  deleted : ∀ e ∈ tr, ∀ id, Removes id e →
    ∃ e' ∈ tr, ∃ row : PolicyRow K, e'.op = .insertPolicy row ∧ row.id = id
  gone : ∀ e ∈ tr, ∀ id, Removes id e → ∀ row ∈ v.policies, row.id ≠ id

omit [Scalar K] in
theorem Faithful.congr {v v' : World K} {tr : List (SysEvent K)} (ih : Faithful v tr)
    (hpol : v'.policies = v.policies) : Faithful v' tr :=
  ⟨hpol ▸ ih.created, hpol ▸ ih.nodup, hpol ▸ ih.durable, ih.deleted, hpol ▸ ih.gone⟩

omit [Scalar K] in
/-- A call that adds no row but its own, under a new id, and drops none but those it removes. -/
theorem Faithful.cons {tr : List (SysEvent K)} {e : SysEvent K} (ih : Faithful e.before tr)
    (hnew : ∀ row, e.op = .insertPolicy row → ∀ e' ∈ tr, ∀ row', e'.op = .insertPolicy row' →
      row'.id ≠ row.id)
    (hnodup : (e.after.policies.map PolicyRow.id).Nodup)
    (hadded : ∀ row ∈ e.after.policies, row ∈ e.before.policies ∨ e.op = .insertPolicy row)
    (hdropped : ∀ row ∈ e.before.policies, row ∈ e.after.policies ∨ Removes row.id e) :
    Faithful e.after (e :: tr) where
  created row hrow := by
    rcases hadded row hrow with hrow | hop
    · obtain ⟨e', he', hop⟩ := ih.created row hrow
      exact ⟨e', List.mem_cons_of_mem _ he', hop⟩
    · exact ⟨e, List.mem_cons_self .., hop⟩
  nodup := hnodup
  durable e' pre row he' hstores := by
    rcases List.suffix_cons_iff.mp he' with heq | he'
    · obtain ⟨rfl, rfl⟩ := List.cons.inj heq
      exact Or.inl hstores.2
    · rcases ih.durable e' pre row he' hstores with hrow | ⟨d, pre', hd, hlater, hremoves⟩
      · exact (hdropped row hrow).imp_right fun hremoves =>
          ⟨e, tr, List.suffix_refl _, he', hremoves⟩
      · exact Or.inr ⟨d, pre', hd.trans (List.suffix_cons ..), hlater, hremoves⟩
  deleted e' he' id hremoves := by
    rcases List.mem_cons.mp he' with rfl | he'
    · obtain ⟨row, hrow, hid⟩ := hremoves.2.1
      obtain ⟨e₀, he₀, hop⟩ := ih.created row hrow
      exact ⟨e₀, List.mem_cons_of_mem _ he₀, row, hop, hid⟩
    · obtain ⟨e₀, he₀, hinserted⟩ := ih.deleted e' he' id hremoves
      exact ⟨e₀, List.mem_cons_of_mem _ he₀, hinserted⟩
  gone e' he' id hremoves row hrow := by
    rcases List.mem_cons.mp he' with rfl | he'
    · exact hremoves.2.2 row hrow
    · rcases hadded row hrow with hrow | hop
      · exact ih.gone e' he' id hremoves row hrow
      -- what was deleted had been inserted, and not under this id
      · obtain ⟨e₀, he₀, row₀, hop₀, hid₀⟩ := ih.deleted e' he' id hremoves
        exact fun hid => hnew row hop e₀ he₀ row₀ hop₀ (hid₀.trans hid.symm)

end HyperTrace.Proof
