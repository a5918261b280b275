import Mathlib.Data.List.Chain
import Mathlib.Data.List.Infix

/-!
# Append-only logs whose entries refer back

An entry of a log is a root, or follows an entry that was there when it was
appended. Where every such step leads to a later stage, there is a way back from
any entry to a root, and it is no longer than the stage of the entry.
-/

namespace Effect

variable {α : Type} {isRoot : α → Prop} {follows : α → α → Prop} {l : List α} {x : α}

/-- Every entry is a root, or follows one that was appended before it. -/
def Rooted (isRoot : α → Prop) (follows : α → α → Prop) (l : List α) : Prop :=
  ∀ before x, before ++ [x] <+: l → isRoot x ∨ ∃ y ∈ before, follows y x

theorem Rooted.nil : Rooted isRoot follows ([] : List α) := by
  intro before x h
  simp at h

/-- An append looks at the new entry only. -/
theorem Rooted.append (h : Rooted isRoot follows l) (hx : isRoot x ∨ ∃ y ∈ l, follows y x) :
    Rooted isRoot follows (l ++ [x]) := by
  intro before y hy
  rcases List.prefix_concat_iff.mp hy with heq | hpre
  · obtain ⟨rfl, rfl⟩ := List.append_inj' heq rfl |>.imp_right List.singleton_inj.mp
    exact hx
  · exact h before y hpre

/-- A way through the log from a root to an entry, each step of it to an entry that follows. -/
structure Lineage (isRoot : α → Prop) (follows : α → α → Prop) (l path : List α) (x : α) :
    Prop where
  /-- In the order of the log. -/
  sublist : (path ++ [x]).Sublist l
  linked : (path ++ [x]).IsChain follows
  root : ∀ r, (path ++ [x]).head? = some r → isRoot r

theorem Lineage.of_root (hx : isRoot x) : Lineage isRoot follows [x] [] x where
  sublist := List.Sublist.refl _
  linked := List.isChain_singleton x
  root r hr := by
    obtain rfl : x = r := Option.some.inj hr
    exact hx

theorem Lineage.step {path : List α} {y : α} (h : Lineage isRoot follows l path y)
    (hy : follows y x) : Lineage isRoot follows (l ++ [x]) (path ++ [y]) x where
  sublist := h.sublist.append_right [x]
  linked := by
    refine List.isChain_append.mpr ⟨h.linked, List.isChain_singleton x, fun z hz u hu => ?_⟩
    simp only [List.getLast?_append, List.getLast?_singleton, Option.some_or,
      Option.mem_some_iff] at hz
    obtain rfl : y = z := hz
    obtain rfl : x = u := by simpa using hu
    exact hy
  root r hr := by
    refine h.root r ?_
    rwa [List.head?_append_of_ne_nil _ (by simp)] at hr

theorem Lineage.mono {path l' : List α} (h : Lineage isRoot follows l path x)
    (hl : l.Sublist l') : Lineage isRoot follows l' path x :=
  ⟨h.sublist.trans hl, h.linked, h.root⟩

/-- **Every entry has a lineage**, with at most as many steps as its stage. -/
theorem Rooted.lineage {stage : α → Nat} (hstage : ∀ x y, follows x y → stage x < stage y)
    (h : Rooted isRoot follows l) (hx : x ∈ l) :
    ∃ path, Lineage isRoot follows l path x ∧ path.length ≤ stage x := by
  -- induction on how much of the log stands before the entry
  have key : ∀ n before x, before.length = n → before ++ [x] <+: l →
      ∃ path, Lineage isRoot follows (before ++ [x]) path x ∧ path.length ≤ stage x := by
    intro n
    induction n using Nat.strong_induction_on with
    | _ n ih =>
        intro before x hn hpre
        rcases h before x hpre with hroot | ⟨y, hy, hfollows⟩
        · exact ⟨[], (Lineage.of_root hroot).mono (List.sublist_append_right ..), Nat.zero_le _⟩
        · obtain ⟨a, b, rfl⟩ := List.append_of_mem hy
          have ha : a ++ [y] <+: a ++ y :: b := ⟨b, by simp⟩
          have hlt : a.length < n := by
            rw [← hn]
            simp
          obtain ⟨path, hpath, hlen⟩ :=
            ih a.length hlt a y rfl (ha.trans ((List.prefix_append _ _).trans hpre))
          refine ⟨path ++ [y], (hpath.step hfollows).mono (ha.sublist.append_right [x]), ?_⟩
          have := hstage y x hfollows
          rw [List.length_append, List.length_singleton]
          omega
  obtain ⟨a, b, rfl⟩ := List.append_of_mem hx
  obtain ⟨path, hpath, hlen⟩ := key a.length a x rfl ⟨b, by simp⟩
  exact ⟨path, hpath.mono (by simp), hlen⟩

end Effect
