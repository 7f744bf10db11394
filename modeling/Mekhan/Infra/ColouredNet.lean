import Mathlib.Data.Fintype.Defs
import Mathlib.Data.Multiset.Bind
import Mathlib.Algebra.Ring.Nat

/-!
# Coloured nets

A marking is a multiset of tokens, each a place with a colour. A transition takes one token from
each of its input places, provided its guard accepts their colours, and puts back what its script
makes of them. Which transition fires, and on which tokens, is left open: a firing names both.
-/

namespace Infra

section

variable {P C : Type}

/-- The tokens of a net by place and colour. -/
abbrev ColouredMarking (P C : Type) := Multiset (P × C)

/-- A transition: its input places, one token each, its guard, and the tokens its script puts out. -/
structure NetTransition (P C : Type) where
  inputs : List P
  guard : List C → Bool
  outputs : List C → List (P × C)

/-- The transition as part of a net with more places. -/
def NetTransition.rename {Q : Type} (f : P → Q) (t : NetTransition P C) : NetTransition Q C where
  inputs := t.inputs.map f
  guard := t.guard
  outputs := fun tokens => (t.outputs tokens).map (Prod.map f id)

/-! ## Quantities of a marking -/

/-- A quantity of a marking that each token adds its part to. -/
def total {A : Type} [AddCommMonoid A] (weight : P × C → A) (m : ColouredMarking P C) : A :=
  (m.map weight).sum

section

variable {A : Type} [AddCommMonoid A] (weight : P × C → A)

@[simp] theorem total_add (m m' : ColouredMarking P C) :
    total weight (m + m') = total weight m + total weight m' := by
  simp [total]

@[simp] theorem total_zero : total weight (0 : ColouredMarking P C) = 0 := rfl

@[simp] theorem total_cons (x : P × C) (m : ColouredMarking P C) :
    total weight (x ::ₘ m) = weight x + total weight m := by
  simp [total]

@[simp] theorem total_singleton (x : P × C) : total weight {x} = weight x := by
  simp [total]

@[simp] theorem total_coe (l : List (P × C)) :
    total weight (l : ColouredMarking P C) = (l.map weight).sum := by
  simp [total]

end

variable {m : ColouredMarking P C}

theorem exists_mem_of_total_ne_zero {A : Type} [AddCommMonoid A] {weight : P × C → A}
    (h : total weight m ≠ 0) : ∃ x ∈ m, weight x ≠ 0 := by
  by_contra hall
  refine h (Multiset.sum_eq_zero fun y hy => ?_)
  obtain ⟨x, hx, rfl⟩ := Multiset.mem_map.mp hy
  by_contra hne
  exact hall ⟨x, hx, hne⟩

theorem mem_total {A : Type} {weight : P × C → Multiset A} {a : A} :
    a ∈ total weight m ↔ ∃ x ∈ m, a ∈ weight x := by
  induction m using Multiset.induction_on with
  | empty => simp
  | cons x m ih => simp [ih]

theorem weight_le_total (weight : P × C → Nat) {x : P × C} {m : ColouredMarking P C}
    (h : x ∈ m) : weight x ≤ total weight m := by
  obtain ⟨rest, rfl⟩ := Multiset.exists_cons_of_mem h
  rw [total_cons]
  exact Nat.le_add_right _ _

/-! ## Firing -/

section

variable [DecidableEq P] [DecidableEq C]

namespace NetTransition

variable (t : NetTransition P C)

/-- The tokens of a binding, at the places of the input arcs. -/
def consumed (tokens : List C) : ColouredMarking P C := ↑(t.inputs.zip tokens)

/-- Fires on the given colours, one for each input place. -/
def fire? (m : ColouredMarking P C) (tokens : List C) : Option (ColouredMarking P C) :=
  if tokens.length = t.inputs.length ∧ t.guard tokens = true ∧ t.consumed tokens ≤ m then
    some (m - t.consumed tokens + ↑(t.outputs tokens))
  else none

variable {t} {m m' : ColouredMarking P C} {tokens : List C}

theorem fire?_eq_some : t.fire? m tokens = some m' ↔ tokens.length = t.inputs.length ∧ t.guard tokens = true ∧
      ∃ rest, m = rest + t.consumed tokens ∧ m' = rest + ↑(t.outputs tokens) := by
  constructor
  · intro h
    unfold fire? at h
    split at h
    · next hc =>
      obtain ⟨hlen, hguard, hle⟩ := hc
      exact ⟨hlen, hguard, m - t.consumed tokens, (Multiset.sub_add_cancel hle).symm,
        (Option.some.inj h).symm⟩
    · cases h
  · rintro ⟨hlen, hguard, rest, rfl, rfl⟩
    rw [fire?, if_pos ⟨hlen, hguard, Multiset.le_add_left _ _⟩, Multiset.add_sub_cancel_right]

theorem exists_fire (hinputs : t.inputs.Nodup) (hlen : tokens.length = t.inputs.length)
    (hguard : t.guard tokens = true) (hmem : ∀ x ∈ t.inputs.zip tokens, x ∈ m) :
    ∃ m', t.fire? m tokens = some m' := by
  have hzip : (t.inputs.zip tokens).Nodup := by
    refine List.Nodup.of_map Prod.fst ?_
    rw [List.map_fst_zip hlen.ge]
    exact hinputs
  have hle : t.consumed tokens ≤ m :=
    (Multiset.le_iff_subset (Multiset.coe_nodup.mpr hzip)).mpr hmem
  exact ⟨_, if_pos ⟨hlen, hguard, hle⟩⟩

end NetTransition

end

/-! ## Quiescence -/

section

variable [DecidableEq P]

def colours (m : ColouredMarking P C) (p : P) : Multiset C :=
  (m.filter fun x => x.1 = p).map Prod.snd

variable {m : ColouredMarking P C}

theorem mem_colours {p : P} {c : C} : c ∈ colours m p ↔ (p, c) ∈ m := by
  simp [colours]

/-- All choices of one token for each of the places. -/
def bindings (m : ColouredMarking P C) : List P → Multiset (List C)
  | [] => {[]}
  | p :: ps => (colours m p).bind fun c => (bindings m ps).map (c :: ·)

theorem mem_bindings : ∀ {ps : List P} {tokens : List C},
    tokens.length = ps.length → (∀ x ∈ ps.zip tokens, x ∈ m) → tokens ∈ bindings m ps
  | [], [], _, _ => Multiset.mem_singleton_self _
  | p :: ps, c :: tokens, hlen, hmem => by
    have hc : c ∈ colours m p := mem_colours.mpr (hmem _ List.mem_cons_self)
    have hrest : tokens ∈ bindings m ps :=
      mem_bindings (Nat.succ.inj hlen) fun x hx => hmem x (List.mem_cons_of_mem _ hx)
    exact Multiset.mem_bind.mpr ⟨c, hc, Multiset.mem_map_of_mem _ hrest⟩

variable [DecidableEq C] {T : Type}

/-- No transition can fire on any tokens. -/
def Quiescent (net : T → Option (NetTransition P C)) (m : ColouredMarking P C) : Prop :=
  ∀ t transition, net t = some transition → ∀ tokens, transition.fire? m tokens = none

theorem quiescent_iff {net : T → Option (NetTransition P C)} :
    Quiescent net m ↔ ∀ t, ∀ transition ∈ net t, ∀ tokens ∈ bindings m transition.inputs,
      transition.fire? m tokens = none := by
  constructor
  · exact fun h t transition ht tokens _ => h t transition ht tokens
  · intro h t transition ht tokens
    by_contra hfire
    obtain ⟨m', hm'⟩ := Option.ne_none_iff_exists'.mp hfire
    obtain ⟨hlen, -, rest, hrest, -⟩ := NetTransition.fire?_eq_some.mp hm'
    have hmem : ∀ x ∈ transition.inputs.zip tokens, x ∈ m := fun x hx => by
      rw [hrest]
      exact Multiset.mem_add.mpr (Or.inr hx)
    exact hfire (h t transition ht tokens (mem_bindings hlen hmem))

theorem Quiescent.guard_eq_false {net : T → Option (NetTransition P C)}
    (h : Quiescent net m) {t : T} {transition : NetTransition P C} (hnet : net t = some transition)
    (hinputs : transition.inputs.Nodup) (tokens : List C) (hlen : tokens.length = transition.inputs.length)
    (hmem : ∀ x ∈ transition.inputs.zip tokens, x ∈ m) : transition.guard tokens = false := by
  by_contra hguard
  obtain ⟨m', hfire⟩ :=
    NetTransition.exists_fire hinputs hlen (Bool.eq_true_of_not_eq_false hguard) hmem
  rw [h t transition hnet] at hfire
  cases hfire

instance [Fintype T] (net : T → Option (NetTransition P C)) (m : ColouredMarking P C) :
    Decidable (Quiescent net m) :=
  decidable_of_iff _ quiescent_iff.symm

end

end

end Infra
