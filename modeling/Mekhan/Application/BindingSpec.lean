import Mekhan.Application.Binding

/-!
# What an arc binds

`exists_arcBound` says once what binding an arc does: which tokens it takes, which of them have their routing merged,
and what becomes of the binding.
-/

namespace Mekhan

open Infra

variable {transition : Transition} {schemaRegistry : Option SchemaRegistry} {b b' : TokenBinding} {a : ArcTokens}
  {idx : Nat}

def Arc.IsBatch (transition : Transition) (arc : Arc) : Prop :=
  (transition.inputPort arc.portName).map (·.cardinality) = some .batch

instance (arc : Arc) : Decidable (arc.IsBatch transition) := inferInstanceAs (Decidable (_ = _))

/-- The coordinator that a gather arc counts by, and the count it names. -/
def Coordinates (b : TokenBinding) (countRef : String) (coordinator : Json) (k : Nat) : Prop :=
  ∃ port field, splitOnceDot countRef.toList = some (port, field) ∧
    b.portInputs.lookup (String.ofList port) = some coordinator ∧
      ∃ n, coordinator.get? (String.ofList field) = some (.num n) ∧ n.asU64 = some k

/-- The tokens that an arc takes at an index. -/
inductive ArcTakes (transition : Transition) (b : TokenBinding) (a : ArcTokens) (idx : Nat) : List Token → Prop where
  | drain (cap : Nat) (hdrain : a.arc.drainMax = some cap) (hne : a.tokens ≠ []) :
    ArcTakes transition b a idx (a.tokens.take (max cap 1))
  | gather (countRef : String) (coordinator : Json) (k : Nat) (hdrain : a.arc.drainMax = none)
    (hcount : a.arc.countFrom = some countRef) (hcoordinator : Coordinates b countRef coordinator k) (hpos : k ≠ 0)
    (henough : k ≤ (eligibleTokens a coordinator).length) :
    ArcTakes transition b a idx ((eligibleTokens a coordinator).take k)
  | batch (hdrain : a.arc.drainMax = none) (hcount : a.arc.countFrom = none) (hbatch : a.arc.IsBatch transition)
    (hidx : idx < a.tokens.length) :
    ArcTakes transition b a idx (if a.arc.read then a.tokens else (a.tokens.drop idx).take a.arc.weight)
  | single (token : Token) (hdrain : a.arc.drainMax = none) (hcount : a.arc.countFrom = none)
    (hsingle : ¬ a.arc.IsBatch transition) (htoken : a.tokens[idx]? = some token) :
    ArcTakes transition b a idx [if a.arc.read then a.tokens.getLastD token else token]

theorem sublist_eligibleTokens (a : ArcTokens) (coordinator : Json) :
    (eligibleTokens a coordinator).Sublist a.tokens := by
  unfold eligibleTokens
  split
  · exact List.filter_sublist
  · exact List.Sublist.refl _

theorem ArcTakes.sublist {taken : List Token} (h : ArcTakes transition b a idx taken) (hread : a.arc.read = false) :
    taken.Sublist a.tokens := by
  cases h with
  | drain cap => exact List.take_sublist ..
  | gather _ coordinator => exact (List.take_sublist ..).trans (sublist_eligibleTokens a coordinator)
  | batch =>
    rw [if_neg (by simp [hread])]
    exact (List.take_sublist ..).trans (List.drop_sublist ..)
  | single token _ _ _ htoken =>
    rw [if_neg (by simp [hread])]
    exact List.singleton_sublist.mpr (List.mem_of_getElem? htoken)

/-- What the next binding is: some tokens of the place are taken, the routing of some is merged, and the port gets
its data. -/
structure ArcBound (transition : Transition) (b : TokenBinding) (a : ArcTokens) (idx : Nat) (taken : List Token)
    (b' : TokenBinding) : Prop where
  takes : ArcTakes transition b a idx taken
  /-- A read arc merges nothing, and a drain arc neither. -/
  merges : ∃ merged : List Token, (∀ t ∈ merged, a.arc.read = false ∧ t ∈ a.tokens) ∧
    mergeRoutings b.consumedReplyRouting merged = some b'.consumedReplyRouting
  consumed : b'.consumedTokens = b.consumedTokens ++
    if a.arc.read then [] else taken.map fun t => (a.arc.placeId, t.id)

namespace ArcBound

/-- The end of a step: the routing is merged for a consuming arc, the schema is checked, and the tokens are taken. -/
theorem routed {taken merged : List Token} {valid : Bool} {data : Json} (htakes : ArcTakes transition b a idx taken)
    (hmerged : a.arc.read = false → ∀ t ∈ merged, t ∈ a.tokens)
    (hb : (if a.arc.read then (some b.consumedReplyRouting).bind fun routing =>
          if valid then
            some (({ b with consumedReplyRouting := routing }.take a.arc taken).setPort a.arc.portName data)
          else none
        else (mergeRoutings b.consumedReplyRouting merged).bind fun routing =>
          if valid then
            some (({ b with consumedReplyRouting := routing }.take a.arc taken).setPort a.arc.portName data)
          else none) = some b') : ArcBound transition b a idx taken b' := by
  cases hread : a.arc.read with
  | true =>
    rw [if_pos hread, Option.bind_some, Option.ite_none_right_eq_some] at hb
    obtain ⟨-, hb⟩ := hb
    rw [TokenBinding.take, if_pos hread] at hb
    cases hb
    exact ⟨htakes, ⟨[], by simp, rfl⟩, by simp [TokenBinding.setPort, TokenBinding.borrow, hread]⟩
  | false =>
    have hneg : ¬ a.arc.read = true := by simp [hread]
    rw [if_neg hneg] at hb
    obtain ⟨routing, hrouting, hb⟩ := Option.bind_eq_some_iff.mp hb
    rw [Option.ite_none_right_eq_some] at hb
    obtain ⟨-, hb⟩ := hb
    rw [TokenBinding.take, if_neg hneg] at hb
    cases hb
    exact ⟨htakes, ⟨merged, fun t ht => ⟨hread, hmerged hread t ht⟩, hrouting⟩,
      by simp [TokenBinding.setPort, TokenBinding.consume, hread]⟩

theorem bindDrain {cap : Nat} (hdrain : a.arc.drainMax = some cap)
    (hb : Mekhan.bindDrain transition schemaRegistry b a cap = some b') :
    ∃ taken, ArcBound transition b a idx taken b' := by
  unfold Mekhan.bindDrain at hb
  rw [Option.ite_none_left_eq_some] at hb
  obtain ⟨hne, hb⟩ := hb
  dsimp only at hb
  rw [Option.ite_none_right_eq_some, Nat.min_comm, ← List.take_eq_take_min] at hb
  obtain ⟨-, hb⟩ := hb
  cases hb
  refine ⟨_, .drain cap hdrain hne, ⟨[], by simp, ?_⟩, ?_⟩
  · rw [TokenBinding.take]
    split <;> rfl
  · rw [TokenBinding.take]
    split
    · next hread => simp [TokenBinding.setPort, TokenBinding.borrow]
    · next hread => simp [TokenBinding.setPort, TokenBinding.consume]

theorem bindGather {countRef : String} (hdrain : a.arc.drainMax = none) (hcount : a.arc.countFrom = some countRef)
    (hb : Mekhan.bindGather transition schemaRegistry b a countRef = some b') :
    ∃ taken, ArcBound transition b a idx taken b' := by
  unfold Mekhan.bindGather at hb
  simp only [Option.bind_eq_bind, Option.bind_eq_some_iff] at hb
  obtain ⟨⟨port, field⟩, hsplit, coordinator, hcoordinator, hb⟩ := hb
  split at hb
  · next n hn =>
    obtain ⟨k, hk, hb⟩ := Option.bind_eq_some_iff.mp hb
    split at hb
    · cases hb
    · next hpos =>
      split at hb
      · cases hb
      · next henough =>
        refine ⟨_, routed (.gather countRef coordinator k hdrain hcount
          ⟨port, field, hsplit, hcoordinator, n, hn, hk⟩ hpos (not_lt.mp henough)) (fun _ t ht => ?_) hb⟩
        exact (sublist_eligibleTokens a coordinator).subset (List.mem_of_mem_take ht)
  · cases hb

theorem bindPlain (hdrain : a.arc.drainMax = none) (hcount : a.arc.countFrom = none)
    (hb : Mekhan.bindPlain transition schemaRegistry b a idx = some b') :
    ∃ taken, ArcBound transition b a idx taken b' := by
  unfold Mekhan.bindPlain at hb
  simp only [Option.bind_eq_bind, Option.bind_eq_some_iff] at hb
  obtain ⟨token, htoken, hb⟩ := hb
  have hidx : idx < a.tokens.length := List.getElem?_eq_some_iff.mp htoken |>.1
  have hmerged : a.arc.read = false →
      ∀ t ∈ [if a.arc.read then a.tokens.getLastD token else token], t ∈ a.tokens := by
    intro hread t ht
    rw [if_neg (by simp [hread]), List.mem_singleton] at ht
    exact ht ▸ List.mem_of_getElem? htoken
  refine ⟨_, routed ?_ hmerged hb⟩
  split
  · next hbatch => exact .batch hdrain hcount (of_decide_eq_true hbatch) hidx
  · next hsingle => exact .single token hdrain hcount (fun h => hsingle (decide_eq_true h)) htoken

end ArcBound

/-- **What binding an arc does.** -/
theorem exists_arcBound (hb : bindArc transition schemaRegistry b (a, idx) = some b') :
    ∃ taken, ArcBound transition b a idx taken b' := by
  unfold bindArc at hb
  split at hb
  · next cap hdrain => exact ArcBound.bindDrain hdrain hb
  · next hdrain =>
    split at hb
    · next countRef hcount => exact ArcBound.bindGather hdrain hcount hb
    · next hcount => exact ArcBound.bindPlain hdrain hcount hb

end Mekhan
