import Mathlib.Data.List.Sort
import Mathlib.Order.Extension.Linear

/-!
# Topological orders

An order of the nodes of a graph in which every edge goes forward. A path goes forward too
(`idxOf_lt_of_reach`); of two nodes without a path between them either may come first
(`exists_order_before`).
-/

namespace Infra

open Relation

variable {α : Type} [DecidableEq α] {E : α → α → Prop} {nodes order : List α} {a b p c : α}

/-- The nodes in an order in which every edge goes forward. -/
structure IsTopoOrder (E : α → α → Prop) (nodes order : List α) : Prop where
  perm : order.Perm nodes
  forward : ∀ a b, E a b → order.idxOf a < order.idxOf b

namespace IsTopoOrder

theorem idxOf_lt_of_reach (h : IsTopoOrder E nodes order) (hreach : TransGen E a b) :
    order.idxOf a < order.idxOf b := by
  induction hreach with
  | single hab => exact h.forward _ _ hab
  | tail _ hbc ih => exact ih.trans (h.forward _ _ hbc)

theorem acyclic (h : IsTopoOrder E nodes order) (a : α) : ¬ TransGen E a a :=
  fun hcycle => Nat.lt_irrefl _ (h.idxOf_lt_of_reach hcycle)

theorem idxOf_lt_iff_reach (h : IsTopoOrder E nodes order) (hcomparable : TransGen E a b ∨ TransGen E b a) :
    order.idxOf a < order.idxOf b ↔ TransGen E a b := by
  constructor
  · intro hlt
    rcases hcomparable with hab | hba
    · exact hab
    · exact absurd hlt (Nat.lt_asymm (h.idxOf_lt_of_reach hba))
  · exact h.idxOf_lt_of_reach

end IsTopoOrder

omit [DecidableEq α] in
theorem reach_with_edge (h : TransGen (fun a b => E a b ∨ a = p ∧ b = c) a b) :
    TransGen E a b ∨ ReflTransGen E a p ∧ ReflTransGen E c b := by
  induction h with
  | single hab =>
    rcases hab with hab | ⟨rfl, rfl⟩
    · exact .inl (.single hab)
    · exact .inr ⟨.refl, .refl⟩
  | tail _ hbc ih =>
    rcases hbc with hbc | ⟨rfl, rfl⟩
    · rcases ih with hab | ⟨hap, hcb⟩
      · exact .inl (hab.tail hbc)
      · exact .inr ⟨hap, hcb.tail hbc⟩
    · rcases ih with hab | ⟨hap, -⟩
      · exact .inr ⟨hab.to_reflTransGen, .refl⟩
      · exact .inr ⟨hap, .refl⟩

omit [DecidableEq α] in
theorem acyclic_with_edge (hacyclic : ∀ a, ¬ TransGen E a a) (hne : p ≠ c) (hback : ¬ TransGen E c p) (a : α) :
    ¬ TransGen (fun a b => E a b ∨ a = p ∧ b = c) a a := by
  intro hcycle
  rcases reach_with_edge hcycle with hcycle | ⟨hap, hca⟩
  · exact hacyclic a hcycle
  · rcases reflTransGen_iff_eq_or_transGen.mp (hca.trans hap) with heq | hreach
    · exact hne heq
    · exact hback hreach

theorem exists_topoOrder (hacyclic : ∀ a, ¬ TransGen E a a)
    (hnodes : ∀ a b, E a b → a ∈ nodes ∧ b ∈ nodes) : ∃ order, IsTopoOrder E nodes order := by
  classical
  have hpartial : IsPartialOrder α (ReflTransGen E) := {
    refl := fun _ => .refl
    trans := fun _ _ _ => .trans
    antisymm := by
      intro a b hab hba
      rcases reflTransGen_iff_eq_or_transGen.mp hab with heq | hreach
      · exact heq.symm
      · exact absurd (hreach.trans_left hba) (hacyclic a) }
  obtain ⟨s, hs, hle⟩ := extend_partialOrder (ReflTransGen E)
  have htotal : Std.Total s := ⟨hs.total⟩
  have htrans : IsTrans α s := ⟨hs.trans⟩
  have hsorted : (nodes.insertionSort s).Pairwise s := List.pairwise_insertionSort s nodes
  have hperm : (nodes.insertionSort s).Perm nodes := List.perm_insertionSort s nodes
  refine ⟨nodes.insertionSort s, hperm, fun a b hab => ?_⟩
  obtain ⟨ha, hb⟩ := hnodes a b hab
  have ha' := List.idxOf_lt_length_iff.mpr (hperm.mem_iff.mpr ha)
  have hb' := List.idxOf_lt_length_iff.mpr (hperm.mem_iff.mpr hb)
  have hne : a ≠ b := fun h => hacyclic a (.single (h ▸ hab))
  by_contra hnot
  -- the other way round, the order would have them the other way round too
  have hlt : (nodes.insertionSort s).idxOf b < (nodes.insertionSort s).idxOf a := by
    refine Nat.lt_of_le_of_ne (Nat.le_of_not_lt hnot) fun heq => hne ?_
    exact ((List.idxOf_inj (hperm.mem_iff.mpr hb)).mp heq).symm
  have hba : s b a := by
    have := List.pairwise_iff_getElem.mp hsorted _ _ hb' ha' hlt
    rwa [List.getElem_idxOf, List.getElem_idxOf] at this
  exact hne (hs.antisymm a b (hle a b (.single hab)) hba)

/-- **Of two nodes, the first may come first where there is no path back.** -/
theorem exists_order_before (hacyclic : ∀ a, ¬ TransGen E a a)
    (hnodes : ∀ a b, E a b → a ∈ nodes ∧ b ∈ nodes) (hp : p ∈ nodes) (hc : c ∈ nodes) (hne : p ≠ c)
    (hback : ¬ TransGen E c p) : ∃ order, IsTopoOrder E nodes order ∧ order.idxOf p < order.idxOf c := by
  have hnodes' : ∀ a b, E a b ∨ a = p ∧ b = c → a ∈ nodes ∧ b ∈ nodes := by
    rintro a b (hab | ⟨rfl, rfl⟩)
    · exact hnodes a b hab
    · exact ⟨hp, hc⟩
  obtain ⟨order, hperm, hforward⟩ := exists_topoOrder (acyclic_with_edge hacyclic hne hback) hnodes'
  exact ⟨order, ⟨hperm, fun a b hab => hforward a b (.inl hab)⟩, hforward p c (.inr ⟨rfl, rfl⟩)⟩

end Infra
