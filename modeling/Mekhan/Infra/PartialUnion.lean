import Mathlib.Data.List.Perm.Basic

/-!
# Merging partial maps that agree

A list of partial maps has a union when any two of them agree where both are defined. A merge of two maps that
refuses exactly the disagreeing ones, folded over a list, finds the union if there is one and refuses otherwise
(`foldMerge_spec`); so its outcome is that of every list with the same members (`foldMerge_congr`), in whatever order
and however often repeated.

The maps are given by whatever represents them; `facts` reads a representation.
-/

namespace Infra.PartialUnion

variable {α K V : Type}

/-- Two partial functions do not contradict each other. -/
def Agree (f g : K → Option V) : Prop := ∀ k v w, f k = some v → g k = some w → v = w

def Consistent (fs : List (K → Option V)) : Prop := ∀ f ∈ fs, ∀ g ∈ fs, Agree f g

/-- Exactly what one of the functions has. -/
def IsUnion (fs : List (K → Option V)) (u : K → Option V) : Prop := ∀ k v, u k = some v ↔ ∃ f ∈ fs, f k = some v

theorem IsUnion.unique {fs gs : List (K → Option V)} {u u' : K → Option V} (hmem : ∀ f, f ∈ fs ↔ f ∈ gs)
    (h : IsUnion fs u) (h' : IsUnion gs u') : u = u' := by
  refine funext fun k => Option.ext fun v => ?_
  rw [h, h']
  exact exists_congr fun f => and_congr_left' (hmem f)

/-- The merge refuses maps that do not agree, and gives the union of those that do. -/
structure Merges (facts : α → K → Option V) (merge : α → α → Option α) : Prop where
  refused : ∀ {a b}, merge a b = none → ¬ Agree (facts a) (facts b)
  agree : ∀ {a b c}, merge a b = some c → Agree (facts a) (facts b)
  union : ∀ {a b c}, merge a b = some c → ∀ k, facts c k = (facts a k).or (facts b k)

/-- Merges the items of a list into what was merged so far. -/
def foldMerge (merge : α → α → Option α) : Option α → List α → Option (Option α)
  | acc, [] => some acc
  | none, a :: rest => foldMerge merge (some a) rest
  | some m, a :: rest => (merge m a).bind fun c => foldMerge merge (some c) rest

/-- What a fold has found out about a list of maps. -/
def Outcome (facts : α → K → Option V) (fs : List (K → Option V)) : Option (Option α) → Prop
  | none => ¬ Consistent fs
  | some none => fs = []
  | some (some c) => fs ≠ [] ∧ Consistent fs ∧ IsUnion fs (facts c)

section

variable {facts : α → K → Option V} {merge : α → α → Option α}

theorem Outcome.extend (h : Merges facts merge) {done : List (K → Option V)} {m a c : α}
    (hdone : Outcome facts done (some (some m))) (hc : merge m a = some c) :
    Outcome facts (done ++ [facts a]) (some (some c)) := by
  obtain ⟨-, hconsistent, hunion⟩ := hdone
  have hagree := h.agree hc
  have hnew : ∀ f ∈ done, ∀ k v w, f k = some v → facts a k = some w → v = w := fun f hf k v w hv hw =>
    hagree k v w ((hunion k v).mpr ⟨f, hf, hv⟩) hw
  refine ⟨by simp, ?_, ?_⟩
  · intro f hf g hg k v w hv hw
    rcases List.mem_append.mp hf with hf | hf <;> rcases List.mem_append.mp hg with hg | hg
    · exact hconsistent f hf g hg k v w hv hw
    · rw [List.mem_singleton.mp hg] at hw
      exact hnew f hf k v w hv hw
    · rw [List.mem_singleton.mp hf] at hv
      exact (hnew g hg k w v hw hv).symm
    · rw [List.mem_singleton.mp hf] at hv
      rw [List.mem_singleton.mp hg] at hw
      exact Option.some.inj (hv.symm.trans hw)
  · intro k v
    rw [h.union hc, Option.or_eq_some_iff, hunion]
    constructor
    · rintro (⟨f, hf, hv⟩ | ⟨-, hv⟩)
      · exact ⟨f, List.mem_append_left _ hf, hv⟩
      · exact ⟨facts a, by simp, hv⟩
    · rintro ⟨f, hf, hv⟩
      rcases List.mem_append.mp hf with hf | hf
      · exact Or.inl ⟨f, hf, hv⟩
      · rw [List.mem_singleton.mp hf] at hv
        cases hm : facts m k with
        | none => exact Or.inr ⟨rfl, hv⟩
        | some w =>
          obtain rfl := hagree k w v hm hv
          exact Or.inl ((hunion k w).mp hm)

theorem foldMerge_some_spec (h : Merges facts merge) : ∀ (rest : List α) {done : List (K → Option V)} {m : α},
    Outcome facts done (some (some m)) →
      Outcome facts (done ++ rest.map facts) (foldMerge merge (some m) rest)
  | [], done, m, hdone => by simpa [foldMerge] using hdone
  | a :: rest, done, m, hdone => by
    rw [foldMerge]
    cases hc : merge m a with
    | none =>
      -- The value that is in the way came from one of the maps merged so far.
      intro hconsistent
      refine h.refused hc fun k v w hv hw => ?_
      obtain ⟨f, hf, hfv⟩ := (hdone.2.2 k v).mp hv
      exact hconsistent f (List.mem_append_left _ hf) (facts a) (by simp) k v w hfv hw
    | some c =>
      have hrest := foldMerge_some_spec h rest (hdone.extend h hc)
      rwa [List.append_assoc] at hrest

/-- **The fold finds the union of a list of maps that agree, and refuses any other list.** -/
theorem foldMerge_spec (h : Merges facts merge) : ∀ as : List α,
    Outcome facts (as.map facts) (foldMerge merge none as)
  | [] => rfl
  | a :: rest => by
    have hfirst : Outcome facts [facts a] (some (some a)) := by
      refine ⟨by simp, ?_, fun k v => by simp⟩
      intro f hf g hg k v w hv hw
      rw [List.mem_singleton.mp hf] at hv
      rw [List.mem_singleton.mp hg] at hw
      exact Option.some.inj (hv.symm.trans hw)
    exact foldMerge_some_spec h rest hfirst

/-- **The outcome is the same for every list with the same members.** -/
theorem foldMerge_congr (h : Merges facts merge) {as bs : List α} (hmem : ∀ a, a ∈ as ↔ a ∈ bs) :
    (foldMerge merge none as).map (Option.map facts) = (foldMerge merge none bs).map (Option.map facts) := by
  have hfacts : ∀ f, f ∈ as.map facts ↔ f ∈ bs.map facts := fun f => by simp [hmem]
  have hconsistent : Consistent (as.map facts) ↔ Consistent (bs.map facts) := by
    simp only [Consistent, hfacts]
  have hnil : as.map facts = [] ↔ bs.map facts = [] := by
    simp only [List.eq_nil_iff_forall_not_mem, hfacts]
  have ha := foldMerge_spec h as
  have hb := foldMerge_spec h bs
  revert ha hb
  rcases foldMerge merge none as with - | - | c <;> rcases foldMerge merge none bs with - | - | d <;> intro ha hb
  · rfl
  · exact absurd (hconsistent.mpr (by rw [show bs.map facts = [] from hb]; simp [Consistent])) ha
  · exact absurd (hconsistent.mpr hb.2.1) ha
  · exact absurd (hconsistent.mp (by rw [show as.map facts = [] from ha]; simp [Consistent])) hb
  · rfl
  · exact absurd (hnil.mp ha) hb.1
  · exact absurd (hconsistent.mp ha.2.1) hb
  · exact absurd (hnil.mpr hb) ha.1
  · exact congrArg (fun u => some (some u)) (ha.2.2.unique hfacts hb.2.2)

end

end Infra.PartialUnion
