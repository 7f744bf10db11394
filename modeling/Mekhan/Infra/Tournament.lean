import Mathlib.Data.List.MinMax
import Mathlib.Data.List.Perm.Basic

/-!
# Tournaments

A loop that keeps the best candidate so far: each newcomer meets the champion and replaces it if it
wins. The relation need not be transitive.
-/

namespace Infra

section

variable {α : Type} (beats : α → α → Bool)

/-- One meeting of a newcomer with the champion. -/
def challenge (best : Option α) (x : α) : Option α :=
  match best with
  | none => some x
  | some b => if beats x b then some x else some b

/-- The winner of each against the winner before. -/
def champion (entrants : List α) : Option α := entrants.foldl (challenge beats) none

/-- An entrant that wins against every other one, whoever comes first. -/
def Dominates (w : α) (entrants : List α) : Prop :=
  w ∈ entrants ∧ ∀ x ∈ entrants, x ≠ w → beats w x = true ∧ beats x w = false

/-- Of two entrants, one wins, whoever comes first. -/
def Decided (entrants : List α) : Prop :=
  ∀ x ∈ entrants, ∀ y ∈ entrants, x ≠ y → beats x y = !beats y x

end

variable {α β : Type} {beats : α → α → Bool}

theorem champion_concat (entrants : List α) (x : α) :
    champion beats (entrants ++ [x]) = challenge beats (champion beats entrants) x := by
  simp [champion, List.foldl_append]

variable {entrants : List α} {w : α} {items : List β}

theorem mem_of_champion : ∀ {w : α}, champion beats entrants = some w → w ∈ entrants := by
  induction entrants using List.reverseRecOn with
  | nil => exact fun h => absurd h (by simp [champion])
  | append_singleton entrants x ih =>
    intro w h
    rw [champion_concat] at h
    rw [List.mem_append, List.mem_singleton]
    cases hb : champion beats entrants with
    | none =>
      simp only [hb, challenge, Option.some.injEq] at h
      exact Or.inr h.symm
    | some b =>
      simp only [hb, challenge] at h
      split at h
      · exact Or.inr (Option.some.inj h).symm
      · exact Or.inl (Option.some.inj h ▸ ih hb)

/-- **Who wins against all others is the champion.** -/
theorem champion_of_dominates (h : Dominates beats w entrants) : champion beats entrants = some w := by
  obtain ⟨hmem, hwin⟩ := h
  induction entrants using List.reverseRecOn with
  | nil => cases hmem
  | append_singleton entrants x ih =>
    rw [champion_concat]
    have hold : ∀ y ∈ entrants, y ≠ w → beats w y = true ∧ beats y w = false :=
      fun y hy => hwin y (List.mem_append_left _ hy)
    by_cases hx : x = w
    · -- Whoever was the champion, `w` replaces it.
      subst hx
      cases hb : champion beats entrants with
      | none => rfl
      | some b =>
        by_cases hbx : b = x
        · simp [challenge, hbx]
        · simp [challenge, (hold b (mem_of_champion hb) hbx).1]
    · have hin : w ∈ entrants := by
        rcases List.mem_append.mp hmem with hin | hin
        · exact hin
        · exact absurd (List.mem_singleton.mp hin).symm hx
      rw [ih hin hold]
      simp [challenge, (hwin x (by simp) hx).2]

theorem exists_last (beats : α → α → Bool) [DecidableEq β] {f : β → Option α} {items : List β} {x : α}
    (hx : x ∈ items.filterMap f) : ∃ items' : List β, items'.Perm items ∧ ∃ best,
      champion beats (items'.filterMap f) = challenge beats best x := by
  obtain ⟨t, ht, hfx⟩ := List.mem_filterMap.mp hx
  refine ⟨items.erase t ++ [t], ?_, champion beats ((items.erase t).filterMap f), ?_⟩
  · exact (List.perm_append_singleton t _).trans (List.perm_cons_erase ht).symm
  · rw [List.filterMap_append, List.filterMap_cons_some hfx, List.filterMap_nil, champion_concat]

theorem dominates_of_orderFree [DecidableEq β] {f : β → Option α}
    (hdecided : Decided beats (items.filterMap f))
    (h : ∀ items' : List β, items'.Perm items → champion beats (items'.filterMap f) = some w) :
    Dominates beats w (items.filterMap f) := by
  have hmem := mem_of_champion (h items (List.Perm.refl _))
  refine ⟨hmem, fun x hx hne => ?_⟩
  obtain ⟨items', hperm, best, hlast⟩ := exists_last beats hx
  rw [h items' hperm] at hlast
  have hloses : beats x w = false := by
    unfold challenge at hlast
    split at hlast
    · exact absurd (Option.some.inj hlast).symm hne
    · split at hlast
      · exact absurd (Option.some.inj hlast).symm hne
      · next hnot => simpa [Option.some.inj hlast] using hnot
  exact ⟨by rw [hdecided w hmem x hx (Ne.symm hne), hloses]; rfl, hloses⟩

/-- **The champion is the same in every order iff one entrant wins against all others.** -/
theorem champion_orderFree_iff [DecidableEq β] {f : β → Option α}
    (hdecided : Decided beats (items.filterMap f)) : (∀ items' : List β, items'.Perm items →
        champion beats (items'.filterMap f) = champion beats (items.filterMap f)) ↔
      items.filterMap f = [] ∨ ∃ w, Dominates beats w (items.filterMap f) := by
  constructor
  · intro h
    cases hw : champion beats (items.filterMap f) with
    | some w => exact Or.inr ⟨w, dominates_of_orderFree hdecided fun items' hp => (h items' hp).trans hw⟩
    | none =>
      refine Or.inl (List.eq_nil_iff_forall_not_mem.mpr fun x hx => ?_)
      obtain ⟨items', hperm, best, hlast⟩ := exists_last beats hx
      rw [h items' hperm, hw] at hlast
      unfold challenge at hlast
      split at hlast
      · cases hlast
      · split at hlast <;> cases hlast
  · intro h items' hp
    have hp' := hp.filterMap f
    rcases h with hnil | ⟨w, hw⟩
    · rw [hnil] at hp'
      rw [hp'.eq_nil, hnil]
    · have hw' : Dominates beats w (items'.filterMap f) :=
        ⟨hp'.symm.subset hw.1, fun x hx => hw.2 x (hp'.subset hx)⟩
      rw [champion_of_dominates hw, champion_of_dominates hw']

/-- Where winning is having the smaller key, the entrant with the smallest key wins against all
others. -/
theorem exists_dominates_of_key {κ : Type} [LinearOrder κ] {key : α → κ}
    (hkey : ∀ x ∈ entrants, ∀ y ∈ entrants, x ≠ y →
      key x ≠ key y ∧ (beats x y = true ↔ key x < key y)) (hne : entrants ≠ []) :
    ∃ w, Dominates beats w entrants := by
  cases hw : entrants.argmin key with
  | none => exact absurd (List.argmin_eq_none.mp hw) hne
  | some w =>
    have hmem := List.argmin_mem hw
    refine ⟨w, hmem, fun x hx hxw => ?_⟩
    have hle : key w ≤ key x := List.le_of_mem_argmin hx hw
    obtain ⟨hneq, hiff⟩ := hkey w hmem x hx (Ne.symm hxw)
    have hnot : ¬ beats x w = true := fun h => absurd ((hkey x hx w hmem hxw).2.mp h) (not_lt.mpr hle)
    exact ⟨hiff.mpr (lt_of_le_of_ne hle hneq), by simpa using hnot⟩

end Infra
