import Mathlib.Data.List.Basic

/-!
# Lists of calls

A system keeps its running calls in a list and knows each by its index; a step replaces one of them. These
rules say what that does to the calls of which something holds.
-/

namespace Infra

variable {β : Type} {l : List β} {i : Nat} {a b x : β} {P : β → Prop} {q : Prop}

theorem eq_or_mem_set (ha : l[i]? = some a) (hx : x ∈ l) : x = a ∨ x ∈ l.set i b := by
  obtain ⟨j, hj⟩ := List.mem_iff_getElem?.mp hx
  by_cases hij : i = j
  · subst hij
    exact .inl (Option.some.inj (hj.symm.trans ha))
  · refine .inr (List.mem_iff_getElem?.mpr ⟨j, ?_⟩)
    rw [List.getElem?_set_ne hij]
    exact hj

theorem mem_set_self (ha : l[i]? = some a) : b ∈ l.set i b :=
  List.mem_set (List.getElem?_eq_some_iff.mp ha).1 _

theorem forall_mem_set (h : ∀ x ∈ l, P x) (hb : P b) : ∀ x ∈ l.set i b, P x := by
  intro x hx
  rcases List.mem_or_eq_of_mem_set hx with hold | rfl
  · exact h x hold
  · exact hb

theorem exists_mem_set_iff (ha : l[i]? = some a) (hb : P b ↔ P a ∨ q) :
    (∃ x ∈ l.set i b, P x) ↔ (∃ x ∈ l, P x) ∨ q := by
  constructor
  · rintro ⟨x, hx, hP⟩
    rcases List.mem_or_eq_of_mem_set hx with hold | rfl
    · exact .inl ⟨x, hold, hP⟩
    · exact (hb.mp hP).imp (fun hPa => ⟨a, List.mem_of_getElem? ha, hPa⟩) id
  · rintro (⟨x, hx, hP⟩ | hq)
    · rcases eq_or_mem_set (b := b) ha hx with rfl | hmem
      · exact ⟨b, mem_set_self ha, hb.mpr (.inl hP)⟩
      · exact ⟨x, hmem, hP⟩
    · exact ⟨b, mem_set_self ha, hb.mpr (.inr hq)⟩

theorem exists_mem_set_congr (ha : l[i]? = some a) (hb : P b ↔ P a) :
    (∃ x ∈ l.set i b, P x) ↔ ∃ x ∈ l, P x := by
  rw [exists_mem_set_iff ha (hb.trans (or_iff_left id).symm), or_iff_left id]

/-- At most one call has a property, in the sense that `R` relates no two of them. -/
def AtMostOne (l : List β) (R : β → β → Prop) : Prop :=
  ∀ (i j : Nat) (a b : β), l[i]? = some a → l[j]? = some b → R a b → i = j

theorem AtMostOne.set {R : β → β → Prop} (h : AtMostOne l R) (ha : l[i]? = some a)
    (hleft : ∀ x ∈ l, R b x → R a x) (hright : ∀ x ∈ l, R x b → R x a) : AtMostOne (l.set i b) R := by
  intro j k c d hj hk hR
  rw [List.getElem?_set] at hj hk
  by_cases hij : i = j
  · subst hij
    by_cases hik : i = k
    · exact hik
    · rw [if_neg hik] at hk
      rw [if_pos rfl] at hj
      split at hj
      · cases hj
        exact h i k a d ha hk (hleft d (List.mem_of_getElem? hk) hR)
      · cases hj
  · rw [if_neg hij] at hj
    by_cases hik : i = k
    · subst hik
      rw [if_pos rfl] at hk
      split at hk
      · cases hk
        exact h j i c a hj ha (hright c (List.mem_of_getElem? hj) hR)
      · cases hk
    · rw [if_neg hik] at hk
      exact h j k c d hj hk hR

theorem AtMostOne.concat {R : β → β → Prop} (h : AtMostOne l R) (hleft : ∀ x, ¬ R b x) (hright : ∀ x, ¬ R x b) :
    AtMostOne (l ++ [b]) R := by
  have hold : ∀ {j : Nat} {c : β}, (l ++ [b])[j]? = some c → l[j]? = some c ∨ c = b := by
    intro j c hj
    rw [List.getElem?_append] at hj
    split at hj
    · exact .inl hj
    · exact .inr (List.mem_singleton.mp (List.mem_of_getElem? hj))
  intro j k c d hj hk hR
  rcases hold hj with hc | rfl
  · rcases hold hk with hd | rfl
    · exact h j k c d hc hd hR
    · exact absurd hR (hright c)
  · exact absurd hR (hleft d)

theorem AtMostOne.map {R : β → β → Prop} (h : AtMostOne l R) {f : β → β} (hf : ∀ x y, R (f x) (f y) → R x y) :
    AtMostOne (l.map f) R := by
  intro j k c d hj hk hR
  rw [List.getElem?_map, Option.map_eq_some_iff] at hj hk
  obtain ⟨x, hx, rfl⟩ := hj
  obtain ⟨y, hy, rfl⟩ := hk
  exact h j k x y hx hy (hf x y hR)

end Infra
