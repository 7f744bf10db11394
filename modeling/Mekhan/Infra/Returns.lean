import Mathlib.Data.List.Basic

/-!
# Computations that return

A computation in `Except` returns if it ends without an error. The rules follow how it is put together:
a sequence returns if its first part does and then its second; a map or a fold over a list returns if
every step does.
-/

namespace Infra

variable {ε α β σ : Type}

/-- The computation does not fail. -/
def Returns (x : Except ε α) : Prop := ∃ a, x = .ok a

namespace Returns

theorem ok (a : α) : Returns (.ok a : Except ε α) := ⟨a, rfl⟩

theorem not_error (e : ε) : ¬ Returns (.error e : Except ε α) := by
  rintro ⟨a, ha⟩
  cases ha

variable {x : Except ε α} {l : List α}

theorem bind_iff {f : α → Except ε β} : Returns (x >>= f) ↔ ∃ a, x = .ok a ∧ Returns (f a) := by
  cases x with
  | error e => exact iff_of_false (not_error e) fun ⟨a, ha, _⟩ => absurd ha (by simp)
  | ok a =>
    constructor
    · intro h
      exact ⟨a, rfl, h⟩
    · rintro ⟨b, hb, h⟩
      cases hb
      exact h

theorem bind {f : α → Except ε β} (hx : Returns x) (hf : ∀ a, Returns (f a)) : Returns (x >>= f) := by
  obtain ⟨a, ha⟩ := hx
  exact bind_iff.mpr ⟨a, ha, hf a⟩

theorem mapM_iff {f : α → Except ε β} : Returns (l.mapM f) ↔ ∀ a ∈ l, Returns (f a) := by
  induction l with
  | nil => exact iff_of_true (ok []) (by simp)
  | cons a l ih =>
    rw [List.mapM_cons, bind_iff, List.forall_mem_cons, ← ih]
    constructor
    · rintro ⟨b, hb, hrest⟩
      obtain ⟨bs, hbs, -⟩ := bind_iff.mp hrest
      exact ⟨⟨b, hb⟩, ⟨bs, hbs⟩⟩
    · rintro ⟨⟨b, hb⟩, hrest⟩
      exact ⟨b, hb, hrest.bind fun bs => ok (b :: bs)⟩

theorem mapM_eq_ok {f : α → Except ε β} {g : α → β} : ∀ {l : List α}, (∀ a ∈ l, f a = .ok (g a)) →
    l.mapM f = .ok (l.map g)
  | [], _ => rfl
  | a :: l, h => by
    rw [List.mapM_cons, h a List.mem_cons_self, mapM_eq_ok fun b hb => h b (List.mem_cons_of_mem _ hb)]
    rfl

theorem foldlM_iff {f : σ → α → Except ε σ} {P : α → Prop}
    (h : ∀ s, ∀ a ∈ l, (Returns (f s a) ↔ P a)) (s : σ) : Returns (l.foldlM f s) ↔ ∀ a ∈ l, P a := by
  induction l generalizing s with
  | nil => exact iff_of_true (ok s) (by simp)
  | cons a l ih =>
    have hrest : ∀ s', Returns (l.foldlM f s') ↔ ∀ b ∈ l, P b := fun s' =>
      ih (fun t b hb => h t b (List.mem_cons_of_mem _ hb)) s'
    rw [List.foldlM_cons, bind_iff, List.forall_mem_cons, ← h s a List.mem_cons_self]
    constructor
    · rintro ⟨s', hs', hl⟩
      exact ⟨⟨s', hs'⟩, (hrest s').mp hl⟩
    · rintro ⟨⟨s', hs'⟩, hl⟩
      exact ⟨s', hs', (hrest s').mpr hl⟩

theorem foldlM_keeps {f : σ → α → Except ε σ} {P : σ → Prop} (h : ∀ s a s', P s → f s a = .ok s' → P s') :
    ∀ {l : List α} {s s' : σ}, P s → l.foldlM f s = .ok s' → P s'
  | [], s, s', hs, hfold => by
    cases hfold
    exact hs
  | a :: l, s, s', hs, hfold => by
    rw [List.foldlM_cons] at hfold
    cases hstep : f s a with
    | error e =>
      rw [hstep] at hfold
      cases hfold
    | ok t =>
      rw [hstep] at hfold
      exact foldlM_keeps h (h s a t hs hstep) hfold

theorem foldlM_image {τ : Type} {f : σ → α → Except ε σ} {g : σ → τ} {k : τ → α → τ}
    (h : ∀ s a s', f s a = .ok s' → g s' = k (g s) a) :
    ∀ {l : List α} {s s' : σ}, l.foldlM f s = .ok s' → g s' = l.foldl k (g s)
  | [], s, s', hfold => by
    cases hfold
    rfl
  | a :: l, s, s', hfold => by
    rw [List.foldlM_cons] at hfold
    cases hstep : f s a with
    | error e =>
      rw [hstep] at hfold
      cases hfold
    | ok t =>
      rw [hstep] at hfold
      rw [List.foldl_cons, ← h s a t hstep]
      exact foldlM_image h hfold

end Returns

end Infra
