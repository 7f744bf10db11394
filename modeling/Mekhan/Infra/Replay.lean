import Mathlib.Data.List.Basic

/-!
# Checkpointed histories

A history whose oldest events were folded into a base state and dropped. `Checkpoint f init hist n
base tail` says that `base` is the fold of the first `n` events of `hist` and `tail` is the rest.
Appending an event and evicting one keep the relation; folding the tail onto the base is the fold of
the whole history, and a cursor that has not been evicted slices the tail where it slices the
history.
-/

namespace Infra

variable {σ ε : Type}

/-- A state of the fold, and the inputs that come after it. -/
structure Checkpoint (f : σ → ε → σ) (init : σ) (hist : List ε) (n : Nat) (base : σ)
    (tail : List ε) : Prop where
  le : n ≤ hist.length
  baseEq : base = (hist.take n).foldl f init
  tailEq : tail = hist.drop n

theorem foldl_take_drop (f : σ → ε → σ) (init : σ) (hist : List ε) (k : Nat) :
    (hist.drop k).foldl f ((hist.take k).foldl f init) = hist.foldl f init := by
  rw [← List.foldl_append, List.take_append_drop]

namespace Checkpoint

variable {f : σ → ε → σ} {init base : σ} {hist tail : List ε} {n : Nat}

theorem empty (f : σ → ε → σ) (init : σ) : Checkpoint f init [] 0 init [] where
  le := Nat.le_refl 0
  baseEq := rfl
  tailEq := rfl

theorem push (h : Checkpoint f init hist n base tail) (e : ε) :
    Checkpoint f init (hist ++ [e]) n base (tail ++ [e]) where
  le := by
    have := h.le
    simp only [List.length_append, List.length_singleton]
    omega
  baseEq := by rw [List.take_append_of_le_length h.le]; exact h.baseEq
  tailEq := by rw [List.drop_append_of_le_length h.le, h.tailEq]

theorem evict {e : ε} (h : Checkpoint f init hist n base (e :: tail)) :
    Checkpoint f init hist (n + 1) (f base e) tail := by
  have hdrop : hist.drop n = e :: tail := h.tailEq.symm
  have hlt : n < hist.length := by
    have := congrArg List.length hdrop
    simp only [List.length_drop, List.length_cons] at this
    omega
  have hget : hist[n] = e := by
    rw [List.drop_eq_getElem_cons hlt] at hdrop
    exact (List.cons.inj hdrop).1
  refine ⟨hlt, ?_, ?_⟩
  · rw [List.take_add_one, List.getElem?_eq_getElem hlt, hget, Option.toList_some,
      List.foldl_append, ← h.baseEq]
    rfl
  · rw [List.drop_eq_getElem_cons hlt] at hdrop
    exact (List.cons.inj hdrop).2.symm

theorem length_eq (h : Checkpoint f init hist n base tail) : n + tail.length = hist.length := by
  have := h.le
  rw [h.tailEq, List.length_drop]
  omega

theorem all (f : σ → ε → σ) (init : σ) (hist : List ε) :
    Checkpoint f init hist hist.length (hist.foldl f init) [] where
  le := Nat.le_refl _
  baseEq := by rw [List.take_length]
  tailEq := List.drop_length.symm

theorem foldl_tail (h : Checkpoint f init hist n base tail) : tail.foldl f base = hist.foldl f init := by
  rw [h.baseEq, h.tailEq, foldl_take_drop]

theorem slice (h : Checkpoint f init hist n base tail) {k : Nat} (hk : n ≤ k) :
    tail.drop (k - n) = hist.drop k := by
  rw [h.tailEq, List.drop_drop]
  congr 1
  omega

end Checkpoint

end Infra
