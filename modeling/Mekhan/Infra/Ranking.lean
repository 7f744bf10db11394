import Mathlib.Data.List.Pairwise
import Mathlib.Order.Nat
import Mathlib.Data.Finset.Card

/-!
# The items of the greatest rank

`best` keeps of a list the items whose rank is the maximum.

* `head?_best_eq_some_iff` — where ranks differ, the one that is kept outranks all others.
* `head?_best_perm` — then the order of the list does not matter.
-/

namespace Infra

variable {α : Type*} (rank : α → Nat) {items items' : List α} {a : α}

/-- The items of greatest rank, in their order. -/
def best (items : List α) : List α :=
  let greatest := (items.map rank).foldl max 0
  items.filter fun a => rank a = greatest

theorem le_foldl_max {n : Nat} : ∀ {l : List Nat} {m : Nat}, n ∈ l ∨ n ≤ m → n ≤ l.foldl max m
  | [], _, h => h.resolve_left List.not_mem_nil
  | k :: l, m, h => by
    refine le_foldl_max (l := l) ?_
    rcases h with h | h
    · rcases List.mem_cons.mp h with rfl | h
      · exact .inr (le_max_right _ _)
      · exact .inl h
    · exact .inr (h.trans (le_max_left _ _))

theorem foldl_max_le {n : Nat} : ∀ {l : List Nat} {m : Nat}, (∀ k ∈ l, k ≤ n) → m ≤ n → l.foldl max m ≤ n
  | [], _, _, h => h
  | k :: l, _, hl, h =>
    foldl_max_le (l := l) (fun j hj => hl j (List.mem_cons_of_mem _ hj)) (max_le h (hl k List.mem_cons_self))

variable {rank}

/-- **An item is kept exactly when no other one ranks above it.** -/
theorem mem_best : a ∈ best rank items ↔ a ∈ items ∧ ∀ b ∈ items, rank b ≤ rank a := by
  rw [best, List.mem_filter, decide_eq_true_eq]
  refine and_congr_right fun ha => ⟨fun h b hb => ?_, fun h => ?_⟩
  · rw [h]
    exact le_foldl_max (.inl (List.mem_map_of_mem hb))
  · refine le_antisymm (le_foldl_max (.inl (List.mem_map_of_mem ha))) (foldl_max_le ?_ (Nat.zero_le _))
    intro k hk
    obtain ⟨b, hb, rfl⟩ := List.mem_map.mp hk
    exact h b hb

theorem exists_greatest : ∀ {items : List α}, items ≠ [] → ∃ a ∈ items, ∀ b ∈ items, rank b ≤ rank a
  | [], h => absurd rfl h
  | [a], _ => ⟨a, List.mem_cons_self, fun b hb => (List.mem_singleton.mp hb) ▸ le_rfl⟩
  | a :: b :: items, _ => by
    obtain ⟨c, hc, hall⟩ := exists_greatest (List.cons_ne_nil b items)
    rcases Nat.le_total (rank a) (rank c) with hle | hle
    · exact ⟨c, List.mem_cons_of_mem a hc, List.forall_mem_cons.mpr ⟨hle, hall⟩⟩
    · exact ⟨a, List.mem_cons_self, List.forall_mem_cons.mpr ⟨le_rfl, fun d hd => (hall d hd).trans hle⟩⟩

theorem best_ne_nil (h : items ≠ []) : best rank items ≠ [] := by
  obtain ⟨a, ha, hall⟩ := exists_greatest h
  exact List.ne_nil_of_mem (mem_best.mpr ⟨ha, hall⟩)

theorem best_length_le_one (h : items.Pairwise fun a b => rank a ≠ rank b) : (best rank items).length ≤ 1 := by
  cases hbest : best rank items with
  | nil => exact Nat.zero_le _
  | cons a kept =>
    cases kept with
    | nil => exact le_rfl
    | cons b kept =>
      have hmem : ∀ c ∈ [a, b], c ∈ best rank items := by
        intro c hc
        rw [hbest]
        exact List.mem_append_left kept hc
      have ha := mem_best.mp (hmem a (by simp))
      have hb := mem_best.mp (hmem b (by simp))
      have hne : (best rank items).Pairwise fun a b => rank a ≠ rank b := h.sublist List.filter_sublist
      rw [hbest] at hne
      exact absurd (le_antisymm (hb.2 a ha.1) (ha.2 b hb.1)) (List.rel_of_pairwise_cons hne List.mem_cons_self)

/-- **Where ranks differ, the item that is kept outranks all others.** -/
theorem head?_best_eq_some_iff (h : items.Pairwise fun a b => rank a ≠ rank b) :
    (best rank items).head? = some a ↔ a ∈ items ∧ ∀ b ∈ items, rank b ≤ rank a := by
  rw [← mem_best]
  have hle := best_length_le_one h
  cases hbest : best rank items with
  | nil => simp
  | cons b kept =>
    rw [hbest] at hle
    obtain rfl : kept = [] := List.eq_nil_of_length_eq_zero (by simpa using hle)
    rw [List.head?_cons, Option.some_inj, List.mem_singleton]
    exact eq_comm

theorem head?_best_perm (h : items.Pairwise fun a b => rank a ≠ rank b) (hperm : items.Perm items') :
    (best rank items).head? = (best rank items').head? := by
  have h' := (hperm.pairwise_iff fun hne heq => hne heq.symm).mp h
  refine Option.ext fun a => ?_
  rw [head?_best_eq_some_iff h, head?_best_eq_some_iff h', hperm.mem_iff]
  exact and_congr_right fun _ => ⟨fun hall b hb => hall b (hperm.mem_iff.mpr hb),
    fun hall b hb => hall b (hperm.mem_iff.mp hb)⟩

end Infra

/-!
## The first of each

A loop over candidates takes a key when it meets it for the first time, up to a number of keys.

* `take_firstOf` — what is taken are all keys of some first part of the candidates: with candidates in order of
  preference, whoever is left out comes after all that are taken.
* `length_firstOf` — with no limit, every new key is taken once.
-/

namespace Infra

variable {K : Type*} [DecidableEq K]

/-- The keys of a list that have not been seen, each where it comes first. -/
def firstOf : List K → List K → List K
  | _, [] => []
  | seen, k :: ks => if k ∈ seen then firstOf seen ks else k :: firstOf (k :: seen) ks

variable {seen seen' ks ks' : List K} {k : K}

theorem mem_firstOf : ∀ {ks seen : List K}, k ∈ firstOf seen ks ↔ k ∈ ks ∧ k ∉ seen
  | [], _ => by simp [firstOf]
  | j :: ks, seen => by
    rw [firstOf]
    split
    · next hj =>
      rw [mem_firstOf, List.mem_cons]
      refine ⟨fun h => ⟨.inr h.1, h.2⟩, fun h => ⟨h.1.resolve_left ?_, h.2⟩⟩
      rintro rfl
      exact h.2 hj
    · next hj =>
      rw [List.mem_cons, mem_firstOf, List.mem_cons, List.mem_cons, not_or]
      constructor
      · rintro (rfl | ⟨hks, -, hseen⟩)
        · exact ⟨.inl rfl, hj⟩
        · exact ⟨.inr hks, hseen⟩
      · rintro ⟨rfl | hks, hseen⟩
        · exact .inl rfl
        · by_cases heq : k = j
          · exact .inl heq
          · exact .inr ⟨hks, heq, hseen⟩

theorem firstOf_nodup : ∀ (ks seen : List K), (firstOf seen ks).Nodup
  | [], _ => List.nodup_nil
  | k :: ks, seen => by
    rw [firstOf]
    split
    · exact firstOf_nodup ks seen
    · refine List.nodup_cons.mpr ⟨fun h => ?_, firstOf_nodup ks _⟩
      exact (mem_firstOf.mp h).2 List.mem_cons_self

theorem length_firstOf (seen ks : List K) : (firstOf seen ks).length = (ks.toFinset \ seen.toFinset).card := by
  rw [← List.toFinset_card_of_nodup (firstOf_nodup ks seen)]
  congr 1
  ext k
  simp [mem_firstOf]

/-- **What is taken are all new keys of some first part of the list.** -/
theorem take_firstOf (n : Nat) : ∀ (ks seen : List K), ∃ head tail, ks = head ++ tail ∧
    (firstOf seen ks).take n = firstOf seen head
  | [], _ => ⟨[], [], rfl, List.take_nil⟩
  | k :: ks, seen => by
    by_cases hk : k ∈ seen
    · obtain ⟨head, tail, hks, htake⟩ := take_firstOf n ks seen
      refine ⟨k :: head, tail, congrArg (k :: ·) hks, ?_⟩
      rw [firstOf, firstOf, if_pos hk, if_pos hk, htake]
    · cases n with
      | zero => exact ⟨[], k :: ks, rfl, rfl⟩
      | succ n =>
        obtain ⟨head, tail, hks, htake⟩ := take_firstOf n ks (k :: seen)
        refine ⟨k :: head, tail, congrArg (k :: ·) hks, ?_⟩
        rw [firstOf, firstOf, if_neg hk, if_neg hk, List.take_succ_cons, htake]

end Infra
