import Mathlib.Data.Finset.Sort
import Mathlib.Data.List.DropRight
import Mathlib.Data.Set.Finite.Basic
import Mekhan.Infra.HashMap

/-!
# Bounded first-in first-out maps

A map that keeps at most `cap` keys. `order` lists them by first insertion; inserting a new key past
the cap evicts from the front, inserting a present key only updates its value. The structure carries
that `order` enumerates the keys of `map` once each and never exceeds the cap.
-/

namespace Infra

variable {K V : Type} [DecidableEq K]

/-! ## The order on its own -/

/-- What inserting `k` does to the keys in order. -/
def push (cap : Nat) (order : List K) (k : K) : List K :=
  if k ∈ order then order else (order ++ [k]).rtake cap

/-- The insertions that were not updates of a key among the last `cap` of them. -/
def logInsert (cap : Nat) (log : List K) (k : K) : List K :=
  if k ∈ log.rtake cap then log else log ++ [k]

omit [DecidableEq K] in
theorem rtake_append_rtake (cap : Nat) (l m : List K) :
    (l.rtake cap ++ m).rtake cap = (l ++ m).rtake cap := by
  simp only [List.rtake]
  rw [← List.drop_append_of_le_length (Nat.sub_le l.length cap), List.drop_drop]
  congr 1
  simp only [List.length_drop, List.length_append]
  omega

theorem push_rtake (cap : Nat) (log : List K) (k : K) :
    push cap (log.rtake cap) k = (logInsert cap log k).rtake cap := by
  unfold push logInsert
  by_cases h : k ∈ log.rtake cap
  · rw [if_pos h, if_pos h]
  · rw [if_neg h, if_neg h, rtake_append_rtake]

/-- **The keys kept are the last `cap` insertions that were not updates.** -/
theorem foldl_push_eq_rtake (cap : Nat) : ∀ (keys log : List K),
    keys.foldl (push cap) (log.rtake cap) = (keys.foldl (logInsert cap) log).rtake cap
  | [], _ => rfl
  | k :: keys, log => by
    rw [List.foldl_cons, List.foldl_cons, push_rtake, foldl_push_eq_rtake cap keys]

theorem foldl_push_fresh (cap : Nat) : ∀ {fresh order : List K}, (order ++ fresh).Nodup →
    fresh.foldl (push cap) (order.rtake cap) = (order ++ fresh).rtake cap
  | [], order, _ => by simp
  | k :: fresh, order, h => by
    have hassoc : order ++ k :: fresh = (order ++ [k]) ++ fresh := by simp
    have hk : k ∉ order.rtake cap := by
      intro hmem
      exact (List.nodup_append.mp h).2.2 k (List.mem_of_mem_drop hmem) k List.mem_cons_self rfl
    have hpush : push cap (order.rtake cap) k = (order ++ [k]).rtake cap := by
      rw [push, if_neg hk, rtake_append_rtake]
    rw [List.foldl_cons, hpush, hassoc]
    exact foldl_push_fresh cap (hassoc ▸ h)

omit [DecidableEq K] in
theorem eq_of_mem_drop_iff : ∀ {l m : List K}, l.Nodup → m.Nodup →
    (∀ j x, x ∈ l.drop j ↔ x ∈ m.drop j) → l = m
  | [], [], _, _, _ => rfl
  | [], b :: _, _, _, h => absurd ((h 0 b).mpr (by simp)) (by simp)
  | a :: _, [], _, _, h => absurd ((h 0 a).mp (by simp)) (by simp)
  | a :: l, b :: m, hl, hm, h => by
    have hrest : l = m :=
      eq_of_mem_drop_iff (List.nodup_cons.mp hl).2 (List.nodup_cons.mp hm).2
        fun j x => h (j + 1) x
    subst hrest
    have ha : a ∈ b :: l := (h 0 a).mp (by simp)
    rcases List.mem_cons.mp ha with rfl | hmem
    · rfl
    · exact absurd hmem (List.nodup_cons.mp hl).1

omit [DecidableEq K] in
theorem exists_fresh [Infinite K] (used : List K) (n : Nat) :
    ∃ fresh : List K, fresh.length = n ∧ fresh.Nodup ∧ ∀ k ∈ fresh, k ∉ used := by
  have hinf : (Set.Infinite ({k | k ∈ used}ᶜ : Set K)) :=
    Set.Finite.infinite_compl (List.finite_toSet used)
  obtain ⟨t, ht, hcard⟩ := hinf.exists_subset_card_eq n
  refine ⟨t.toList, by simpa using hcard, t.nodup_toList, ?_⟩
  intro k hk
  exact ht (Finset.mem_coe.mpr (Finset.mem_toList.mp hk))

variable {cap : Nat} {map : MapOf K V} {order : List K}

/-- **Orders over the same keys that every sequence of further insertions leaves with the same keys
are the same order.** -/
theorem eq_of_foldl_push [Infinite K] {l m : List K} (hl : l.Nodup) (hm : m.Nodup)
    (hlm : l.Perm m) (hcap : l.length ≤ cap)
    (h : ∀ (keys : List K) (x : K), x ∈ keys.foldl (push cap) l ↔ x ∈ keys.foldl (push cap) m) : l = m := by
  refine eq_of_mem_drop_iff hl hm fun j x => ?_
  obtain ⟨fresh, hlen, hfresh, hdisj⟩ := exists_fresh l (cap - l.length + min j l.length)
  have suffix : ∀ {o : List K}, o.Nodup → o.Perm l →
      fresh.foldl (push cap) o = o.drop (min j l.length) ++ fresh := by
    intro o ho hol
    have holen : o.length = l.length := hol.length_eq
    have hnd : (o ++ fresh).Nodup := by
      refine List.nodup_append.mpr ⟨ho, hfresh, ?_⟩
      rintro a ha b hb rfl
      exact hdisj a hb (hol.mem_iff.mp ha)
    have hself : o.rtake cap = o := by
      rw [List.rtake, Nat.sub_eq_zero_of_le (holen ▸ hcap), List.drop_zero]
    have hfold := foldl_push_fresh cap hnd
    rw [hself] at hfold
    rw [hfold, List.rtake, List.drop_append_of_le_length (by rw [List.length_append]; omega)]
    congr 2
    rw [List.length_append]
    omega
  have hx := h fresh x
  rw [suffix hl (List.Perm.refl l), suffix hm hlm.symm, List.mem_append, List.mem_append] at hx
  have hdrop : ∀ {o : List K}, o.length = l.length → o.drop (min j l.length) = o.drop j := by
    intro o ho
    rcases Nat.le_total j l.length with hj | hj
    · rw [Nat.min_eq_left hj]
    · rw [Nat.min_eq_right hj, List.drop_of_length_le (by omega), List.drop_of_length_le (by omega)]
  rw [hdrop rfl, hdrop hlm.length_eq.symm] at hx
  constructor
  · intro hmem
    rcases hx.mp (Or.inl hmem) with h' | h'
    · exact h'
    · exact absurd (List.mem_of_mem_drop hmem) (hdisj x h')
  · intro hmem
    rcases hx.mpr (Or.inl hmem) with h' | h'
    · exact h'
    · exact absurd (hlm.mem_iff.mpr (List.mem_of_mem_drop hmem)) (hdisj x h')

/-! ## Eviction -/

/-- `order` enumerates the keys of `map` once each. -/
def Enumerates (map : MapOf K V) (order : List K) : Prop :=
  order.Nodup ∧ ∀ k, k ∈ order ↔ k ∈ map

theorem Enumerates.card_eq (h : Enumerates map order) : map.keys.card = order.length := by
  have hkeys : map.keys = order.toFinset := by
    ext k
    rw [Finmap.mem_keys, List.mem_toFinset, h.2]
  rw [hkeys, List.toFinset_card_of_nodup h.1]

theorem Enumerates.erase {k : K} (h : Enumerates map (k :: order)) : Enumerates (map.erase k) order := by
  have hnd := List.nodup_cons.mp h.1
  refine ⟨hnd.2, fun x => ?_⟩
  rw [Finmap.mem_erase, ← h.2 x, List.mem_cons]
  constructor
  · intro hx
    refine ⟨?_, Or.inr hx⟩
    rintro rfl
    exact hnd.1 hx
  · rintro ⟨hne, hx⟩
    exact hx.resolve_left hne

theorem Enumerates.insert (h : Enumerates map order) {k : K}
    (hk : k ∉ map) (v : V) : Enumerates (map.insert k v) (order ++ [k]) := by
  refine ⟨?_, fun x => ?_⟩
  · refine List.nodup_append.mpr ⟨h.1, List.nodup_singleton k, ?_⟩
    rintro a ha b hb rfl
    rw [List.mem_singleton.mp hb] at ha
    exact hk ((h.2 k).mp ha)
  · rw [List.mem_append, List.mem_singleton, Finmap.mem_insert, h.2 x, or_comm]

/-- The eviction loop: pops the front of the order while the map is over capacity. -/
def evict (cap : Nat) : MapOf K V → List K → MapOf K V × List K
  | map, [] => (map, [])
  | map, k :: order => if cap < map.keys.card then evict cap (map.erase k) order
    else (map, k :: order)

theorem evict_order : ∀ {order : List K} {map : MapOf K V}, Enumerates map order →
    (evict cap map order).2 = order.rtake cap
  | [], _, _ => by simp [evict, List.rtake]
  | k :: order, map, h => by
    rw [evict, h.card_eq]
    by_cases hc : cap < (k :: order).length
    · rw [if_pos hc, evict_order h.erase, List.rtake, List.rtake]
      have hlen : (k :: order).length - cap = (order.length - cap) + 1 := by
        rw [List.length_cons] at hc ⊢
        omega
      rw [hlen, List.drop_succ_cons]
    · rw [if_neg hc, List.rtake, Nat.sub_eq_zero_of_le (by omega), List.drop_zero]

theorem evict_enumerates : ∀ {order : List K} {map : MapOf K V},
    Enumerates map order → Enumerates (evict cap map order).1 (evict cap map order).2
  | [], _, h => h
  | k :: order, map, h => by
    rw [evict]
    split
    · exact evict_enumerates h.erase
    · exact h

theorem evict_lookup {x : K} : ∀ {order : List K} {map : MapOf K V},
    x ∈ (evict cap map order).1 → (evict cap map order).1.lookup x = map.lookup x
  | [], _, _ => rfl
  | k :: order, map, hx => by
    rw [evict] at hx ⊢
    split
    · next hc =>
      rw [if_pos hc] at hx
      have hmap := evict_lookup hx
      have hmem : x ∈ map.erase k := by
        rw [Finmap.mem_iff] at hx ⊢
        rw [hmap] at hx
        exact hx
      rw [hmap, Finmap.lookup_erase_ne (Finmap.mem_erase.mp hmem).1]
    · rfl

/-! ## The map -/

/-- A map with at most so many keys, and the order in which they came. -/
structure BoundedFifo (K V : Type) [DecidableEq K] where
  map : MapOf K V
  order : List K
  cap : Nat
  capPos : 0 < cap
  enumerates : Enumerates map order
  lengthLe : order.length ≤ cap

namespace BoundedFifo

/-- The empty map; a cap of `0` counts as `1`. -/
def withCap (cap : Nat) : BoundedFifo K V where
  map := ∅
  order := []
  cap := max cap 1
  capPos := by omega
  enumerates := ⟨List.nodup_nil, fun k => by simp [Finmap.notMem_empty]⟩
  lengthLe := Nat.zero_le _

/-- Inserts a key. A present key is updated in place; a new one is appended to the order and the
oldest keys are evicted. -/
def insert (r : BoundedFifo K V) (k : K) (v : V) : BoundedFifo K V :=
  if hk : k ∈ r.map then
    { r with
      map := r.map.insert k v
      enumerates := ⟨r.enumerates.1, fun x => by
        rw [Finmap.mem_insert, r.enumerates.2]
        constructor
        · exact Or.inr
        · rintro (rfl | hx)
          · exact hk
          · exact hx⟩ }
  else
    { map := (evict r.cap (r.map.insert k v) (r.order ++ [k])).1
      order := (evict r.cap (r.map.insert k v) (r.order ++ [k])).2
      cap := r.cap
      capPos := r.capPos
      enumerates := evict_enumerates (r.enumerates.insert hk v)
      lengthLe := by
        rw [evict_order (r.enumerates.insert hk v), List.rtake, List.length_drop]
        omega }

def get (r : BoundedFifo K V) (k : K) : Option V := r.map.lookup k

/-- Inserts one after the other, so that the oldest make room. -/
def insertAll (r : BoundedFifo K V) (l : List (K × V)) : BoundedFifo K V :=
  l.foldl (fun r e => r.insert e.1 e.2) r

def keys (r : BoundedFifo K V) : Finset K := r.map.keys

variable {k : K} {r : BoundedFifo K V} {v : V} {cap : Nat}

theorem mem_keys : k ∈ r.keys ↔ k ∈ r.order := by
  rw [keys, Finmap.mem_keys, r.enumerates.2]

@[simp] theorem order_withCap (cap : Nat) : (withCap cap : BoundedFifo K V).order = [] := rfl

@[simp] theorem cap_withCap (cap : Nat) : (withCap cap : BoundedFifo K V).cap = max cap 1 := rfl

@[simp] theorem get_withCap (cap : Nat) (k : K) : (withCap cap : BoundedFifo K V).get k = none :=
  Finmap.lookup_empty k

@[simp] theorem cap_insert (r : BoundedFifo K V) (k : K) (v : V) : (r.insert k v).cap = r.cap := by
  unfold insert
  split <;> rfl

theorem order_insert (r : BoundedFifo K V) (k : K) (v : V) : (r.insert k v).order = push r.cap r.order k := by
  unfold insert push
  by_cases hk : k ∈ r.map
  · rw [dif_pos hk, if_pos ((r.enumerates.2 k).mpr hk)]
  · rw [dif_neg hk, if_neg (fun h => hk ((r.enumerates.2 k).mp h))]
    exact evict_order (r.enumerates.insert hk v)

@[simp] theorem cap_insertAll (r : BoundedFifo K V) (l : List (K × V)) : (r.insertAll l).cap = r.cap := by
  induction l generalizing r with
  | nil => rfl
  | cons e l ih => exact (ih (r.insert e.1 e.2)).trans (cap_insert ..)

theorem order_insertAll (r : BoundedFifo K V) (l : List (K × V)) :
    (r.insertAll l).order = (l.map (·.1)).foldl (push r.cap) r.order := by
  induction l generalizing r with
  | nil => rfl
  | cons e l ih =>
    show ((r.insert e.1 e.2).insertAll l).order = _
    rw [ih, cap_insert, order_insert, List.map_cons, List.foldl_cons]

theorem get_eq_none : r.get k = none ↔ k ∉ r.order := by
  rw [get, Finmap.lookup_eq_none, r.enumerates.2]

theorem get_insert_none {x : K} (v : V) (hx : x ≠ k) (h : r.get x = none) : (r.insert k v).get x = none := by
  rw [get_eq_none] at h ⊢
  rw [order_insert, push]
  split
  · exact h
  · intro hmem
    rcases List.mem_append.mp (List.mem_of_mem_drop hmem) with hmem | hmem
    · exact h hmem
    · exact hx (List.mem_singleton.mp hmem)

theorem get_insert_self (r : BoundedFifo K V) (k : K) (v : V) : (r.insert k v).get k = some v := by
  have hmem : k ∈ (r.insert k v).map := by
    rw [← (r.insert k v).enumerates.2, order_insert, push]
    split
    · next h => exact h
    · have hcap := r.capPos
      rw [List.rtake, List.mem_iff_getElem]
      refine ⟨r.order.length - ((r.order ++ [k]).length - r.cap), ?_, ?_⟩
      · simp only [List.length_drop, List.length_append, List.length_singleton]
        omega
      · have hidx : (r.order ++ [k]).length - r.cap +
            (r.order.length - ((r.order ++ [k]).length - r.cap)) = r.order.length := by
          simp only [List.length_append, List.length_singleton]
          omega
        simp only [List.getElem_drop, hidx]
        simp
  unfold get insert at *
  split
  · exact Finmap.lookup_insert _
  · next hk =>
    rw [dif_neg hk] at hmem
    exact (evict_lookup hmem).trans (Finmap.lookup_insert _)

theorem get_insert_some {x : K} {w : V}
    (h : (r.insert k v).get x = some w) : (x = k ∧ w = v) ∨ r.get x = some w := by
  by_cases hx : x = k
  · subst hx
    rw [get_insert_self] at h
    exact Or.inl ⟨rfl, (Option.some.inj h).symm⟩
  · right
    unfold get insert at h
    split at h
    · exact (Finmap.lookup_insert_of_ne _ hx).symm.trans h
    · have hmem : x ∈ (evict r.cap (r.map.insert k v) (r.order ++ [k])).1 :=
        Finmap.mem_of_lookup_eq_some h
      rw [evict_lookup hmem, Finmap.lookup_insert_of_ne _ hx] at h
      exact h

/-! ## Maps that were filled from one list -/

theorem ext_get {r' : BoundedFifo K V} (hcap : r.cap = r'.cap) (horder : r.order = r'.order)
    (hget : ∀ k, r.get k = r'.get k) : r = r' := by
  obtain ⟨map, order, cap, _, _, _⟩ := r
  obtain ⟨map', order', cap', _, _, _⟩ := r'
  obtain rfl : map = map' := Finmap.ext_lookup hget
  obtain rfl : order = order' := horder
  obtain rfl : cap = cap' := hcap
  rfl

theorem lookup_of_get_insertAll (l : List (K × V))
    (h : ((withCap cap : BoundedFifo K V).insertAll l).get k = some v) : l.reverse.lookup k = some v := by
  induction l using List.reverseRecOn with
  | nil => exact absurd h (by simp [insertAll])
  | append_singleton l e ih =>
    rw [insertAll, List.foldl_append] at h
    rw [List.reverse_append, List.reverse_singleton, List.singleton_append, List.lookup_cons]
    by_cases hk : k = e.1
    · rw [hk, List.foldl_cons, List.foldl_nil, get_insert_self] at h
      rw [hk, beq_self_eq_true]
      exact h
    · rw [beq_eq_false_iff_ne.mpr hk]
      exact ih ((get_insert_some h).resolve_left fun hnew => hk hnew.1)

theorem mem_of_get_insertAll {l : List (K × V)}
    (h : ((withCap cap : BoundedFifo K V).insertAll l).get k = some v) : (k, v) ∈ l := by
  obtain ⟨before, after, heq, -⟩ := List.lookup_eq_some_iff.mp (lookup_of_get_insertAll l h)
  rw [← List.mem_reverse, heq]
  simp

theorem insertAll_eq_of_order {entries l : List (K × V)}
    (hentries : ∀ k v, (k, v) ∈ entries → l.reverse.lookup k = some v)
    (horder : ((withCap cap : BoundedFifo K V).insertAll entries).order = ((withCap cap).insertAll l).order) :
    (withCap cap : BoundedFifo K V).insertAll entries = (withCap cap).insertAll l := by
  refine ext_get ?_ horder fun k => ?_
  · rw [cap_insertAll, cap_insertAll]
  · cases hget : ((withCap cap : BoundedFifo K V).insertAll entries).get k with
    | none => rw [eq_comm, get_eq_none, ← horder, ← get_eq_none, hget]
    | some v =>
      cases hget' : ((withCap cap : BoundedFifo K V).insertAll l).get k with
      | none =>
        rw [get_eq_none, ← horder, ← get_eq_none, hget] at hget'
        cases hget'
      | some w =>
        have hv := hentries k v (mem_of_get_insertAll hget)
        exact hv.symm.trans (lookup_of_get_insertAll l hget')

/-- The queue lists the keys of the map, each once, and no more than fit. -/
def InOrder (r : BoundedFifo K V) : Prop :=
  r.order.Nodup ∧ (∀ k, k ∈ r.order ↔ k ∈ r.map) ∧ r.order.length ≤ r.cap

theorem inOrder (r : BoundedFifo K V) : r.InOrder := ⟨r.enumerates.1, r.enumerates.2, r.lengthLe⟩

end BoundedFifo

end Infra
