import Mekhan.Application.Binding

/-!
# The cross product of token indices

`CombinationIterator` of `application/src/binding.rs`: a counter over the token indices of the input arcs whose
last position moves fastest. `toList_new` says that it goes through the index vectors of `combinations`, in their
order, and then stops.
-/

namespace Mekhan

theorem mem_combinations_cons {n : Nat} {sizes indices : List Nat} : indices ∈ combinations (n :: sizes) ↔
      ∃ i is, indices = i :: is ∧ i < n ∧ is ∈ combinations sizes := by
  simp only [combinations, List.mem_flatMap, List.mem_range, List.mem_map]
  constructor
  · rintro ⟨i, hi, is, his, rfl⟩
    exact ⟨i, is, rfl, hi, his⟩
  · rintro ⟨i, is, rfl, hi, his⟩
    exact ⟨i, hi, is, his, rfl⟩

theorem mem_combinations : ∀ {sizes indices : List Nat},
    indices ∈ combinations sizes ↔ List.Forall₂ (· < ·) indices sizes
  | [], indices => by simp [combinations]
  | n :: sizes, indices => by
    rw [mem_combinations_cons, List.forall₂_cons_right_iff]
    constructor
    · rintro ⟨i, is, rfl, hi, his⟩
      exact ⟨i, is, hi, mem_combinations.mp his, rfl⟩
    · rintro ⟨i, is, hi, his, rfl⟩
      exact ⟨i, is, rfl, hi, mem_combinations.mpr his⟩

theorem head?_combinations : ∀ {sizes : List Nat}, 0 ∉ sizes →
    (combinations sizes).head? = some (sizes.map fun _ => 0)
  | [], _ => rfl
  | n :: sizes, h => by
    obtain ⟨hn, hsizes⟩ := not_or.mp (List.mem_cons.not.mp h)
    obtain ⟨m, rfl⟩ := Nat.exists_eq_succ_of_ne_zero (Ne.symm hn)
    rw [combinations, List.range_succ_eq_map, List.flatMap_cons, List.head?_append, List.head?_map,
      head?_combinations hsizes]
    rfl

structure CombinationIterator where
  sizes : List Nat
  current : List Nat
  done : Bool
  deriving DecidableEq

namespace CombinationIterator

def new (sizes : List Nat) : CombinationIterator where
  sizes := sizes
  current := sizes.map fun _ => 0
  done := sizes.contains 0

/-- The counter one further, and whether it has overflowed. -/
def increment : List Nat → List Nat → List Nat × Bool
  | n :: sizes, i :: current =>
    match increment sizes current with
    | (rest, true) => if n ≤ i + 1 then (0 :: rest, true) else ((i + 1) :: rest, false)
    | (rest, false) => (i :: rest, false)
  | _, current => (current, true)

def next (it : CombinationIterator) : Option (List Nat × CombinationIterator) :=
  if it.done then none
  else
    let (current, carry) := increment it.sizes it.current
    some (it.current, { it with current := current, done := carry })

/-- At most the next `fuel` items. -/
def take : Nat → CombinationIterator → List (List Nat)
  | 0, _ => []
  | fuel + 1, it =>
    match it.next with
    | none => []
    | some (indices, it') => indices :: take fuel it'

/-- All items. No more than the product of the sizes are left (`take_new`). -/
def toList (it : CombinationIterator) : List (List Nat) := it.take it.sizes.prod

/-! ## The items -/

/-- The index vectors from `current` on, in lexicographic order. -/
def itemsFrom : List Nat → List Nat → List (List Nat)
  | n :: sizes, i :: current =>
    (itemsFrom sizes current).map (i :: ·) ++
      (List.range' (i + 1) (n - (i + 1))).flatMap fun j => (combinations sizes).map (j :: ·)
  | _, _ => [[]]

variable {sizes current : List Nat}

theorem itemsFrom_zeros : ∀ {sizes : List Nat}, 0 ∉ sizes → itemsFrom sizes (sizes.map fun _ => 0) = combinations sizes
  | [], _ => rfl
  | n :: sizes, h => by
    obtain ⟨hn, hsizes⟩ := not_or.mp (List.mem_cons.not.mp h)
    obtain ⟨m, rfl⟩ := Nat.exists_eq_succ_of_ne_zero (Ne.symm hn)
    rw [List.map_cons, itemsFrom, itemsFrom_zeros hsizes, combinations, List.range_eq_range', List.range'_succ,
      List.flatMap_cons]
    simp

def Below (sizes current : List Nat) : Prop := List.Forall₂ (fun n i => i < n) sizes current

theorem increment_spec : ∀ {sizes current : List Nat}, Below sizes current →
    (increment sizes current).2 = true ∧ itemsFrom sizes current = [current] ∧
        (increment sizes current).1 = sizes.map (fun _ => 0) ∨
      (increment sizes current).2 = false ∧ Below sizes (increment sizes current).1 ∧
        itemsFrom sizes current = current :: itemsFrom sizes (increment sizes current).1 := by
  intro sizes current h
  induction h with
  | nil => exact .inl ⟨rfl, rfl, rfl⟩
  | @cons n i sizes current hi h ih =>
    have hzero : 0 ∉ sizes := by
      intro hmem
      obtain ⟨k, hk, hk0⟩ := List.getElem_of_mem hmem
      have := h.get (i := k) hk (h.length_eq ▸ hk)
      simp [hk0] at this
    rcases ih with ⟨hcarry, hitems, hnext⟩ | ⟨hcarry, hbelow, hitems⟩
    · have hpair : increment sizes current = (sizes.map fun _ => 0, true) := Prod.ext hnext hcarry
      simp only [increment, hpair, itemsFrom, hitems]
      by_cases hn : n ≤ i + 1
      · have hlast : n - (i + 1) = 0 := by omega
        left
        simp [hn, hlast]
      · have hmore : n - (i + 1) = n - (i + 2) + 1 := by omega
        have hlt : i + 1 < n := by omega
        right
        rw [if_neg hn, itemsFrom, itemsFrom_zeros hzero, hmore, List.range'_succ, List.flatMap_cons]
        refine ⟨rfl, List.Forall₂.cons hlt ?_, rfl⟩
        rw [List.forall₂_map_right_iff, List.forall₂_same]
        exact fun m hm => Nat.pos_of_ne_zero fun h0 => hzero (h0 ▸ hm)
    · have hpair : increment sizes current = ((increment sizes current).1, false) := Prod.ext rfl hcarry
      right
      rw [increment, hpair]
      refine ⟨rfl, List.Forall₂.cons hi hbelow, ?_⟩
      simp only [itemsFrom]
      rw [hitems]
      rfl

theorem take_itemsFrom : ∀ {fuel : Nat} {current : List Nat}, Below sizes current →
    (itemsFrom sizes current).length ≤ fuel → take fuel ⟨sizes, current, false⟩ = itemsFrom sizes current
  | 0, current, h, hfuel => by
    rcases increment_spec h with ⟨_, hitems, _⟩ | ⟨_, _, hitems⟩ <;> simp [hitems] at hfuel
  | fuel + 1, current, h, hfuel => by
    rcases increment_spec h with ⟨hcarry, hitems, hnext⟩ | ⟨hcarry, hbelow, hitems⟩
    · rw [take, next]
      cases fuel <;> simp [hitems, hcarry, take, next]
    · have hrest : (itemsFrom sizes (increment sizes current).1).length ≤ fuel := by
        rw [hitems, List.length_cons] at hfuel
        omega
      rw [take, next, hitems]
      simp [hcarry, take_itemsFrom hbelow hrest]

theorem length_combinations : ∀ sizes : List Nat, (combinations sizes).length = sizes.prod
  | [] => rfl
  | n :: sizes => by simp [combinations, List.length_flatMap, length_combinations sizes]

theorem combinations_eq_nil : ∀ {sizes : List Nat}, 0 ∈ sizes → combinations sizes = []
  | n :: sizes, h => by
    rcases List.mem_cons.mp h with rfl | h
    · rfl
    · rw [combinations, combinations_eq_nil h]
      simp

/-- **The iterator goes through the cross product in lexicographic order**, and any number of further calls
finds nothing more. -/
theorem take_new (sizes : List Nat) {fuel : Nat} (hfuel : sizes.prod ≤ fuel) :
    (new sizes).take fuel = combinations sizes := by
  by_cases hzero : 0 ∈ sizes
  · rw [combinations_eq_nil hzero]
    cases fuel <;> simp [take, next, new, hzero]
  · have hbelow : Below sizes (sizes.map fun _ => 0) := by
      rw [Below, List.forall₂_map_right_iff, List.forall₂_same]
      exact fun m hm => Nat.pos_of_ne_zero fun h0 => hzero (h0 ▸ hm)
    have hnew : new sizes = ⟨sizes, sizes.map fun _ => 0, false⟩ := by simp [new, hzero]
    rw [hnew, take_itemsFrom hbelow, itemsFrom_zeros hzero]
    rwa [itemsFrom_zeros hzero, length_combinations]

theorem toList_new (sizes : List Nat) : (new sizes).toList = combinations sizes := take_new sizes le_rfl

example : (new [2, 3]).toList = [[0, 0], [0, 1], [0, 2], [1, 0], [1, 1], [1, 2]] := by decide

end CombinationIterator

end Mekhan
