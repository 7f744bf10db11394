import Mathlib.Data.List.Sort
import Mekhan.Application.RhaiRuntime
import Mekhan.Infra.QueuedNet

/-!
# The counted gather barrier

`service/src/compiler/lower/gather.rs`: the transition that ends the fan-out of a Map and of a
gathered channel. It looks at the newest coordinator for the expected count and the correlation id,
consumes that many of the oldest results that carry the id, and puts out their values in the order
of their index.

Every transition of these nets is a script: what it puts out has gone through the interpreter
(`scripted`).
-/

namespace Mekhan

open Infra
open Rhai (prop int)

/-! ## Scripts -/

section

variable {P D : Type} {token : RhaiMap} {key : String}

/-- A transition whose tokens are made by a script: they come back from the interpreter, with the
integers that it does not have as floats. -/
def scripted (t : QueueTransition P RhaiMap) : QueueTransition P RhaiMap where
  inputs := t.inputs
  guard := t.guard
  outputs := fun bound => (t.outputs bound).map fun out => (out.1, Rhai.dynamicToJsonEntries out.2)

theorem comap_scripted (t : QueueTransition P RhaiMap) (f : D → RhaiMap) (mark : List (List D) → RhaiMap → D) :
    (scripted t).comap f mark = t.comap f fun bound c => mark bound (Rhai.dynamicToJsonEntries c) := by
  simp [scripted, QueueTransition.comap, Function.comp_def]

theorem lookup_dynamicToJsonEntries : (Rhai.dynamicToJsonEntries token).lookup key =
    (token.lookup key).map Rhai.dynamicToJsonValue := by
  induction token with
  | nil => rfl
  | cons e token ih =>
    rw [Rhai.dynamicToJsonEntries, List.lookup_cons, List.lookup_cons, ih]
    cases key == e.1 <;> rfl

theorem prop_dynamicToJsonEntries :
    prop (Rhai.dynamicToJsonEntries token) key = Rhai.dynamicToJsonValue (prop token key) := by
  rw [prop, prop, lookup_dynamicToJsonEntries]
  cases token.lookup key <;> rfl

@[simp] theorem dynamicToJsonValue_str (s : String) : Rhai.dynamicToJsonValue (.str s) = .str s := rfl

theorem dynamicToJsonValue_int {n : Nat} (h : n < 2 ^ 63) : Rhai.dynamicToJsonValue (int n) = int n := by
  rw [int, Rhai.dynamicToJsonValue, Number.asI64, if_pos h]
  rfl

/-- An array whose elements come back as they are does. -/
theorem dynamicToJsonValue_arr {elems : List Json} (h : ∀ x ∈ elems, Rhai.dynamicToJsonValue x = x) :
    Rhai.dynamicToJsonValue (.arr elems) = .arr elems := by
  rw [Rhai.dynamicToJsonValue]
  induction elems with
  | nil => rfl
  | cons x elems ih =>
    obtain ⟨hx, hrest⟩ := List.forall_mem_cons.mp h
    rw [Rhai.dynamicToJsonValues, hx, Json.arr.inj (ih hrest)]

end

namespace Gather

def idx (result : RhaiMap) : Json := prop result "__map_idx"

/-- `__r.sort(..)`, a stable sort by the index. -/
def sortByIdx (results : List RhaiMap) : List RhaiMap :=
  results.insertionSort fun a b => Rhai.lt (idx b) (idx a) = false

def quota (countField : String) : List (List RhaiMap) → Option Nat
  | [coordinator] :: _ =>
    match coordinator.lookup countField with
    | some (.num n) => n.asU64
    | _ => none
  | _ => none

/-- Whether a result carries the coordinator's value of the field. -/
def correlated (field : String) (bound : List (List RhaiMap)) (result : RhaiMap) : Bool :=
  match bound with
  | [coordinator] :: _ =>
    match result.lookup field, coordinator.lookup field with
    | some v, some w => v.eqv w
    | none, none => true
    | _, _ => false
  | _ => false

def gathered (results : List RhaiMap) : RhaiMap :=
  [("output", .arr ((sortByIdx results).map (prop · "value")))]

end Gather

open Gather in
/-- `emit_gather_barrier`. -/
def gatherBarrier {P : Type} (pCount pResults pGathered : P) (countField correlateField : String) :
    QueueTransition P RhaiMap where
  inputs := [.peek pCount, .gather pResults (quota countField) (correlated correlateField)]
  guard := fun _ => true
  outputs
    | [_, results] => [(pGathered, gathered results)]
    | _ => []

namespace Gather

/-! ## Sorting by the index -/

def natOf : Json → Nat
  | .num (.posInt n) => n
  | _ => 0

@[simp] theorem natOf_int (n : Nat) : natOf (int n) = n := rfl

/-- **Results with the indices below `n` are put out in the order of their index.** -/
theorem map_value_sortByIdx {n : Nat} {results : List RhaiMap} {value : Nat → Json} (hn : n < 2 ^ 63)
    (hperm : (results.map idx).Perm ((List.range n).map int))
    (hvalue : ∀ x ∈ results, ∀ i, idx x = int i → prop x "value" = value i) :
    (sortByIdx results).map (prop · "value") = (List.range n).map value := by
  have hidx : ∀ x ∈ results, idx x = int (natOf (idx x)) ∧ natOf (idx x) < n := by
    intro x hx
    obtain ⟨i, hi, hix⟩ := List.mem_map.mp (hperm.mem_iff.mp (List.mem_map_of_mem hx))
    rw [← hix, natOf_int]
    exact ⟨rfl, List.mem_range.mp hi⟩
  have hnat : (results.map fun x => natOf (idx x)).Perm (List.range n) := by
    have hmap := hperm.map natOf
    rw [List.map_map, List.map_map] at hmap
    have hid : (List.range n).map (natOf ∘ int) = List.range n := by
      rw [show natOf ∘ int = id from rfl, List.map_id]
    rw [hid] at hmap
    exact hmap
  -- The comparator agrees with the order of the natural numbers on the indices.
  have hsort : (sortByIdx results).map (fun x => natOf (idx x)) = List.range n := by
    have hmap := List.map_insertionSort (fun a b => Rhai.lt (idx b) (idx a) = false) (· ≤ ·)
      (fun x => natOf (idx x)) results (by
        intro a ha b hb
        obtain ⟨hia, hltA⟩ := hidx a ha
        obtain ⟨hib, hltB⟩ := hidx b hb
        rw [hia, hib, Bool.eq_false_iff, natOf_int, natOf_int, int, int, Ne,
          Rhai.lt_posInt (hltB.trans hn) (hltA.trans hn), Nat.not_lt])
    rw [sortByIdx, hmap]
    refine List.Perm.eq_of_pairwise' (r := (· ≤ ·)) ?_ ?_ ((List.perm_insertionSort _ _).trans hnat)
    · exact List.pairwise_insertionSort _ _
    · exact List.pairwise_le_range
  have hvalues : ∀ x ∈ sortByIdx results, prop x "value" = value (natOf (idx x)) := by
    intro x hx
    have hx' : x ∈ results := (List.mem_insertionSort _).mp hx
    exact hvalue x hx' _ (hidx x hx').1
  rw [List.map_congr_left hvalues, ← hsort, List.map_map]
  rfl

/-! ## Firing the barrier -/

/-- The barrier fires with the newest coordinator, on as many of the oldest results that belong to it
as it asks for. -/
theorem fire?_gatherBarrier {P D : Type} [DecidableEq P] {f : D → RhaiMap}
    {mark : List (List D) → RhaiMap → D} {pCount pResults pGathered : P}
    {countField correlateField : String} {q q' : Queues P D}
    (h : ((gatherBarrier pCount pResults pGathered countField correlateField).comap f mark).fire? q =
      some q') : ∃ c k, (q pCount).getLast? = some c ∧ quota countField [[f c]] = some (k + 1) ∧
      k + 1 ≤ ((q pResults).filter fun x => correlated correlateField [[f c]] (f x)).length ∧
      ∃ taken rest, taken = ((q pResults).filter fun x =>
          correlated correlateField [[f c]] (f x)).take (k + 1) ∧ (q pResults).Perm (rest ++ taken) ∧
        q' = enqueue (Function.update q pResults rest)
          [(pGathered, mark [[c], taken] (gathered (taken.map f)))] := by
  obtain ⟨bound, rest, hb, rfl⟩ := QueueTransition.fire?_eq_some h
  obtain ⟨hmem, -⟩ := QueueTransition.binding?_eq_some hb
  obtain ⟨c, hc, hmem⟩ := mem_choices_peek.mp hmem
  obtain ⟨k, hk, hlen, hmem⟩ := mem_choices_gather.mp hmem
  obtain ⟨rfl, rfl⟩ := mem_choices_nil.mp hmem
  exact ⟨c, k, hc, hk, hlen, _, _, rfl, dropFirst_perm _ (k + 1) (q pResults), rfl⟩

end Gather

end Mekhan
