import Mekhan.Infra.Runs
import Mekhan.Nats.EventStore
import Mekhan.Service.PoolNet

/-!
# A seeded pool conserves its capacity

A unit of a seeded pool is free in `pool`, granted in `grant_outbox`, on its way back as a
registration in `register_inbox`, or held in `in_use`. Every transition moves it from one of these
places to another under its own id, whatever the claims, withdrawals, releases and expiry signals.
-/

namespace Mekhan

namespace PoolNet

open Infra Rhai

/-- The places a unit of a seeded pool can be in. -/
def unitPlaces : List PoolPlace := [.pool, .grantOutbox, .registerInbox, .inUse]

def unitIdAt (x : PoolPlace × RhaiMap) : Multiset Json :=
  if x.1 ∈ unitPlaces then {prop x.2 "unit_id"} else 0

/-- The ids of the units of a seeded pool, wherever they are. -/
def unitIds (m : PoolMarking) : Multiset Json := total unitIdAt m

theorem unitIds_seeds (capacity : Nat) :
    unitIds (seeds (.seeded capacity)) = (Multiset.range capacity).map unitLabel := by
  have hsum : ∀ l : List Nat,
      ((l.map fun i => (PoolPlace.pool, [("unit_id", unitLabel i)])).map unitIdAt).sum =
        (l.map unitLabel : Multiset Json) := by
    intro l
    induction l with
    | nil => rfl
    | cons i l ih =>
      rw [List.map_cons, List.map_cons, List.sum_cons, ih]
      rfl
  rw [unitIds, seeds, total_coe, hsum]
  rfl

/-! ## One step -/

variable {capacity : Nat} {m : PoolMarking}

theorem Fires.unitIds_eq {consumed produced : List (PoolPlace × RhaiMap)}
    (h : Fires (.seeded capacity) consumed produced) :
    (consumed.map unitIdAt).sum = (produced.map unitIdAt).sum := by
  cases h with
  | withdraw => rfl
  | grant => simp [unitIdAt, unitPlaces]
  | register => simp [unitIdAt, unitPlaces]
  | recycle hended =>
    rcases hended with rfl | rfl <;> simp [unitIdAt, unitPlaces]
  | acquire hsource => cases hsource
  | postOffer hconsent => cases hconsent
  | claim hconsent => cases hconsent
  | reapFree hsource => cases hsource
  | reapHeld hsource => cases hsource

theorem unitIds_step {m' : PoolMarking} {a : Action}
    (h : step (.seeded capacity) m a = some m') : unitIds m' = unitIds m := by
  cases stepped h with
  | fire hfires _ hm => rw [hm, unitIds, unitIds, total_add, total_add, total_coe, total_coe,
      hfires.unitIds_eq]
  | arrive hplace =>
    -- Nothing that holds a unit is an inbox.
    rw [unitIds, unitIds, total_cons]
    simp only [inboxes, List.mem_cons, List.not_mem_nil, or_false] at hplace
    rcases hplace with rfl | rfl | rfl | rfl <;> exact zero_add _
  | register hm hreg =>
    rename_i grant reg rest
    have hid : prop reg "unit_id" = prop grant "unit_id" :=
      hreg "unit_id" (List.mem_cons_of_mem _ (unitId_mem_unitKeys _))
    rw [hm, unitIds, unitIds, total_cons, total_cons]
    simp [unitIdAt, unitPlaces, hid]

/-! ## Every run -/

theorem unitIds_exec {run : List Action}
    (h : exec (step (.seeded capacity)) (seeds (.seeded capacity)) run = some m) :
    unitIds m = (Multiset.range capacity).map unitLabel :=
  exec_invariant (fun _ _ _ hs h => (unitIds_step h).trans hs) (unitIds_seeds capacity) h

theorem unitLabel_injective : Function.Injective unitLabel := by
  intro i j h
  have htext : "unit-" ++ toString i = "unit-" ++ toString j := Json.str.inj h
  refine toString_nat_injective (String.toList_injective ?_)
  have hlist := congrArg String.toList htext
  rw [String.toList_append, String.toList_append] at hlist
  exact List.append_cancel_left hlist

theorem not_free_and_held (hnodup : (unitIds m).Nodup) {unit hold : RhaiMap}
    (hfree : (.pool, unit) ∈ m) (hheld : (.inUse, hold) ∈ m) : prop unit "unit_id" ≠ prop hold "unit_id" := by
  intro hid
  obtain ⟨rest, rfl⟩ := Multiset.exists_cons_of_mem hfree
  have hheld' : (PoolPlace.inUse, hold) ∈ rest :=
    (Multiset.mem_cons.mp hheld).resolve_left (by simp)
  obtain ⟨rest, rfl⟩ := Multiset.exists_cons_of_mem hheld'
  rw [unitIds, total_cons, total_cons] at hnodup
  have htwice : prop unit "unit_id" ∈ unitIdAt (.inUse, hold) + total unitIdAt rest :=
    Multiset.mem_add.mpr (Or.inl (by simp [unitIdAt, unitPlaces, hid]))
  exact (Multiset.nodup_cons.mp hnodup).1 htwice

/-- **A seeded pool conserves its capacity.** After any run, the units that are free, granted, being
registered or held are pairwise distinct, are exactly those that were seeded, and none of them is
free and held at once. -/
theorem seeded_capacity_conserved (capacity : Nat) {run : List Action} {m : PoolMarking}
    (h : exec (step (.seeded capacity)) (seeds (.seeded capacity)) run = some m) :
    (unitIds m).Nodup ∧ unitIds m = (Multiset.range capacity).map unitLabel ∧ (unitIds m).card = capacity ∧
      ∀ unit hold, (.pool, unit) ∈ m → (.inUse, hold) ∈ m → prop unit "unit_id" ≠ prop hold "unit_id" := by
  have hids := unitIds_exec h
  have hnodup : (unitIds m).Nodup := by
    rw [hids]
    exact (Multiset.nodup_range capacity).map unitLabel_injective
  refine ⟨hnodup, hids, ?_, fun unit hold => not_free_and_held hnodup⟩
  rw [hids, Multiset.card_map, Multiset.card_range]

/-- A claim is granted and registered; its release comes twice, the first time too early. -/
def earlyRelease : List Action :=
  [.arrive .claimInbox [("grant_id", .str "run:step")],
    .arrive .releaseInbox [("grant_id", .str "run:step")],
    .fire .tGrant [[("grant_id", .str "run:step")], [("unit_id", .str "unit-1")]],
    .register [("grant_id", .str "run:step"), ("unit_id", .str "unit-1")]
      [("grant_id", .str "run:step"), ("unit_id", .str "unit-1")],
    .fire .tRegister [[("grant_id", .str "run:step"), ("unit_id", .str "unit-1")]],
    .fire .tRelease [[("grant_id", .str "run:step")],
      copy (holdKeys (.seeded 2)) [("grant_id", .str "run:step"), ("unit_id", .str "unit-1")]],
    .arrive .releaseInbox [("grant_id", .str "run:step")]]

theorem seeded_capacity_conserved_earlyRelease :
    ∃ m, exec (step (.seeded 2)) (seeds (.seeded 2)) earlyRelease = some m ∧
      unitIds m = (Multiset.range 2).map unitLabel :=
  ⟨_, rfl, (@seeded_capacity_conserved 2 earlyRelease _ rfl).2.1⟩

end PoolNet

end Mekhan
