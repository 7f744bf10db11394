import Mekhan.Autoscaler.Placement
import Mekhan.Infra.Ranking

/-!
# The spread of a placement

The loops of the placement go over engines, their targets are runners: the loop takes the runners that come first,
each once.

* `spread_snd` — what the loop does.
-/

namespace Mekhan

namespace Autoscaler

open Infra Grants QueryDsl

variable {policy : ModelAutoscalePolicy} {slots : List EngineSlot} {pulled : HashMap Grants.Uuid (List String)}
  {need n : Nat} {load : Grants.Uuid → PlacementAction} {rs rs' seen : List Grants.Uuid}
  {actions : List PlacementAction} {r : Grants.Uuid}

/-! ## The loop -/

def chosen (need : Nat) (seen rs : List Grants.Uuid) : List Grants.Uuid := (firstOf seen rs).take need

theorem spread_snd : ∀ {rs seen actions}, (spread need load rs (seen, actions)).2 =
    actions ++ (chosen (need - actions.length) seen rs).map load
  | [], seen, actions => by simp [spread, chosen, firstOf]
  | r :: rs, seen, actions => by
    rw [spread]
    split
    · next hfull => simp [chosen, Nat.sub_eq_zero_of_le hfull]
    · next hfull =>
      split
      · next hr => rw [spread_snd, chosen, chosen, firstOf, if_pos hr]
      · next hr =>
        have hneed : need - actions.length = need - (actions ++ [load r]).length + 1 := by
          rw [List.length_append, List.length_singleton]
          omega
        rw [spread_snd, hneed, chosen, chosen, firstOf, if_neg hr, List.take_succ_cons, List.map_cons,
          List.append_assoc, List.singleton_append]

theorem spread_of_full : ∀ {rs} {state : List Grants.Uuid × List PlacementAction}, need ≤ state.2.length →
    spread need load rs state = state
  | [], _, _ => rfl
  | _ :: _, (seen, actions), h => by rw [spread, if_pos h]

theorem spread_append : ∀ {rs} {state : List Grants.Uuid × List PlacementAction},
    spread need load (rs ++ rs') state = spread need load rs' (spread need load rs state)
  | [], _ => rfl
  | r :: rs, (seen, actions) => by
    rw [List.cons_append, spread, spread]
    split
    · next hfull => rw [spread_of_full hfull]
    · split
      · exact spread_append
      · exact spread_append

/-! ## The chosen runners -/

theorem chosen_nodup : (chosen need seen rs).Nodup := (firstOf_nodup rs seen).sublist (List.take_sublist _ _)

theorem mem_of_chosen (h : r ∈ chosen need seen rs) : r ∈ rs ∧ r ∉ seen := mem_firstOf.mp (List.mem_of_mem_take h)

theorem length_chosen : (chosen need seen rs).length = min need (rs.toFinset \ seen.toFinset).card := by
  rw [chosen, List.length_take, length_firstOf]

theorem chosen_eq_nil_iff (h : 0 < need) : chosen need seen rs = [] ↔ rs.toFinset \ seen.toFinset = ∅ := by
  rw [← List.length_eq_zero_iff, length_chosen, ← Finset.card_eq_zero]
  omega

theorem chosen_first (need : Nat) (seen rs : List Grants.Uuid) : ∃ head tail, rs = head ++ tail ∧
    ∀ r, r ∈ chosen need seen rs ↔ r ∈ head ∧ r ∉ seen := by
  obtain ⟨head, tail, hrs, htake⟩ := take_firstOf need rs seen
  refine ⟨head, tail, hrs, fun r => ?_⟩
  rw [chosen, htake, mem_firstOf]

/-! ## Runners -/

/-- The runners of the engines with the wanted base that meet a condition. -/
def hosts (policy : ModelAutoscalePolicy) (slots : List EngineSlot) (p : EngineSlot → Prop) [DecidablePred p] :
    Finset Grants.Uuid :=
  ((slots.filter fun s => s.base = wantedBase policy ∧ p s).map (·.runnerId)).toFinset

def servingRunners (policy : ModelAutoscalePolicy) (slots : List EngineSlot) : Finset Grants.Uuid :=
  hosts policy slots (policy.modelId ∈ ·.adapters)

def eligibleRunners (policy : ModelAutoscalePolicy) (slots : List EngineSlot) : Finset Grants.Uuid :=
  hosts policy slots (·.hasHeadroom) \ servingRunners policy slots

def residentRunners (policy : ModelAutoscalePolicy) (slots : List EngineSlot) : Finset Grants.Uuid :=
  hosts policy slots fun _ => True

def pulledRunners (policy : ModelAutoscalePolicy) (pulled : HashMap Grants.Uuid (List String)) : Finset Grants.Uuid :=
  ((pulled.toPairs.filter fun e => wantedBase policy ∈ e.2).map (·.1)).toFinset

theorem mem_hosts {p : EngineSlot → Prop} [DecidablePred p] :
    r ∈ hosts policy slots p ↔ ∃ s ∈ slots, s.runnerId = r ∧ s.base = wantedBase policy ∧ p s := by
  simp only [hosts, List.mem_toFinset, List.mem_map, List.mem_filter, decide_eq_true_eq]
  constructor
  · rintro ⟨s, ⟨hs, hbase, hp⟩, hr⟩
    exact ⟨s, hs, hr, hbase, hp⟩
  · rintro ⟨s, hs, hr, hbase, hp⟩
    exact ⟨s, ⟨hs, hbase, hp⟩, hr⟩

theorem mem_serving : r ∈ serving policy slots ↔ r ∈ servingRunners policy slots := by
  rw [servingRunners, mem_hosts, serving, List.mem_dedup, List.mem_map]
  constructor
  · rintro ⟨s, hs, hr⟩
    obtain ⟨hs, hserves⟩ := List.mem_filter.mp hs
    simp only [Bool.and_eq_true, decide_eq_true_eq, List.any_eq_true] at hserves
    obtain ⟨hbase, a, ha, rfl⟩ := hserves
    exact ⟨s, hs, hr, hbase, ha⟩
  · rintro ⟨s, hs, hr, hbase, ha⟩
    refine ⟨s, List.mem_filter.mpr ⟨hs, ?_⟩, hr⟩
    simp only [Bool.and_eq_true, decide_eq_true_eq, List.any_eq_true]
    exact ⟨hbase, _, ha, rfl⟩

theorem serving_toFinset : (serving policy slots).toFinset = servingRunners policy slots := by
  ext r
  rw [List.mem_toFinset, mem_serving]

theorem length_serving : (serving policy slots).length = (servingRunners policy slots).card := by
  rw [← serving_toFinset, List.toFinset_card_of_nodup]
  exact List.nodup_dedup _

variable {s : EngineSlot} {c : Grants.Uuid}

theorem mem_loadable : s ∈ loadable policy slots ↔ s ∈ slots ∧ s.base = wantedBase policy ∧
    s.hasHeadroom = true ∧ s.runnerId ∉ servingRunners policy slots := by
  simp only [loadable, List.mem_filter, Bool.and_eq_true, decide_eq_true_eq, Bool.not_eq_true',
    List.contains_eq_mem, decide_eq_false_iff_not, mem_serving, List.any_eq_false]
  constructor
  · rintro ⟨hs, ⟨⟨hbase, hroom⟩, -⟩, hserving⟩
    exact ⟨hs, hbase, hroom, hserving⟩
  · rintro ⟨hs, hbase, hroom, hserving⟩
    refine ⟨hs, ⟨⟨hbase, hroom⟩, fun a ha heq => hserving ?_⟩, hserving⟩
    exact mem_hosts.mpr ⟨s, hs, rfl, hbase, heq ▸ ha⟩

theorem loadable_sdiff_serving : ((leastLoadedFirst (loadable policy slots)).map (·.runnerId)).toFinset \
    (serving policy slots).toFinset = eligibleRunners policy slots := by
  ext r
  rw [Finset.mem_sdiff, eligibleRunners, Finset.mem_sdiff, serving_toFinset, mem_hosts, List.mem_toFinset, List.mem_map]
  refine and_congr_left fun hr => ?_
  simp only [leastLoadedFirst, List.mem_insertionSort, mem_loadable]
  constructor
  · rintro ⟨s, ⟨hs, hbase, hroom, -⟩, rfl⟩
    exact ⟨s, hs, rfl, hbase, hroom⟩
  · rintro ⟨s, hs, rfl, hbase, hroom⟩
    exact ⟨s, ⟨hs, hbase, hroom, hr⟩, rfl⟩

/-! ## Adapters -/

/-- What is asked of the placement of an adapter. -/
structure AdapterPlaced (policy : ModelAutoscalePolicy) (slots : List EngineSlot) (n : Nat)
    (actions : List PlacementAction) : Prop where
  load : ∀ a ∈ actions, a = .loadAdapter a.runnerId policy.modelId (wantedBase policy) none
  notServing : ∀ a ∈ actions, a.runnerId ∉ servingRunners policy slots
  headroom : ∀ a ∈ actions, ∃ s ∈ slots, s.runnerId = a.runnerId ∧ s.base = wantedBase policy ∧ s.hasHeadroom
  leastLoaded : ∀ r ∈ eligibleRunners policy slots, r ∉ actions.map (·.runnerId) → ∀ a ∈ actions,
    ∀ s ∈ slots, s.runnerId = r → s.base = wantedBase policy →
      ∃ t ∈ slots, t.runnerId = a.runnerId ∧ t.base = wantedBase policy ∧ s.free ≤ t.free
  count : (servingRunners policy slots).card + actions.length = max (servingRunners policy slots).card
    (min n ((servingRunners policy slots).card + (eligibleRunners policy slots).card))

theorem free_of_not_hasHeadroom (h : ¬s.hasHeadroom) : s.free = 0 := by
  rw [EngineSlot.hasHeadroom] at h
  rw [EngineSlot.free]
  cases hs : s.headroom with
  | none => simp [hs] at h
  | some room =>
    rw [hs, Option.map_some, Option.getD_some, decide_eq_true_eq, UInt32.lt_iff_toNat_lt] at h
    rw [Option.getD_some]
    exact Nat.eq_zero_of_not_pos h

def adapterTargets (policy : ModelAutoscalePolicy) (slots : List EngineSlot) (n : Nat) : List Grants.Uuid :=
  chosen (n - (serving policy slots).length) (serving policy slots)
    ((leastLoadedFirst (loadable policy slots)).map (·.runnerId))

theorem length_adapterTargets : (adapterTargets policy slots n).length =
    min (n - (servingRunners policy slots).card) (eligibleRunners policy slots).card := by
  rw [adapterTargets, length_chosen, loadable_sdiff_serving, length_serving]

theorem mem_adapterTargets (h : r ∈ adapterTargets policy slots n) : r ∈ eligibleRunners policy slots := by
  obtain ⟨hrs, hseen⟩ := mem_of_chosen h
  rw [← loadable_sdiff_serving, Finset.mem_sdiff, List.mem_toFinset, List.mem_toFinset]
  exact ⟨hrs, hseen⟩

/-- An engine of a runner that is left out has no more room than some engine of each runner that is not. -/
theorem adapterTargets_leastLoaded (hr : r ∈ eligibleRunners policy slots)
    (hleft : r ∉ adapterTargets policy slots n) (hc : c ∈ adapterTargets policy slots n) {s : EngineSlot}
    (hs : s ∈ slots) (hsr : s.runnerId = r) (hbase : s.base = wantedBase policy) :
    ∃ t ∈ slots, t.runnerId = c ∧ t.base = wantedBase policy ∧ s.free ≤ t.free := by
  obtain ⟨head, tail, hrs, hmem⟩ := chosen_first (n - (serving policy slots).length) (serving policy slots)
    ((leastLoadedFirst (loadable policy slots)).map (·.runnerId))
  obtain ⟨headSlots, tailSlots, hslots, rfl, rfl⟩ := List.map_eq_append_iff.mp hrs
  have hloadable : ∀ t ∈ headSlots ++ tailSlots, t ∈ loadable policy slots := by
    intro t ht
    rwa [← hslots, leastLoadedFirst, List.mem_insertionSort] at ht
  obtain ⟨t, ht, rfl⟩ := List.mem_map.mp ((hmem c).mp hc).1
  obtain ⟨htslots, htbase, -, -⟩ := mem_loadable.mp (hloadable t (List.mem_append_left _ ht))
  refine ⟨t, htslots, rfl, htbase, ?_⟩
  by_cases hroom : s.hasHeadroom
  · have hnotServing : s.runnerId ∉ servingRunners policy slots := hsr ▸ (Finset.mem_sdiff.mp hr).2
    have hin : s ∈ headSlots ++ tailSlots := by
      rw [← hslots, leastLoadedFirst, List.mem_insertionSort]
      exact mem_loadable.mpr ⟨hs, hbase, hroom, hnotServing⟩
    have hnotHead : s ∉ headSlots := fun hhead =>
      hleft ((hmem r).mpr ⟨hsr ▸ List.mem_map_of_mem hhead, fun h => hnotServing (hsr ▸ mem_serving.mp h)⟩)
    have hsorted : (headSlots ++ tailSlots).Pairwise fun s t => t.free ≤ s.free := by
      rw [← hslots, leastLoadedFirst]
      exact List.pairwise_insertionSort _ _
    exact (List.pairwise_append.mp hsorted).2.2 t ht s ((List.mem_append.mp hin).resolve_left hnotHead)
  · rw [free_of_not_hasHeadroom hroom]
    exact Nat.zero_le _

theorem planAdapter_eq : planAdapter policy slots n =
    if servingRunners policy slots = ∅ ∧ adapterTargets policy slots n = [] then .noEligibleRunner
    else .place ((adapterTargets policy slots n).map (.loadAdapter · policy.modelId (wantedBase policy) none)) := by
  rw [planAdapter]
  simp only [spread_snd, List.nil_append, List.length_nil, Nat.sub_zero]
  refine if_congr ?_ rfl rfl
  rw [Bool.and_eq_true, List.isEmpty_iff, List.isEmpty_iff, List.map_eq_nil_iff, ← serving_toFinset,
    List.toFinset_eq_empty_iff]
  rfl

theorem planAdapter_noEligible (hn : 0 < n) : planAdapter policy slots n = .noEligibleRunner ↔
    servingRunners policy slots = ∅ ∧ eligibleRunners policy slots = ∅ := by
  rw [planAdapter_eq]
  split
  · next h =>
    refine iff_of_true rfl ⟨h.1, Finset.card_eq_zero.mp ?_⟩
    have hlength : (adapterTargets policy slots n).length = _ := length_adapterTargets
    rw [h.2, h.1, List.length_nil, Finset.card_empty] at hlength
    omega
  · next h =>
    refine iff_of_false (by simp) fun hnone => h ⟨hnone.1, ?_⟩
    rw [← List.length_eq_zero_iff, length_adapterTargets, hnone.2, Finset.card_empty, Nat.min_zero]

/-- **The least loaded runners that can take an adapter get it, up to the count.** -/
theorem adapter_placed (h : planAdapter policy slots n = .place actions) :
    (actions.map (·.runnerId)).Nodup ∧ AdapterPlaced policy slots n actions := by
  have hactions : actions = (adapterTargets policy slots n).map
      (.loadAdapter · policy.modelId (wantedBase policy) none) := by
    rw [planAdapter_eq] at h
    split at h
    · cases h
    · exact (PlacementPlan.place.inj h).symm
  have htargets : actions.map (·.runnerId) = adapterTargets policy slots n := by
    rw [hactions, List.map_map]
    exact List.map_id _
  have hmem : ∀ a ∈ actions, a.runnerId ∈ adapterTargets policy slots n := fun a ha =>
    htargets ▸ List.mem_map_of_mem ha
  refine ⟨htargets ▸ chosen_nodup, fun a ha => ?_, fun a ha => ?_, fun a ha => ?_, ?_, ?_⟩
  · rw [hactions] at ha
    obtain ⟨r, -, rfl⟩ := List.mem_map.mp ha
    rfl
  · exact (Finset.mem_sdiff.mp (mem_adapterTargets (hmem a ha))).2
  · exact mem_hosts.mp (Finset.mem_sdiff.mp (mem_adapterTargets (hmem a ha))).1
  · intro r hr hleft a ha s hs hsr hbase
    rw [htargets] at hleft
    exact adapterTargets_leastLoaded hr hleft (hmem a ha) hs hsr hbase
  · have hlength : actions.length = (adapterTargets policy slots n).length := by rw [← htargets, List.length_map]
    rw [hlength, length_adapterTargets]
    omega

/-! ## Bases -/

/-- What is asked of the placement of a base model. -/
structure BasePlaced (policy : ModelAutoscalePolicy) (slots : List EngineSlot) (pulled : HashMap Grants.Uuid (List String))
    (n : Nat) (actions : List PlacementAction) : Prop where
  load : ∀ a ∈ actions, a = .loadBase a.runnerId (wantedBase policy)
  hosted : ∀ a ∈ actions, a.runnerId ∈ residentRunners policy slots ∪ pulledRunners policy pulled
  residentFirst : ∀ a ∈ actions, a.runnerId ∉ residentRunners policy slots →
    ∀ r ∈ residentRunners policy slots, r ∈ actions.map (·.runnerId)
  count : actions.length = min n (residentRunners policy slots ∪ pulledRunners policy pulled).card

theorem mem_resident_map : r ∈ (leastLoadedFirst (resident policy slots)).map (·.runnerId) ↔
    r ∈ residentRunners policy slots := by
  rw [residentRunners, mem_hosts, List.mem_map]
  simp only [leastLoadedFirst, List.mem_insertionSort, resident, List.mem_filter, decide_eq_true_eq, and_true]
  constructor
  · rintro ⟨s, ⟨hs, hbase⟩, hr⟩
    exact ⟨s, hs, hr, hbase⟩
  · rintro ⟨s, hs, hr, hbase⟩
    exact ⟨s, ⟨hs, hbase⟩, hr⟩

theorem mem_loadableIds : r ∈ loadableIds policy slots pulled ↔
    r ∈ pulledRunners policy pulled ∧ r ∉ residentRunners policy slots := by
  have hresident : r ∈ (resident policy slots).map (·.runnerId) ↔ r ∈ residentRunners policy slots := by
    rw [← mem_resident_map]
    exact ((List.perm_insertionSort _ _).map _).mem_iff.symm
  rw [loadableIds, List.mem_insertionSort, pulledRunners, List.mem_toFinset, List.mem_map, List.mem_map]
  simp only [List.mem_filter, Bool.and_eq_true, Bool.not_eq_true', List.contains_eq_mem, decide_eq_false_iff_not,
    List.any_eq_true, decide_eq_true_eq]
  constructor
  · rintro ⟨e, ⟨he, hnot, m, hm, rfl⟩, rfl⟩
    exact ⟨⟨e, ⟨he, hm⟩, rfl⟩, fun h => hnot (hresident.mpr h)⟩
  · rintro ⟨⟨e, ⟨he, hm⟩, rfl⟩, hnot⟩
    exact ⟨e, ⟨he, fun h => hnot (hresident.mp h), _, hm, rfl⟩, rfl⟩

/-- The runners in the order of the two loops. -/
def baseCandidates (policy : ModelAutoscalePolicy) (slots : List EngineSlot) (pulled : HashMap Grants.Uuid (List String)) :
    List Grants.Uuid :=
  (leastLoadedFirst (resident policy slots)).map (·.runnerId) ++ loadableIds policy slots pulled

def baseTargets (policy : ModelAutoscalePolicy) (slots : List EngineSlot) (pulled : HashMap Grants.Uuid (List String))
    (n : Nat) : List Grants.Uuid :=
  chosen n [] (baseCandidates policy slots pulled)

theorem baseCandidates_toFinset : (baseCandidates policy slots pulled).toFinset \ [].toFinset =
    residentRunners policy slots ∪ pulledRunners policy pulled := by
  ext r
  rw [List.toFinset_nil, Finset.sdiff_empty, List.mem_toFinset, baseCandidates, List.mem_append, mem_resident_map,
    mem_loadableIds, Finset.mem_union]
  tauto

theorem planBase_eq : planBase policy slots pulled n =
    if baseTargets policy slots pulled n = [] then .noEligibleRunner
    else .place ((baseTargets policy slots pulled n).map (.loadBase · (wantedBase policy))) := by
  rw [planBase]
  simp only [← spread_append, spread_snd, List.nil_append, List.length_nil, Nat.sub_zero]
  refine if_congr ?_ rfl rfl
  rw [List.isEmpty_iff, List.map_eq_nil_iff]
  rfl

theorem planBase_noEligible (hn : 0 < n) : planBase policy slots pulled n = .noEligibleRunner ↔
    residentRunners policy slots ∪ pulledRunners policy pulled = ∅ := by
  rw [← baseCandidates_toFinset, ← chosen_eq_nil_iff hn, planBase_eq]
  split
  · next h => exact iff_of_true rfl h
  · next h => exact iff_of_false (by simp) h

theorem baseTargets_residentFirst (hc : c ∈ baseTargets policy slots pulled n)
    (hnot : c ∉ residentRunners policy slots) (hr : r ∈ residentRunners policy slots) :
    r ∈ baseTargets policy slots pulled n := by
  obtain ⟨head, tail, hrs, hmem⟩ := chosen_first n [] (baseCandidates policy slots pulled)
  refine (hmem r).mpr ⟨?_, List.not_mem_nil⟩
  have hchead : c ∈ head := ((hmem c).mp hc).1
  rw [baseCandidates] at hrs
  rcases List.append_eq_append_iff.mp hrs with ⟨more, hhead, -⟩ | ⟨more, hresident, -⟩
  · rw [hhead]
    exact List.mem_append_left _ (mem_resident_map.mpr hr)
  · refine absurd (mem_resident_map.mp ?_) hnot
    rw [hresident]
    exact List.mem_append_left _ hchead

/-- **A base is woken on the runners that run it before it is loaded on others, up to the count.** -/
theorem base_placed (h : planBase policy slots pulled n = .place actions) :
    (actions.map (·.runnerId)).Nodup ∧ BasePlaced policy slots pulled n actions := by
  have hactions : actions = (baseTargets policy slots pulled n).map (.loadBase · (wantedBase policy)) := by
    rw [planBase_eq] at h
    split at h
    · cases h
    · exact (PlacementPlan.place.inj h).symm
  have htargets : actions.map (·.runnerId) = baseTargets policy slots pulled n := by
    rw [hactions, List.map_map]
    exact List.map_id _
  have hmem : ∀ a ∈ actions, a.runnerId ∈ baseTargets policy slots pulled n := fun a ha =>
    htargets ▸ List.mem_map_of_mem ha
  refine ⟨htargets ▸ chosen_nodup, fun a ha => ?_, fun a ha => ?_, fun a ha hnot r hr => ?_, ?_⟩
  · rw [hactions] at ha
    obtain ⟨r, -, rfl⟩ := List.mem_map.mp ha
    rfl
  · obtain ⟨hrs, hnil⟩ := mem_of_chosen (hmem a ha)
    rw [← baseCandidates_toFinset, List.toFinset_nil, Finset.sdiff_empty, List.mem_toFinset]
    exact hrs
  · rw [htargets]
    exact baseTargets_residentFirst (hmem a ha) hnot hr
  · rw [← baseCandidates_toFinset, ← length_chosen, ← List.length_map, htargets]
    rfl

/-! ## The zone -/

variable {order : Grants.Uuid → ∀ bases : MapOf String (Option UInt32), Iteration bases}
  {used : Grants.Uuid → String → List String → UInt32} {catalogs : List (Grants.Uuid × RunnerInterfaceCatalog)}

/-- Every runner of an inventory is in the zone. -/
structure ZoneInventory.InZone (inv : ZoneInventory) (policy : ModelAutoscalePolicy)
    (catalogs : List (Grants.Uuid × RunnerInterfaceCatalog)) : Prop where
  slots : ∀ s ∈ inv.slots, ∃ c ∈ catalogs, c.1 = s.runnerId ∧ inZone policy c.2
  pulled : ∀ e ∈ inv.pulled.toPairs, ∃ c ∈ catalogs, c.1 = e.1 ∧ inZone policy c.2

theorem runnerId_of_slotsOf {catalog : RunnerInterfaceCatalog}
    (h : s ∈ slotsOf order used r catalog) : s.runnerId = r := by
  obtain ⟨_, -, rfl⟩ := List.mem_map.mp h
  rfl

theorem mem_toPairs_insert {m : HashMap Grants.Uuid (List String)} {ids : List String} {e : Grants.Uuid × List String}
    (h : e ∈ HashMap.toPairs (m.insert r ids)) : e.1 = r ∨ e ∈ m.toPairs := by
  obtain ⟨e', he', rfl⟩ := List.mem_map.mp h
  rw [AList.entries_insert, List.mem_cons] at he'
  rcases he' with rfl | hold
  · exact .inl rfl
  · exact .inr (List.mem_map_of_mem ((List.kerase_sublist _ _).subset hold))

theorem buildZoneInventory_inZone : (buildZoneInventory order used catalogs policy).InZone policy catalogs := by
  have hloop : ∀ (rest : List (Grants.Uuid × RunnerInterfaceCatalog)) (inv : ZoneInventory), rest ⊆ catalogs →
      inv.InZone policy catalogs → (rest.foldl (fun inv c =>
        if inZone policy c.2 then ⟨inv.slots ++ slotsOf order used c.1 c.2, inv.pulled.insert c.1 c.2.pulled⟩
        else inv) inv : ZoneInventory).InZone policy catalogs := by
    intro rest
    induction rest with
    | nil => exact fun _ _ h => h
    | cons c rest ih =>
      intro inv hrest hinv
      rw [List.cons_subset] at hrest
      refine ih _ hrest.2 ?_
      dsimp only
      split
      · next hzone =>
        refine ⟨fun s hs => ?_, fun e he => ?_⟩
        · rcases List.mem_append.mp hs with hold | hnew
          · exact hinv.slots s hold
          · exact ⟨c, hrest.1, (runnerId_of_slotsOf hnew).symm, hzone⟩
        · rcases mem_toPairs_insert he with hnew | hold
          · exact ⟨c, hrest.1, hnew.symm, hzone⟩
          · exact hinv.pulled e hold
      · exact hinv
  exact hloop catalogs _ (List.Subset.refl _) ⟨by simp, by simp [HashMap.toPairs]⟩

theorem mem_inventory_of_target {n : UInt32} (h : planPlacements policy slots pulled n = .place actions)
    {a : PlacementAction} (ha : a ∈ actions) :
    (∃ s ∈ slots, s.runnerId = a.runnerId) ∨ ∃ e ∈ pulled.toPairs, e.1 = a.runnerId := by
  rw [planPlacements] at h
  split at h
  · obtain ⟨s, hs, hr, -⟩ := (adapter_placed h).2.headroom a ha
    exact .inl ⟨s, hs, hr⟩
  · rcases Finset.mem_union.mp ((base_placed h).2.hosted a ha) with hresident | hpulled
    · obtain ⟨s, hs, hr, -⟩ := mem_hosts.mp hresident
      exact .inl ⟨s, hs, hr⟩
    · obtain ⟨e, he, hr⟩ := List.mem_map.mp (List.mem_toFinset.mp hpulled)
      exact .inr ⟨e, (List.mem_filter.mp he).1, hr⟩

/-- **A model with a zone is placed only on runners with the zone.** -/
theorem target_inZone {catalogs : KeyedList (Prod.fst : Grants.Uuid × RunnerInterfaceCatalog → Grants.Uuid)} {n : UInt32}
    (hzone : trim policy.residencyZone.toList ≠ [])
    (h : planPlacements policy (buildZoneInventory order used catalogs.toList policy).slots
      (buildZoneInventory order used catalogs.toList policy).pulled n = .place actions)
    {a : PlacementAction} (ha : a ∈ actions) :
    ((catalogs.get? a.runnerId).bind (·.2.residencyZone)).map (trim ·.toList) =
      some (trim policy.residencyZone.toList) := by
  obtain ⟨c, hc, hr, hin⟩ : ∃ c ∈ catalogs.toList, c.1 = a.runnerId ∧ inZone policy c.2 := by
    have hinv : (buildZoneInventory order used catalogs.toList policy).InZone _ _ := buildZoneInventory_inZone
    rcases mem_inventory_of_target h ha with ⟨s, hs, hr⟩ | ⟨e, he, hr⟩
    · exact hr ▸ hinv.slots s hs
    · exact hr ▸ hinv.pulled e he
  rw [inZone, Bool.or_eq_true, List.isEmpty_iff, or_iff_right hzone] at hin
  obtain ⟨z, hz, htrim⟩ := (Option.any_eq_true _ _).mp hin
  rw [← hr, KeyedList.get?_of_mem hc, Option.bind_some, hz, Option.map_some, of_decide_eq_true htrim]

/-! ## The plan -/

/-- **A plan reaches the count as far as runners can take the model, and no more; it prefers the runners it should,
and it stays in the zone.** -/
theorem planPlacements_spread (policy : ModelAutoscalePolicy) (n : UInt32) (hn : 1 ≤ n) : (∀ slots pulled,
      (policy.base.isSome → (planPlacements policy slots pulled n = .noEligibleRunner ↔
        servingRunners policy slots = ∅ ∧ eligibleRunners policy slots = ∅)) ∧
      (policy.base = none → (planPlacements policy slots pulled n = .noEligibleRunner ↔
        residentRunners policy slots ∪ pulledRunners policy pulled = ∅)) ∧
      ∀ actions, planPlacements policy slots pulled n = .place actions → (actions.map (·.runnerId)).Nodup ∧
        (policy.base.isSome → AdapterPlaced policy slots n.toNat actions) ∧
        (policy.base = none → BasePlaced policy slots pulled n.toNat actions)) ∧
    ∀ order used (catalogs : KeyedList (Prod.fst : Grants.Uuid × RunnerInterfaceCatalog → Grants.Uuid)) actions,
      trim policy.residencyZone.toList ≠ [] →
      planPlacements policy (buildZoneInventory order used catalogs.toList policy).slots
        (buildZoneInventory order used catalogs.toList policy).pulled n = .place actions →
      ∀ a ∈ actions, ((catalogs.get? a.runnerId).bind (·.2.residencyZone)).map (trim ·.toList) =
        some (trim policy.residencyZone.toList) := by
  have hpos : 0 < n.toNat := UInt32.le_iff_toNat_le.mp hn
  have hmax : max n.toNat 1 = n.toNat := Nat.max_eq_left hpos
  refine ⟨fun slots pulled => ?_, fun order used catalogs actions hzone h a ha => target_inZone hzone h ha⟩
  rw [planPlacements, hmax]
  refine ⟨fun hbase => ?_, fun hbase => ?_, fun actions h => ?_⟩
  · rw [if_pos hbase]
    exact planAdapter_noEligible hpos
  · rw [if_neg (by simp [hbase])]
    exact planBase_noEligible hpos
  · split at h
    · next hbase =>
      obtain ⟨hnodup, hplaced⟩ := adapter_placed h
      exact ⟨hnodup, fun _ => hplaced, fun hnone => absurd hbase (by simp [hnone])⟩
    · next hbase =>
      obtain ⟨hnodup, hplaced⟩ := base_placed h
      exact ⟨hnodup, fun hsome => absurd hsome hbase, fun _ => hplaced⟩

/-- One runner serves the adapter, one has two engines with the base, one has an unknown headroom. -/
theorem planPlacements_three :
    let policy : ModelAutoscalePolicy := ⟨"lora", "", some "llama"⟩
    let slots : List EngineSlot := [⟨1, "llama", some 4, ["lora"]⟩, ⟨2, "llama", some 3, []⟩,
      ⟨2, "llama", some 1, []⟩, ⟨3, "llama", none, []⟩]
    let actions : List PlacementAction := [.loadAdapter 3 "lora" "llama" none]
    planPlacements policy slots ∅ 2 = .place actions ∧ AdapterPlaced policy slots 2 actions :=
  ⟨by decide, (((planPlacements_spread _ 2 (by decide)).1 _ ∅).2.2 _ (by decide)).2.1 rfl⟩

end Autoscaler

end Mekhan
