import Mekhan.Infra.Runs
import Mekhan.Service.PresenceRunners

/-!
# Capacity of a presence pool

A heartbeat tops a runner's units up to its concurrency `C`, against the units the engine shows in
`pool` and `in_use`. A unit that is minted and not yet admitted, or granted and not yet registered,
is in neither place.
-/

namespace Mekhan

open Infra Rhai

namespace RunnerPool

/-! ## The units of a runner -/

/-- The places a unit of a presence pool can be in. -/
def unitPlaces : List PoolPlace := [.presenceAcquire, .pool, .grantOutbox, .registerInbox, .inUse]

/-- Those that the controller does not look at. -/
def hiddenPlaces : List PoolPlace := [.presenceAcquire, .grantOutbox, .registerInbox]

/-- The id of a token that is a unit of the runner in one of the places. -/
def idIn (places : List PoolPlace) (r : String) (x : PoolPlace × RhaiMap) : Multiset Json :=
  if x.1 ∈ places ∧ prop x.2 "runner_id" = .str r then {prop x.2 "unit_id"} else 0

def unitIds (r : String) (m : PoolMarking) : Multiset Json := total (idIn unitPlaces r) m

/-- The ids of the runner's units that the controller does not see in the marking. -/
def hiddenIds (r : String) (m : PoolMarking) : Multiset Json := total (idIn hiddenPlaces r) m

def signalAt (r : String) (x : PoolPlace × RhaiMap) : Nat :=
  if x.1 = .presenceExpired ∧ prop x.2 "runner_id" = .str r then 1 else 0

def signals (r : String) (m : PoolMarking) : Nat := total (signalAt r) m

variable {acceptance : Acceptance} {r : String}

theorem card_idIn (r : String) (place : PoolPlace) (token : RhaiMap) :
    (idIn unitPlaces r (place, token)).card = (idIn hiddenPlaces r (place, token)).card +
      ((if place = .pool ∧ (prop token "runner_id").asStr? = some r then 1 else 0) +
        (if place = .inUse ∧ (prop token "runner_id").asStr? = some r then 1 else 0)) := by
  have hstr : (prop token "runner_id").asStr? = some r ↔ prop token "runner_id" = .str r := by
    cases prop token "runner_id" <;> simp [Json.asStr?]
  by_cases hr : prop token "runner_id" = .str r
  · cases place <;> simp [idIn, unitPlaces, hiddenPlaces, hr, Json.asStr?]
  · simp [idIn, hstr, hr]

theorem card_unitIds (r : String) (m : PoolMarking) :
    (unitIds r m).card = (hiddenIds r m).card + countUnitsInMarking m r := by
  induction m using Multiset.induction with
  | empty => rfl
  | cons x m ih =>
    obtain ⟨place, token⟩ := x
    have htoken := card_idIn r place token
    rw [unitIds, hiddenIds, countUnitsInMarking] at ih ⊢
    simp only [List.map_cons, List.map_nil, List.sum_cons, List.sum_nil, total_cons,
      Multiset.card_add, Multiset.countP_cons] at ih ⊢
    omega

/-! ## Steps of the net -/

theorem signalAt_reaping {exp unit : RhaiMap} {place : PoolPlace} (hplace : place ∈ unitPlaces)
    (hid : Rhai.eq (prop exp "runner_id") (prop unit "runner_id") = true) :
    signalAt r (.presenceExpired, exp) = (idIn unitPlaces r (place, unit)).card := by
  by_cases hr : prop unit "runner_id" = .str r
  · rw [hr, eq_str_right] at hid
    rw [signalAt, idIn, if_pos ⟨rfl, hid⟩, if_pos ⟨hplace, hr⟩, Multiset.card_singleton]
  · have hexp : prop exp "runner_id" ≠ .str r := by
      intro he
      rw [he, eq_str_left] at hid
      exact hr hid
    rw [signalAt, idIn, if_neg (fun h => hexp h.2), if_neg (fun h => hr h.2), Multiset.card_zero]

theorem Fires.units_eq {consumed produced : List (PoolPlace × RhaiMap)}
    (h : PoolNet.Fires (.presence acceptance) consumed produced) : ∃ reaped : Multiset Json,
      (produced.map (idIn unitPlaces r)).sum + reaped = (consumed.map (idIn unitPlaces r)).sum ∧
      (produced.map (signalAt r)).sum + reaped.card = (consumed.map (signalAt r)).sum := by
  cases h with
  | reapFree hsource hid =>
    rename_i exp unit done
    have hsignal : signalAt r (.presenceExpired, exp) = (idIn unitPlaces r (.pool, unit)).card :=
      signalAt_reaping (by decide) hid
    refine ⟨idIn unitPlaces r (.pool, unit), ?_, ?_⟩
    · simp [idIn, unitPlaces]
    · simp only [List.map_cons, List.map_nil, List.sum_cons, List.sum_nil, hsignal]
      simp [signalAt]
  | reapHeld hsource hid =>
    rename_i exp held notify done
    have hsignal : signalAt r (.presenceExpired, exp) = (idIn unitPlaces r (.inUse, held)).card :=
      signalAt_reaping (by decide) hid
    refine ⟨idIn unitPlaces r (.inUse, held), ?_, ?_⟩
    · simp [idIn, unitPlaces]
    · simp only [List.map_cons, List.map_nil, List.sum_cons, List.sum_nil, hsignal]
      simp [signalAt]
  | recycle hended =>
    refine ⟨0, ?_⟩
    rcases hended with rfl | rfl <;> simp [idIn, unitPlaces, signalAt]
  | _ => exact ⟨0, by simp [idIn, unitPlaces, signalAt]⟩

theorem units_poolStep {m m' : PoolMarking} {a : PoolNet.Action} (hothers : ofOthers a = true)
    (h : PoolNet.step (.presence acceptance) m a = some m') :
    ∃ reaped : Multiset Json, unitIds r m' + reaped = unitIds r m ∧
      signals r m' + reaped.card = signals r m := by
  cases PoolNet.stepped h with
  | fire hfires _ hm =>
    obtain ⟨reaped, hids, hsignals⟩ := Fires.units_eq (r := r) hfires
    refine ⟨reaped, ?_, ?_⟩
    · rw [hm, unitIds, unitIds, total_add, total_add, total_coe, total_coe, add_assoc, hids]
    · rw [hm, signals, signals, total_add, total_add, total_coe, total_coe, add_assoc, hsignals]
  | arrive hplace =>
    rename_i place token
    have hzero : idIn unitPlaces r (place, token) = 0 ∧ signalAt r (place, token) = 0 := by
      cases place with
      | presenceAcquire => simp [ofOthers] at hothers
      | presenceExpired => simp [ofOthers] at hothers
      | pool => cases acceptance <;> simp [PoolNet.inboxes] at hplace
      | grantOutbox => cases acceptance <;> simp [PoolNet.inboxes] at hplace
      | registerInbox => cases acceptance <;> simp [PoolNet.inboxes] at hplace
      | inUse => cases acceptance <;> simp [PoolNet.inboxes] at hplace
      | _ => simp [idIn, unitPlaces, signalAt]
    refine ⟨0, ?_, ?_⟩
    · rw [unitIds, unitIds, total_cons, hzero.1, zero_add, add_zero]
    · rw [signals, signals, total_cons, hzero.2, zero_add, Multiset.card_zero, add_zero]
  | register hm hreg =>
    rename_i grant reg rest
    have hrunner : prop reg "runner_id" = prop grant "runner_id" :=
      hreg _ (List.mem_cons_of_mem _ (PoolNet.runnerId_mem_unitKeys acceptance))
    have hunit : prop reg "unit_id" = prop grant "unit_id" :=
      hreg _ (List.mem_cons_of_mem _ (PoolNet.unitId_mem_unitKeys _))
    refine ⟨0, ?_, ?_⟩
    · rw [hm, unitIds, unitIds, total_cons, total_cons, add_zero]
      simp [idIn, unitPlaces, hrunner, hunit]
    · rw [hm, signals, signals, total_cons, total_cons]
      simp [signalAt]

/-! ## Minting -/

/-- The tokens of acquires still to be published. -/
def acquireTokens (found : List PoolInjection) : PoolMarking :=
  ↑(found.map fun inj => (PoolMessage.acquire inj).token)

theorem idIn_acquire (r runnerId : String) (slot : Nat) (epoch : Int) (ns : String) (caps : Json) :
    (idIn unitPlaces r (PoolMessage.acquire (acquireInjection runnerId slot epoch ns caps)).token).card =
      if runnerId = r then 1 else 0 := by
  have hrunner : prop (acquireInjection runnerId slot epoch ns caps).tokenColor "runner_id" =
      .str runnerId := rfl
  by_cases h : runnerId = r
  · subst h
    simp [idIn, unitPlaces, PoolMessage.token, PoolMessage.place, PoolMessage.color, hrunner]
  · simp [idIn, PoolMessage.token, PoolMessage.color, hrunner, h]

theorem card_mintSlots (r runnerId : String) (need : Nat) (epoch : Int) (caps : Json) :
    (unitIds r (acquireTokens (mintSlots runnerId need epoch caps))).card =
      if runnerId = r then need else 0 := by
  have hslots : ∀ slots : List Nat, (unitIds r (acquireTokens (slots.map fun slot =>
      acquireInjection runnerId slot epoch ("runner-jobs/" ++ runnerId) caps))).card =
        if runnerId = r then slots.length else 0 := by
    intro slots
    induction slots with
    | nil => simp [acquireTokens, unitIds]
    | cons slot slots ih =>
      have htoken := idIn_acquire r runnerId slot epoch ("runner-jobs/" ++ runnerId) caps
      simp only [acquireTokens, unitIds, total_coe, List.map_cons, List.sum_cons,
        Multiset.card_add, List.length_cons] at ih ⊢
      rw [htoken, ih]
      split <;> omega
  rw [mintSlots, hslots, List.length_range]

/-! ## The condition -/

/-- Every unit of the runner is where the controller counts it. -/
def AllInSight (r : String) (s : RunnerPool) : Prop :=
  unitIds r s.away = 0 ∧ hiddenIds r s.marking = 0

instance (r : String) (s : RunnerPool) : Decidable (AllInSight r s) :=
  inferInstanceAs (Decidable (_ ∧ _))

/-- A heartbeat of the runner that is answered, by the engine and by the database, is so with all
units in sight. -/
def countsAll (r : String) (s : RunnerPool) : RunnerAction → Bool
  | .count readable capabilities _ =>
    match s.handler with
    | .counting runnerId _ edge =>
      !readable || (edge.or capabilities).isNone || runnerId ≠ r || AllInSight r s
    | _ => true
  | _ => true

/-- The runner advertises this concurrency. -/
def advertises (r : String) (c : Nat) : RunnerAction → Bool
  | .heartbeat runnerId concurrency _ => runnerId ≠ r || concurrency = c
  | _ => true

/-- At most `c` units exist or are on their way, and the heartbeat in hand asks for `c`. -/
structure Bounded (r : String) (c : Nat) (s : RunnerPool) : Prop where
  units : (unitIds r s.marking).card + (unitIds r s.away).card ≤ c
  target : ∀ concurrency edge, s.handler = .counting r concurrency edge → concurrency = c

variable {c : Nat} {s s' : RunnerPool} {a : RunnerAction}

theorem card_missingSlots_le {runnerId : String} {concurrency : Nat} {edge : Option Json}
    (hs : s.Bounded r c) (hcounting : s.handler = .counting runnerId concurrency edge)
    {readable : Bool} {capabilities : Option Json} {epoch : Int}
    (hcounts : countsAll r s (.count readable capabilities epoch) = true) :
    (unitIds r s.marking).card + (unitIds r s.away).card + (unitIds r (acquireTokens
      (s.missingSlots runnerId concurrency readable (edge.or capabilities) epoch))).card ≤ c := by
  have hunits := hs.units
  cases hcaps : edge.or capabilities with
  | none => exact hunits
  | some caps =>
    simp only [missingSlots, card_mintSlots, slotsToReconcile_eq]
    by_cases hr : runnerId = r
    · subst hr
      obtain rfl := hs.target concurrency edge hcounting
      cases readable with
      | false => simpa using hunits
      | true =>
        obtain ⟨haway, hhidden⟩ : AllInSight runnerId s := by
          simpa [countsAll, hcounting, hcaps] using hcounts
        have hcard := card_unitIds runnerId s.marking
        rw [hhidden, Multiset.card_zero, zero_add] at hcard
        rw [haway, Multiset.card_zero] at hunits ⊢
        simp only [if_true]
        omega
    · simpa [hr] using hunits

theorem card_unitIds_cons (x : PoolPlace × RhaiMap) (m : PoolMarking) :
    (unitIds r (x ::ₘ m)).card = (idIn unitPlaces r x).card + (unitIds r m).card := by
  rw [unitIds, total_cons, Multiset.card_add]
  rfl

theorem unitIds_add (m m' : PoolMarking) : unitIds r (m + m') = unitIds r m + unitIds r m' :=
  total_add _ m m'

theorem unitIds_expires (r : String) (sigs : List PoolSignal) :
    unitIds r ↑(sigs.map fun sig => (PoolMessage.expire sig).token) = 0 := by
  induction sigs with
  | nil => rfl
  | cons sig sigs ih =>
    rw [unitIds, total_coe] at ih ⊢
    rw [List.map_cons, List.map_cons, List.sum_cons, ih, add_zero]
    simp [idIn, unitPlaces, PoolMessage.token, PoolMessage.place]

theorem bounded_init (r : String) (c cap : Nat) : (init cap).Bounded r c where
  units := Nat.zero_le c
  target := fun _ _ h => by simp [init] at h

theorem bounded_step (hs : s.Bounded r c) (hadv : advertises r c a = true)
    (hcounts : countsAll r s a = true) (h : step acceptance s a = some s') : s'.Bounded r c := by
  have hunits := hs.units
  cases stepped h with
  | heartbeat hmarking haway hhandler =>
    refine ⟨by rwa [hmarking, haway], fun concurrency edge hcounting => ?_⟩
    rcases hhandler with hidle | ⟨edge', hcounting'⟩
    · rw [hidle] at hcounting
      cases hcounting
    · rw [hcounting'] at hcounting
      injection hcounting with hr hc
      simpa [advertises, hr, hc] using hadv
  | count hcounting hfound hmarking haway hhandler =>
    refine ⟨?_, fun concurrency edge hcounting' => by simp [hhandler] at hcounting'⟩
    have hle := card_missingSlots_le hs hcounting hcounts
    rw [← hfound] at hle
    rw [hmarking, haway, unitIds_add, Multiset.card_add, ← add_assoc]
    exact hle
  | acquire hmarking haway hhandler =>
    obtain ⟨runnerId, concurrency', edge', rest, hhandler⟩ := hhandler
    refine ⟨?_, fun concurrency edge hcounting => by simp [hhandler] at hcounting⟩
    rw [hmarking]
    rcases haway with haway | haway
    · rwa [haway]
    · rw [haway, card_unitIds_cons] at hunits
      omega
  | commit hmarking haway hhandler =>
    exact ⟨by rwa [hmarking, haway], fun concurrency edge hcounting => by
      simp [hhandler] at hcounting⟩
  | sweep hentry hmarking haway hhandler =>
    refine ⟨?_, hhandler ▸ hs.target⟩
    rwa [hmarking, haway, unitIds_add, unitIds_expires, add_zero]
  | expire hsig hmarking haway hhandler =>
    refine ⟨?_, hhandler ▸ hs.target⟩
    rw [hmarking]
    rcases haway with haway | ⟨-, haway⟩
    · rwa [haway]
    · rw [haway, card_unitIds_cons] at hunits
      omega
  | deliver hmarking haway hhandler =>
    refine ⟨?_, hhandler ▸ hs.target⟩
    rw [haway, card_unitIds_cons] at hunits
    rcases hmarking with hmarking | ⟨hmarking, -⟩
    · rw [hmarking, card_unitIds_cons]
      omega
    · rw [hmarking]
      omega
  | pool hothers hmarking haway hhandler =>
    refine ⟨?_, hhandler ▸ hs.target⟩
    obtain ⟨reaped, hids, -⟩ := units_poolStep (r := r) hothers hmarking
    rw [← hids, Multiset.card_add] at hunits
    rw [haway]
    omega

/-- **Presence capacity stays within the advertised concurrency.** In every run in which the runner
advertises `c` throughout and each of its heartbeats is counted with all its units in sight, at most
`c` units of the runner exist. -/
theorem units_le_concurrency (acceptance : Acceptance) (cap : Nat) (r : String) (c : Nat)
    {run : List RunnerAction} {s : RunnerPool} (hadv : ∀ a ∈ run, advertises r c a = true)
    (hcounts : Along (step acceptance) (fun s a => countsAll r s a = true) (init cap) run)
    (h : exec (step acceptance) (init cap) run = some s) : (unitIds r s.marking).card ≤ c := by
  have hadv' : Along (step acceptance) (fun _ a => advertises r c a = true) (init cap) run :=
    along_of_forall (P := fun a => advertises r c a = true) hadv
  have hbounded : s.Bounded r c := exec_invariant_along
    (fun _ _ _ hs hc h => bounded_step hs hc.1 hc.2 h) (bounded_init r c cap) (hadv'.and hcounts) h
  have hunits := hbounded.units
  omega

/-- The acquire of a slot of a runner without capabilities. -/
def slotOf (r : String) (slot : Nat) (epoch : Int) : PoolInjection :=
  acquireInjection r slot epoch ("runner-jobs/" ++ r) (.obj [])

/-- A runner checks in with one slot, and its unit is admitted. -/
def checkIn (r : String) : List RunnerAction :=
  [.heartbeat r 1 (.pooled (.obj [])), .count true none 1, .acquire true, .commit,
    .deliver (.acquire (slotOf r 0 1)), .pool (.fire .tPresenceAcquire [(slotOf r 0 1).tokenColor])]

def renew (r : String) : List RunnerAction :=
  [.heartbeat r 1 .unknown, .count true (some (.obj [])) 2]

theorem units_le_concurrency_renewed :
    ∃ s, exec (step .auto) (init 100) (checkIn "a" ++ renew "a" ++ [.commit]) = some s ∧
      (unitIds "a" s.marking).card ≤ 1 :=
  ⟨_, rfl, @units_le_concurrency .auto 100 "a" 1 (checkIn "a" ++ renew "a" ++ [.commit]) _
    (by decide) (by decide) rfl⟩

/-- The claim of a step without requirements. -/
def anyClaim : RhaiMap := [("grant_id", .str "run:step"), ("requirements", .obj [])]

/-- The unit is granted, and the next heartbeat comes before the claimant has registered it. -/
def renewUnregistered : List RunnerAction :=
  checkIn "a" ++
    [.pool (.arrive .claimInbox anyClaim),
      .pool (.fire .tGrant [anyClaim, (slotOf "a" 0 1).tokenColor])] ++
    renew "a" ++
    [.acquire true, .commit, .deliver (.acquire (slotOf "a" 0 2)),
      .pool (.fire .tPresenceAcquire [(slotOf "a" 0 2).tokenColor])]

/-- **A runner of concurrency one ends up with two units** when it renews before the claimant has registered. -/
theorem units_exceed_concurrency : (∀ a ∈ renewUnregistered, advertises "a" 1 a = true) ∧
      ∃ s, exec (step .auto) (init 100) renewUnregistered = some s ∧ (unitIds "a" s.marking).card = 2 :=
  ⟨by decide, _, rfl, by decide⟩

end RunnerPool

end Mekhan
