import Mekhan.Executor.Watcher
import Mekhan.Infra.JsonValue

/-!
# Routing metadata in the tags of a job

`RoutingMeta::to_meta_tags` stamps the routing into the metadata of a job, and `from_meta_tags` reads it back
from there. The key of the signals has the form of the key of a status route.
-/

namespace Mekhan

namespace RoutingMeta

open Infra

/-! ## Reading tags -/

theorem stripKey_eq_some {start key name : String} : stripKey start key = some name ↔ key = start ++ name := by
  unfold stripKey
  constructor
  · intro h
    split at h
    · next hprefix =>
      obtain ⟨rest, hrest⟩ := List.isPrefixOf_iff_prefix.mp hprefix
      have hname := Option.some.inj h
      rw [← hrest, List.drop_left] at hname
      rw [← hname, ← String.toList_inj, String.toList_append, String.toList_ofList, hrest]
    · cases h
  · rintro rfl
    rw [String.toList_append, if_pos (List.isPrefixOf_iff_prefix.mpr (List.prefix_append _ _)), List.drop_left,
      String.ofList_toList]

theorem lookup_routes (start name : String) (tags : MetaTags) : (routes start tags).lookup name =
      if start ++ name = "petri_signal_key" then none else tags.lookup (start ++ name) := by
  induction tags with
  | nil => simp [routes]
  | cons tag tags ih =>
    rw [lookup_cons_ite]
    by_cases hkey : tag.1 = "petri_signal_key"
    · have hskip : routes start (tag :: tags) = routes start tags := by simp [routes, hkey]
      rw [hskip, ih]
      split
      · rfl
      · next hne => rw [if_neg fun h => hne (h.trans hkey)]
    · cases hstrip : stripKey start tag.1 with
      | none =>
        have hskip : routes start (tag :: tags) = routes start tags := by simp [routes, hkey, hstrip]
        have hne : start ++ name ≠ tag.1 := fun h => by
          rw [stripKey_eq_some.mpr h.symm] at hstrip
          cases hstrip
        rw [hskip, ih, if_neg hne]
      | some found =>
        have hcons : routes start (tag :: tags) = (found, tag.2) :: routes start tags := by
          simp [routes, hkey, hstrip]
        have htag := stripKey_eq_some.mp hstrip
        have hiff : start ++ name = tag.1 ↔ name = found := by
          rw [htag, String.append_right_inj]
        rw [hcons, lookup_cons_ite, ih, if_congr hiff rfl rfl]
        by_cases hname : name = found
        · rw [if_pos hname, if_pos hname, if_neg fun h => hkey (htag.trans (hname ▸ h))]
        · rw [if_neg hname, if_neg hname]

/-! ## Stamping tags -/

section

variable {key : String → String} (routes tags : MetaTags)

theorem lookup_insertRoutes (hkey : Function.Injective key) (name : String) :
    (insertRoutes key routes tags).lookup (key name) = (routes.lookup name).or (tags.lookup (key name)) := by
  induction routes with
  | nil => rfl
  | cons route routes ih =>
    have hstep : insertRoutes key (route :: routes) tags =
        put (insertRoutes key routes tags) (key route.1, route.2) := rfl
    rw [hstep, lookup_put, lookup_cons_ite, ih, if_congr hkey.eq_iff rfl rfl]
    split <;> rfl

theorem lookup_insertRoutes_of_ne {k : String} (h : ∀ name, k ≠ key name) :
    (insertRoutes key routes tags).lookup k = tags.lookup k := by
  induction routes with
  | nil => rfl
  | cons route routes ih =>
    have hstep : insertRoutes key (route :: routes) tags =
        put (insertRoutes key routes tags) (key route.1, route.2) := rfl
    rw [hstep, lookup_put, if_neg (h route.1), ih]

end

theorem signalMetaKey_injective : Function.Injective signalMetaKey :=
  fun _ _ h => (String.append_right_inj _).mp h

theorem eventMetaKey_injective : Function.Injective eventMetaKey :=
  fun _ _ h => (String.append_right_inj _).mp h

theorem signalMetaKey_ne_eventMetaKey (status category : String) :
    signalMetaKey status ≠ eventMetaKey category := by
  intro h
  have := congrArg String.toList h
  simp [signalMetaKey, eventMetaKey] at this

theorem ne_signalMetaKey {k : String} (h : k = "petri_net_id" ∨ k = "petri_place") (status : String) :
    k ≠ signalMetaKey status := by
  intro heq
  have := congrArg String.toList heq
  rcases h with rfl | rfl <;> simp [signalMetaKey] at this

theorem ne_eventMetaKey {k : String} (h : k = "petri_net_id" ∨ k = "petri_place" ∨ k = "petri_signal_key")
    (category : String) : k ≠ eventMetaKey category := by
  intro heq
  have := congrArg String.toList heq
  rcases h with rfl | rfl | rfl <;> simp [eventMetaKey] at this

theorem lookup_routes_signal (tags : MetaTags) (status : String) :
    (routes "petri_signal_" tags).lookup status = if status = "key" then none else tags.lookup (signalMetaKey status) := by
  have hiff : "petri_signal_" ++ status = "petri_signal_key" ↔ status = "key" :=
    @Function.Injective.eq_iff _ _ _ signalMetaKey_injective status "key"
  rw [lookup_routes, if_congr hiff rfl rfl]
  rfl

theorem lookup_routes_event (tags : MetaTags) (category : String) :
    (routes "petri_event_" tags).lookup category = tags.lookup (eventMetaKey category) := by
  have hne : "petri_event_" ++ category ≠ "petri_signal_key" := (ne_eventMetaKey (.inr (.inr rfl)) category).symm
  rw [lookup_routes, if_neg hne]
  rfl

/-! ## The round trip -/

variable (m : RoutingMeta)

theorem lookup_toMetaTags_netId : m.toMetaTags.lookup "petri_net_id" = some m.netId := by
  rw [toMetaTags, lookup_insertRoutes_of_ne _ _ (ne_eventMetaKey (.inl rfl)),
    lookup_insertRoutes_of_ne _ _ (ne_signalMetaKey (.inl rfl))]
  split <;> simp [lookup_put]

theorem lookup_toMetaTags_place : m.toMetaTags.lookup "petri_place" = some m.fallbackPlace := by
  rw [toMetaTags, lookup_insertRoutes_of_ne _ _ (ne_eventMetaKey (.inr (.inl rfl))),
    lookup_insertRoutes_of_ne _ _ (ne_signalMetaKey (.inr rfl))]
  split <;> simp [lookup_put]

theorem lookup_toMetaTags_signalKey : m.toMetaTags.lookup "petri_signal_key" =
      (m.signalRoutes.lookup "key").or (if m.signalKey = "" then none else some m.signalKey) := by
  rw [toMetaTags, lookup_insertRoutes_of_ne _ _ (ne_eventMetaKey (.inr (.inr rfl)))]
  rw [show "petri_signal_key" = signalMetaKey "key" from rfl, lookup_insertRoutes _ _ signalMetaKey_injective]
  split <;> simp [lookup_put, signalMetaKey]

theorem lookup_toMetaTags_signal {status : String} (h : status ≠ "key") :
    m.toMetaTags.lookup (signalMetaKey status) = m.signalRoutes.lookup status := by
  have hkey : signalMetaKey status ≠ "petri_signal_key" := fun heq => h (signalMetaKey_injective heq)
  rw [toMetaTags, lookup_insertRoutes_of_ne _ _ (signalMetaKey_ne_eventMetaKey status),
    lookup_insertRoutes _ _ signalMetaKey_injective]
  have hnet := (ne_signalMetaKey (.inl rfl) status).symm
  have hplace := (ne_signalMetaKey (.inr rfl) status).symm
  split <;> simp [lookup_put, hkey, hnet, hplace]

theorem lookup_toMetaTags_event (category : String) :
    m.toMetaTags.lookup (eventMetaKey category) = m.eventRoutes.lookup category := by
  rw [toMetaTags, lookup_insertRoutes _ _ eventMetaKey_injective,
    lookup_insertRoutes_of_ne _ _ fun status => (signalMetaKey_ne_eventMetaKey status category).symm]
  have hnet := (ne_eventMetaKey (.inl rfl) category).symm
  have hplace := (ne_eventMetaKey (.inr (.inl rfl)) category).symm
  have hkey := (ne_eventMetaKey (.inr (.inr rfl)) category).symm
  split <;> simp [lookup_put, hkey, hnet, hplace]

theorem exists_restored : ∃ m', fromMetaTags m.toMetaTags = some m' ∧ m'.netId = m.netId ∧
    m'.fallbackPlace = m.fallbackPlace ∧
    m'.signalRoutes = routes "petri_signal_" m.toMetaTags ∧ m'.eventRoutes = routes "petri_event_" m.toMetaTags ∧
    m'.signalKey = (m.toMetaTags.lookup "petri_signal_key").getD "" := by
  rw [fromMetaTags, lookup_toMetaTags_netId, lookup_toMetaTags_place]
  exact ⟨_, rfl, rfl, rfl, rfl, rfl, rfl⟩

structure RoutesAlike (m m' : RoutingMeta) : Prop where
  netId : m'.netId = m.netId
  signalKey : m'.signalKey = m.signalKey
  placeForStatus : ∀ status, m'.placeForStatus status = m.placeForStatus status
  placeForEvent : ∀ category, m'.placeForEvent category = m.placeForEvent category

/-- The tags of a routing read as a routing that does the same. -/
def Restored : Prop := ∃ m', fromMetaTags m.toMetaTags = some m' ∧ m.RoutesAlike m'

theorem placeForStatus_restored {m m' : RoutingMeta} (h : fromMetaTags m.toMetaTags = some m') (status : String) :
    m'.placeForStatus status = if status = "key" then m.fallbackPlace else m.placeForStatus status := by
  obtain ⟨found, hfound, -, hfallback, hroutes, -⟩ := m.exists_restored
  obtain rfl := Option.some.inj (h.symm.trans hfound)
  rw [RoutingMeta.placeForStatus, hroutes, hfallback, lookup_routes_signal]
  by_cases hkey : status = "key"
  · rw [if_pos hkey, if_pos hkey]
    rfl
  · rw [if_neg hkey, if_neg hkey, m.lookup_toMetaTags_signal hkey]
    rfl

theorem placeForEvent_restored {m m' : RoutingMeta} (h : fromMetaTags m.toMetaTags = some m') (category : String) :
    m'.placeForEvent category = m.placeForEvent category := by
  obtain ⟨found, hfound, -, -, -, hroutes, -⟩ := m.exists_restored
  obtain rfl := Option.some.inj (h.symm.trans hfound)
  rw [RoutingMeta.placeForEvent, hroutes, lookup_routes_event]
  exact m.lookup_toMetaTags_event category

theorem signalKey_restored {m m' : RoutingMeta} (h : fromMetaTags m.toMetaTags = some m') :
    m'.signalKey = (m.signalRoutes.lookup "key").getD m.signalKey := by
  obtain ⟨found, hfound, -, -, -, -, hkey⟩ := m.exists_restored
  obtain rfl := Option.some.inj (h.symm.trans hfound)
  rw [hkey, lookup_toMetaTags_signalKey]
  cases m.signalRoutes.lookup "key" with
  | some place => rfl
  | none =>
    by_cases hempty : m.signalKey = ""
    · simp [hempty]
    · simp [hempty]

/-- **The routing is restored exactly when the route of a status `key`, if there is one, changes nothing.** -/
theorem restored_iff : m.Restored ↔
    ∀ place, m.signalRoutes.lookup "key" = some place → place = m.fallbackPlace ∧ place = m.signalKey := by
  obtain ⟨m', hm', hnet, -⟩ := m.exists_restored
  constructor
  · rintro ⟨found, hfound, halike⟩ place hplace
    have hstatus := (placeForStatus_restored hfound "key").symm.trans (halike.placeForStatus "key")
    have hkey := (signalKey_restored hfound).symm.trans halike.signalKey
    rw [if_pos rfl, RoutingMeta.placeForStatus, hplace] at hstatus
    rw [hplace] at hkey
    exact ⟨hstatus.symm, hkey⟩
  · intro h
    refine ⟨m', hm', hnet, ?_, fun status => ?_, placeForEvent_restored hm'⟩
    · rw [signalKey_restored hm']
      cases hroute : m.signalRoutes.lookup "key" with
      | none => rfl
      | some place => exact (h place hroute).2
    · rw [placeForStatus_restored hm']
      split
      · next hkey =>
        rw [hkey, RoutingMeta.placeForStatus]
        cases hroute : m.signalRoutes.lookup "key" with
        | none => rfl
        | some place => exact (h place hroute).1.symm
      · rfl

/-- A job that has a signal key, and a route for the status `key`. -/
def shadowedRouting : RoutingMeta := ⟨"net", "inbox", [("key", "keys")], [], "job:0"⟩

/-- **The route of a status `key` takes the place of the signal's key.** -/
theorem signalKey_shadowed : ¬ shadowedRouting.Restored := by
  rw [Restored]
  rintro ⟨m', hm', halike⟩
  have hkey : m'.signalKey = "keys" := signalKey_restored hm'
  exact absurd (hkey.symm.trans halike.signalKey) (by decide)

end RoutingMeta

end Mekhan
