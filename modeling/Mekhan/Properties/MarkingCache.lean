import Mekhan.Application.AdvanceMarking
import Mekhan.Infra.Runs

/-!
# The marking cache against full replay

A store, the cached pair it feeds and any number of concurrent `advance_marking` calls. A run
interleaves appends and loads, each with whatever evictions the tail cap forces, with the single
steps of the calls. The state carries the complete history as a ghost: the store has dropped the
evicted part of it.
-/

namespace Mekhan

open Infra

/-- The store, the cache and the calls that use both. -/
structure CacheSystem where
  store : MemoryEventStore
  cache : MarkingCache
  /-- Every event ever appended or loaded, evicted ones included. -/
  history : List PersistedEvent
  calls : Nat → Call

namespace CacheSystem

inductive Action where
  | append (now : DateTime) (event : DomainEvent)
  | load (event : PersistedEvent) (streamSeq : Nat)
  | advance (call : Nat)

variable (fmt : EventFormat)

def init (tailCapBytes dedupCap : Nat) : CacheSystem where
  store := MemoryEventStore.withCaps tailCapBytes dedupCap
  cache := none
  history := []
  calls := fun _ => Call.fresh

def step (s : CacheSystem) : Action → Option CacheSystem
  | .append now event =>
    let (persisted, store) := s.store.append fmt now event
    some { s with store := store, history := s.history ++ [persisted] }
  | .load event streamSeq =>
    some { s with
      store := s.store.loadExistingEvent fmt event streamSeq
      history := s.history ++ [event] }
  | .advance call =>
    ((s.calls call).advance s.store.inner s.cache s.history.length).map fun r =>
      { s with cache := r.1, calls := Function.update s.calls call r.2 }

/-- The store stands for the history, and the cache and every call speak of prefixes of it. -/
structure Inv (s : CacheSystem) : Prop where
  store : s.store.inner.Represents s.history
  cache : CacheInv s.history s.cache
  calls : ∀ i, CallInv s.history (s.calls i)

theorem inv_init (tailCapBytes dedupCap : Nat) : (init tailCapBytes dedupCap).Inv where
  store := Inner.Represents.empty dedupCap
  cache := fun _ _ h => absurd h (by simp [init])
  calls := fun _ => trivial

theorem inv_step {fmt : EventFormat} {s s' : CacheSystem} {a : Action} (hs : s.Inv)
    (h : s.step fmt a = some s') : s'.Inv := by
  cases a with
  | append now event =>
    cases h
    exact ⟨MemoryEventStore.append_represents hs.store now event, hs.cache.append _,
      fun i => (hs.calls i).append _⟩
  | load event streamSeq =>
    cases h
    exact ⟨MemoryEventStore.loadExistingEvent_represents hs.store event streamSeq,
      hs.cache.append _, fun i => (hs.calls i).append _⟩
  | advance call =>
    obtain ⟨⟨cache, c⟩, hadv, rfl⟩ := Option.map_eq_some_iff.mp h
    obtain ⟨hcache, hc⟩ := Call.advance_spec hs.store hs.cache (hs.calls call) hadv
    refine ⟨hs.store, hcache, fun i => ?_⟩
    by_cases hi : i = call
    · subst hi
      simpa using hc
    · simpa [hi] using hs.calls i

end CacheSystem

open CacheSystem in
/-- **The incremental marking cache is full replay.** Whatever the tail cap and the interleaving,
the cached pair is the replay of a prefix of the complete history, and every marking a call returned
is the replay of a prefix at least as long as the history was when the call read its cursor. -/
theorem advanceMarking_refines_replay (fmt : EventFormat) (tailCapBytes dedupCap : Nat)
    (run : List Action) (s : CacheSystem) (h : exec (step fmt) (init tailCapBytes dedupCap) run = some s) :
    (∀ idx m, s.cache = some (idx, m) → idx ≤ s.history.length ∧ m = projectMarking (s.history.take idx)) ∧
    ∀ i m delta, (s.calls i).state = .returned m delta → ∃ k, (s.calls i).seen ≤ k ∧ k ≤ s.history.length ∧
        m = projectMarking (s.history.take k) := by
  have hinv : s.Inv := exec_invariant (fun _ _ _ hs h => inv_step hs h) (inv_init ..) h
  refine ⟨hinv.cache, ?_⟩
  intro i m delta hst
  have hc := hinv.calls i
  simp only [CallInv, hst] at hc
  exact ⟨(s.calls i).span.2, hc.1, hc.2.1.1, hc.2.1.2⟩

/-- A reader's slice, taken before two evictions, is folded after them; a second call starts from
the evicted cursor and rebuilds. -/
def evictionRun : List CacheSystem.Action :=
  let created (n : Nat) : DomainEvent :=
    .tokenCreated (.new ⟨n⟩ ⟨0⟩ .unit) ⟨"p"⟩ none none none none
  [.append ⟨0⟩ (created 0), .advance 0, .advance 0, .advance 0, .advance 0,
    .append ⟨1⟩ (created 1), .advance 1, .advance 1, .advance 1,
    .append ⟨2⟩ (created 2), .advance 2, .advance 2, .append ⟨3⟩ (created 3),
    .advance 2, .advance 1, .advance 2, .advance 2]

theorem advanceMarking_refines_replay_evictionRun :
    ∃ s, exec (CacheSystem.step .plain) (CacheSystem.init 1 1) evictionRun = some s ∧
      s.store.inner.baseCount = 3 ∧ (s.calls 1).span = (1, 2) ∧ (s.calls 2).span = (0, 4) ∧
      (∀ idx m, s.cache = some (idx, m) → idx ≤ s.history.length ∧ m = projectMarking (s.history.take idx)) ∧
      ∀ i m delta, (s.calls i).state = .returned m delta → ∃ k, (s.calls i).seen ≤ k ∧ k ≤ s.history.length ∧
          m = projectMarking (s.history.take k) :=
  ⟨_, rfl, rfl, rfl, rfl, advanceMarking_refines_replay .plain 1 1 evictionRun _ rfl⟩

end Mekhan
