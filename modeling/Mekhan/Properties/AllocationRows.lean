import Mekhan.Infra.Runs
import Mekhan.Projections.Allocations
import Mekhan.Service.DatacenterAdapter

/-!
# Allocation rows and leases

What a net journals of a step is what the projection sees of it: a grant that goes out over a reply channel is
not among the tokens of its firing.
-/

namespace Mekhan

namespace Allocations

open Infra

open Rhai (prop)

/-! ## Leases -/

inductive Lease where
  | never
  | held
  | ended (status : AllocationStatus)

inductive LeaseChange where
  | granted (grantId : String)
  | released (grantId : String)
  | reaped (grantId : String)
  | died (grantId : String)
  /-- The watcher reports how the allocation ended. -/
  | reported (grantId : String) (status : AllocationStatus)

namespace Lease

/-- The status that the row of the grant id is to show. -/
def status? : Lease → Option AllocationStatus
  | never => none
  | held => some .held
  | ended status => some status

/-- A hold that is dropped has ended, as was reported or else with the given status. -/
def dropped (status : AllocationStatus) : Lease → Lease
  | held => ended status
  | lease => lease

def release : Lease → Lease
  | ended status => ended status
  | _ => ended .released

def report (status : AllocationStatus) : Lease → Lease
  | never => never
  | _ => ended status

end Lease

def LeaseChange.apply (leases : String → Lease) : LeaseChange → String → Lease
  | .granted g => Function.update leases g .held
  | .released g => Function.update leases g (leases g).release
  | .reaped g => Function.update leases g ((leases g).dropped .expired)
  | .died g => Function.update leases g ((leases g).dropped .failed)
  | .reported g status => Function.update leases g ((leases g).report status)

/-- What a net does to its leases in a step. -/
def applyChange (leases : String → Lease) (change : Option LeaseChange) : String → Lease :=
  match change with
  | some c => c.apply leases
  | none => leases

def grantIdOf (token : RhaiMap) : Option String := (prop token "grant_id").asStr?

/-! ## Journals -/

def journalToken (now : DateTime) (token : RhaiMap) : Token := .new ⟨0⟩ now (.data (.obj token))

/-- A token arrives; a signal carries its key. -/
def arrival (place : String) (token : RhaiMap) (signalKey : Option String) (now : DateTime) : DomainEvent :=
  .tokenCreated (journalToken now token) ⟨place⟩ none none signalKey none

def firing (transition : TransitionId) (produced : List (PlaceId × Token)) : DomainEvent :=
  .transitionFired transition none [] produced [] none none

/-- A signal whose key is a grant id, with the terminal status of the job. -/
def reportOf (token : RhaiMap) (signalKey : Option String) : Option LeaseChange :=
  signalKey.bind fun g => (AllocationRow.reported (.obj token)).map (.reported g)

/-! ## A seeded pool -/

namespace Pool

def transitionId : PoolTransition → TransitionId
  | .tWithdraw => ⟨"t_withdraw"⟩
  | .tGrant => ⟨"t_grant"⟩
  | .tRegister => ⟨"t_register"⟩
  | .tRelease => ⟨"t_release"⟩
  | .tReap => ⟨"t_reap"⟩
  | .tPresenceAcquire => ⟨"t_presence_acquire"⟩
  | .tPostOffer => ⟨"t_post_offer"⟩
  | .tClaim => ⟨"t_claim"⟩
  | .tReapFree => ⟨"t_reap_free"⟩
  | .tReapHeld => ⟨"t_reap_held"⟩

def placeName : PoolPlace → String
  | .pool => "pool"
  | .inUse => "in_use"
  | .done => "done"
  | .claimInbox => "claim_inbox"
  | .registerInbox => "register_inbox"
  | .releaseInbox => "release_inbox"
  | .withdrawInbox => "withdraw_inbox"
  | .grantOutbox => "grant_outbox"
  | .leaseExpired => "lease_expired"
  | .presenceAcquire => "presence_acquire"
  | .failOutbox => "fail_outbox"
  | .presenceExpired => "presence_expired"
  | .offers => "offers"
  | .presenceClaim => "presence_claim"

def bridged : List PoolPlace := [.grantOutbox, .failOutbox]

def kept (now : DateTime) (out : List (PoolPlace × RhaiMap)) : List (PlaceId × Token) :=
  (out.filter (·.1 ∉ bridged)).map fun x => (⟨placeName x.1⟩, journalToken now x.2)

def journal (source : CapacitySource) (now : DateTime) (signalKey : Option String) : PoolNet.Action → DomainEvent
  | .arrive place token => arrival (placeName place) token signalKey now
  | .register _ reg => arrival (placeName .registerInbox) reg signalKey now
  | .fire t tokens => firing (transitionId t) (kept now (PoolNet.produces source t tokens))

def change (signalKey : Option String) : PoolNet.Action → Option LeaseChange
  | .arrive _ token | .register _ token => reportOf token signalKey
  | .fire .tGrant [claim, _] => (grantIdOf claim).map .granted
  | .fire .tRelease [_, held] => (grantIdOf held).map .released
  | .fire .tReap [_, held] => (grantIdOf held).map .reaped
  | .fire .. => none

end Pool

/-! ## A datacenter adapter -/

namespace Adapter

open Mekhan.Adapter (adapterNet transitionId transitions)

def placeName : AdapterPlace → String
  | .inUse => "in_use"
  | .done => "done"
  | .claimInbox => "claim_inbox"
  | .registerInbox => "register_inbox"
  | .releaseInbox => "release_inbox"
  | .grantOutbox => "grant_outbox"
  | .failOutbox => "fail_outbox"
  | .leaseExpired => "lease_expired"
  | .leaseFailed => "lease_failed"
  | .releasePrep => "release_prep"
  | .requestError => "request_error"

def bridged : List AdapterPlace := [.grantOutbox, .failOutbox]

def kept (now : DateTime) (out : List (AdapterPlace × RhaiMap)) : List (PlaceId × Token) :=
  (out.filter (·.1 ∉ bridged)).map fun x => (⟨placeName x.1⟩, journalToken now x.2)

/-- The transition that the engine fires, and what it binds. -/
def fired (m : AdapterMarking) : Option (AdapterTransition × List (List RhaiMap)) :=
  (selectCandidate transitionId (adapterNet (.ok [])) m transitions).bind fun s =>
    (boundAt (adapterNet (.ok [])) m s.1).map fun bound => (s.1, coloursOf bound)

/-- The handlers need a grant id, and an allocation id: of the request for a release, in the allocator's
answer for an acquisition. -/
def handled (t : AdapterTransition) (bound : List (List RhaiMap)) (answer : EffectAnswer) : EffectAnswer :=
  match t, bound, answer with
  | .tRequest, [[request]], .ok lease =>
    if (grantIdOf request).isSome && (prop lease "alloc_id").asStr?.isSome then .ok lease
    else .error "missing grant_id in lease request" false
  | .tRelease, [[release]], .ok result =>
    if (grantIdOf release).isSome && (prop release "alloc_id").asStr?.isSome then .ok result
    else .error "missing grant_id in release request" false
  | _, _, answer => answer

/-- What a call of a lease effect journals. -/
def effectEvent (t : AdapterTransition) (handler : String) (produced : List (PlaceId × Token)) (result : RhaiMap) :
    DomainEvent :=
  .effectCompleted (transitionId t) none [] produced handler (.obj result) [] none none

def effectFailure (t : AdapterTransition) (handler message : String) (retryable : Bool)
    (produced : List (PlaceId × Token)) : DomainEvent :=
  .effectFailed (transitionId t) none [] produced handler message true none retryable

/-- What a round journals, with the answer that its effect got, and what it does to the leases. -/
def roundOf (now : DateTime) (answer : EffectAnswer) (t : AdapterTransition) (bound : List (List RhaiMap)) :
    DomainEvent × Option LeaseChange :=
  let produced := kept now ((adapterNet answer t).outputs bound)
  match t, bound, answer with
  | .tRequest, [[request]], .ok lease =>
    (effectEvent .tRequest "resource_lease_acquire" produced
      [("alloc_id", prop lease "alloc_id"), ("lease", .obj (("grant_id", prop request "grant_id") :: lease))],
      (grantIdOf request).map .granted)
  | .tRequest, _, .error message retryable =>
    (effectFailure .tRequest "resource_lease_acquire" message retryable produced, none)
  | .tRelease, [[release]], .ok _ =>
    (effectEvent .tRelease "resource_lease_release" produced
      [("alloc_id", prop release "alloc_id"), ("released", .bool true)], (grantIdOf release).map .released)
  | .tRelease, _, .error message retryable =>
    (effectFailure .tRelease "resource_lease_release" message retryable produced, none)
  | .tReap, [[_], [held]], _ => (firing (transitionId .tReap) produced, (grantIdOf held).map .reaped)
  | .tLeaseDied, [[_], [held]], _ => (firing (transitionId .tLeaseDied) produced, (grantIdOf held).map .died)
  | t, _, _ => (firing (transitionId t) produced, none)

end Adapter

/-! ## Runs -/

structure LeaseState (M : Type) where
  marking : M
  log : List PersistedEvent
  leases : String → Lease

namespace LeaseState

variable {M : Type}

def start (marking : M) : LeaseState M := ⟨marking, [], fun _ => .never⟩

/-- A step of the net, with its event and what it does to the leases. -/
def next (s : LeaseState M) (marking : M) (now : DateTime) (event : DomainEvent) (change : Option LeaseChange) :
    LeaseState M where
  marking := marking
  log := s.log ++ [⟨s.log.length, now, event, "", none⟩]
  leases := applyChange s.leases change

end LeaseState

/-- What happens at a net, with the key of a signal. -/
structure Stimulus (A : Type) where
  action : A
  signalKey : Option String
  now : DateTime

namespace Pool

def start (capacity : Nat) : LeaseState PoolMarking := .start (PoolNet.seeds (.seeded capacity))

def step (capacity : Nat) (s : LeaseState PoolMarking) (x : Stimulus PoolNet.Action) : Option (LeaseState PoolMarking) :=
  (PoolNet.step (.seeded capacity) s.marking x.action).map fun m =>
    s.next m x.now (journal (.seeded capacity) x.now x.signalKey x.action) (change x.signalKey x.action)

end Pool

namespace Adapter

inductive Action where
  | arrive (place : AdapterPlace) (token : RhaiMap)
  /-- The engine evaluates once; an effect that it calls gets the answer. -/
  | evaluate (answer : EffectAnswer)

def start : LeaseState AdapterMarking := .start fun _ => []

def step (s : LeaseState AdapterMarking) (x : Stimulus Action) : Option (LeaseState AdapterMarking) :=
  match x.action with
  | .arrive place token =>
    (Mekhan.Adapter.step s.marking (.arrive place token x.now)).map fun m =>
      s.next m x.now (arrival (placeName place) token x.signalKey x.now) (reportOf token x.signalKey)
  | .evaluate answer =>
    (fired s.marking).bind fun f =>
      let answer := handled f.1 f.2 answer
      (Mekhan.Adapter.step s.marking (.evaluate answer x.now)).map fun m =>
        s.next m x.now (roundOf x.now answer f.1 f.2).1 (roundOf x.now answer f.1 f.2).2

end Adapter

/-! ## What the rows are to show -/

section

variable (parseTs : String → Option DateTime) (netId : String)

def foldOf {M : Type} (s : LeaseState M) : State := s.log.foldl (State.absorb parseTs netId) .new

/-- Each grant id has the row of its latest lease: held, or as it ended. -/
def RowsFollow {M : Type} (s : LeaseState M) : Prop :=
  ∀ g, ((projectAllocations parseTs s.log netId).get? g).map (·.status) = (s.leases g).status?

end

def Pool.grantsNothing (capacity : Nat) (s : LeaseState PoolMarking) (x : Stimulus PoolNet.Action) : Prop :=
  (step capacity s x).isSome → ∀ g, change x.signalKey x.action ≠ some (.granted g)

/-- No grant id is granted again after a lease of it ended, and no hold is dropped that has not ended. -/
def LeaseChange.Shown (leases : String → Lease) : Option LeaseChange → Prop
  | some (.granted g) => leases g = .never ∨ leases g = .held
  | some (.reaped g) | some (.died g) => leases g ≠ .held
  | _ => True

/-- What a round of an adapter does to its leases can be shown. -/
def Adapter.grantsOnce (s : LeaseState AdapterMarking) (x : Stimulus Action) : Prop :=
  match x.action with
  | .arrive .. => True
  | .evaluate answer =>
    ∀ t bound, fired s.marking = some (t, bound) →
      (step s x).isSome → LeaseChange.Shown s.leases (roundOf x.now (handled t bound answer) t bound).2

/-! ## One event -/

/-- The rows of a fold are those of the leases. -/
def Follows (s : State) (leases : String → Lease) : Prop := ∀ g, (s.rows.get? g).map (·.status) = (leases g).status?

/-- A lease ends as released, failed or expired. -/
def Proper (leases : String → Lease) : Prop :=
  ∀ g status, leases g = .ended status → status = .released ∨ status = .failed ∨ status = .expired

namespace Follows

variable {s : State} {leases : String → Lease} {g : String}

theorem none_iff (h : Follows s leases) : s.rows.get? g = none ↔ leases g = .never := by
  have hg := h g
  constructor
  · intro hnone
    rw [hnone] at hg
    cases hlease : leases g with
    | never => rfl
    | held => simp [hlease, Lease.status?] at hg
    | ended status => simp [hlease, Lease.status?] at hg
  · intro hnever
    rw [hnever] at hg
    exact Option.map_eq_none_iff.mp hg

/-- A fold step that changes one row follows a change of its lease exactly where the status is right. -/
theorem modify_iff (h : Follows s leases) {fresh : AllocationRow} {f : AllocationRow → AllocationRow} {lease : Lease}
    (hfresh : fresh.grantId = g) (hf : ∀ row, (f row).grantId = row.grantId) :
    Follows (s.modify g fresh f) (Function.update leases g lease) ↔
      some (f ((s.rows.get? g).getD fresh)).status = lease.status? := by
  constructor
  · intro hfollows
    have hg := hfollows g
    rwa [get?_modify hfresh hf, if_pos rfl, Function.update_self] at hg
  · intro hstatus k
    rw [get?_modify hfresh hf]
    by_cases hk : k = g
    · subst hk
      rw [if_pos rfl, Function.update_self]
      exact hstatus
    · rw [if_neg hk, Function.update_of_ne hk]
      exact h k

theorem update_iff (h : Follows s leases) {lease : Lease} :
    Follows s (Function.update leases g lease) ↔ (leases g).status? = lease.status? := by
  constructor
  · intro hfollows
    have hg := hfollows g
    rw [Function.update_self] at hg
    exact (h g).symm.trans hg
  · intro hstatus k
    by_cases hk : k = g
    · subst hk
      rw [Function.update_self]
      exact (h k).trans hstatus
    · rw [Function.update_of_ne hk]
      exact h k

theorem signal (h : Follows s leases) (g : String) (token : RhaiMap) (sequence : Nat) (ts : DateTime) :
    Follows (s.foldAccountingSignal g (.data (.obj token)) sequence ts)
      (applyChange leases (reportOf token (some g))) := by
  have hreport : reportOf token (some g) = (AllocationRow.reported (.obj token)).map (.reported g) := rfl
  rw [hreport]
  unfold State.foldAccountingSignal
  cases hrow : s.rows.get? g with
  | none =>
    cases AllocationRow.reported (.obj token) with
    | none => exact h
    | some status =>
      refine h.update_iff.mpr ?_
      rw [h.none_iff.mp hrow]
      rfl
  | some row =>
    have hkey := KeyedList.key_of_get? hrow
    have hmodify : ∀ lease : Lease, (row.account (.obj token) sequence ts).status = lease.status? →
        Follows (s.modify g row (.account (.obj token) sequence ts)) (Function.update leases g lease) := by
      intro lease hlease
      refine (h.modify_iff hkey fun row => AllocationRow.grantId_account ..).mpr ?_
      rw [hrow]
      exact hlease
    have hg := h g
    rw [hrow] at hg
    cases hreported : AllocationRow.reported (.obj token) with
    | none =>
      have := hmodify (leases g) (by rw [AllocationRow.status_account, hreported]; exact hg)
      rwa [Function.update_eq_self] at this
    | some status =>
      refine hmodify _ ?_
      rw [AllocationRow.status_account, hreported]
      cases hlease : leases g with
      | never => exact absurd (h.none_iff.mpr hlease) (by simp [hrow])
      | held => rfl
      | ended _ => rfl

theorem release (h : Follows s leases) (hproper : Proper leases) {fresh : AllocationRow}
    {f : AllocationRow → AllocationRow} (hfresh : fresh.grantId = g) (hpending : fresh.status = .pending)
    (hf : ∀ row, (f row).grantId = row.grantId)
    (hstatus : ∀ row, (f row).status = if row.status = .pending ∨ row.status = .held then .released else row.status) :
    Follows (s.modify g fresh f) (LeaseChange.apply leases (.released g)) := by
  refine (h.modify_iff hfresh hf).mpr ?_
  rw [hstatus]
  have hg := h g
  cases hlease : leases g with
  | never =>
    rw [h.none_iff.mpr hlease, Option.getD_none, hpending]
    rfl
  | held =>
    rw [hlease] at hg
    obtain ⟨row, hrow, hheld⟩ := Option.map_eq_some_iff.mp hg
    rw [hrow, Option.getD_some, hheld]
    rfl
  | ended status =>
    rw [hlease] at hg
    obtain ⟨row, hrow, hended⟩ := Option.map_eq_some_iff.mp hg
    rw [hrow, Option.getD_some, hended]
    rcases hproper g status hlease with rfl | rfl | rfl <;> rfl

theorem dropped_iff (h : Follows s leases) {status : AllocationStatus} (hstatus : status ≠ .held) :
    Follows s (Function.update leases g ((leases g).dropped status)) ↔ leases g ≠ .held := by
  rw [h.update_iff]
  cases hlease : leases g with
  | never => simp [Lease.dropped]
  | held => simp [Lease.dropped, Lease.status?, Ne.symm hstatus]
  | ended _ => simp [Lease.dropped]

end Follows

/-! ## The events of the nets -/

section

variable {parseTs : String → Option DateTime} {netId : String} {s : State} {leases : String → Lease} {sequence : Nat}
  {now : DateTime}

theorem absorb_arrival (h : Follows s leases) (place : String) (token : RhaiMap) (signalKey : Option String) :
    Follows (s.absorb parseTs netId ⟨sequence, now, arrival place token signalKey now, "", none⟩)
      (applyChange leases (reportOf token signalKey)) := by
  cases signalKey with
  | none => exact h
  | some g => exact h.signal g token sequence now

variable {produced : List (PlaceId × Token)} {status : AllocationStatus}

theorem absorb_firing_of_ne {t : TransitionId} (hgrant : t.name ≠ "t_grant")
    (hrelease : t.name ≠ "t_release") :
    s.absorb parseTs netId ⟨sequence, now, firing t produced, "", none⟩ = s :=
  if_pos ⟨hgrant, hrelease⟩

theorem absorb_firing_of_none {t : TransitionId} (hnone : producedGrantId produced = none) :
    s.absorb parseTs netId ⟨sequence, now, firing t produced, "", none⟩ = s := by
  show s.foldPoolFire t.name produced netId sequence now = s
  unfold State.foldPoolFire
  rw [hnone]
  split <;> rfl

theorem strAt_obj (key : String) (map : RhaiMap) : strAt key (.obj map) = (prop map key).asStr? := by
  unfold strAt prop
  show (map.lookup key).bind Json.asStr? = _
  cases map.lookup key <;> rfl

theorem absorb_acquire (h : Follows s leases) (hproper : Proper leases) {request lease : RhaiMap}
    {produced : List (PlaceId × Token)} :
    Follows
        (s.absorb parseTs netId ⟨sequence, now, Adapter.effectEvent .tRequest "resource_lease_acquire" produced
          [("alloc_id", prop lease "alloc_id"), ("lease", .obj (("grant_id", prop request "grant_id") :: lease))],
          "", none⟩) (applyChange leases ((grantIdOf request).map .granted)) ↔
      LeaseChange.Shown leases ((grantIdOf request).map .granted) := by
  have hlease : (Json.obj [("alloc_id", prop lease "alloc_id"),
      ("lease", .obj (("grant_id", prop request "grant_id") :: lease))]).get? "lease" =
      some (.obj (("grant_id", prop request "grant_id") :: lease)) := rfl
  have hgrant : strAt "grant_id" (.obj (("grant_id", prop request "grant_id") :: lease)) = grantIdOf request := rfl
  show Follows (s.foldLeaseAcquire parseTs _ netId sequence now) _ ↔ _
  unfold State.foldLeaseAcquire
  rw [hlease, Option.getD_some]
  dsimp only
  rw [hgrant]
  cases grantIdOf request with
  | none => exact iff_of_true h trivial
  | some g =>
    have hstep := @Follows.modify_iff _ _ g h (.new .datacenterLease netId g) _ .held rfl
      (AllocationRow.grantId_acquire parseTs (.obj [("alloc_id", prop lease "alloc_id"),
        ("lease", .obj (("grant_id", prop request "grant_id") :: lease))])
        (.obj (("grant_id", prop request "grant_id") :: lease)) sequence now)
    refine hstep.trans ?_
    rw [AllocationRow.status_acquire, AllocationRow.hold]
    have hg := h g
    show _ ↔ leases g = .never ∨ leases g = .held
    cases hlease : leases g with
    | never =>
      rw [h.none_iff.mpr hlease]
      simp [AllocationRow.new, Lease.status?]
    | held =>
      rw [hlease] at hg
      obtain ⟨row, hrow, hheld⟩ := Option.map_eq_some_iff.mp hg
      simp [hrow, hheld, Lease.status?]
    | ended status =>
      rw [hlease] at hg
      obtain ⟨row, hrow, hended⟩ := Option.map_eq_some_iff.mp hg
      rcases hproper g status hlease with rfl | rfl | rfl <;> simp [hrow, hended, Lease.status?]

theorem absorb_leaseRelease (h : Follows s leases) (hproper : Proper leases) {release : RhaiMap} {g : String}
    (hg : grantIdOf release = some g) (result : RhaiMap) : Follows
      (s.absorb parseTs netId ⟨sequence, now, Adapter.effectEvent .tRelease "resource_lease_release"
        (Adapter.kept now [(.done, PoolNet.copy ["grant_id"] release)]) result, "", none⟩)
      (applyChange leases ((grantIdOf release).map .released)) := by
  have hproduced : producedGrantId (Adapter.kept now [(.done, PoolNet.copy ["grant_id"] release)]) = some g := by
    unfold grantIdOf at hg
    simp [producedGrantId, Adapter.kept, Adapter.bridged, PoolNet.copy, journalToken, Token.new, strAt_obj,
      PoolNet.prop_cons, hg]
  show Follows (s.foldLeaseRelease _ _ sequence now) _
  unfold State.foldLeaseRelease
  rw [hproduced, hg]
  exact h.release hproper rfl rfl (fun _ => rfl) fun _ => rfl

theorem grantId_of_handled {bound : List (List RhaiMap)} {release result : RhaiMap} {answer : EffectAnswer}
    (hbound : bound = [[release]]) (h : Adapter.handled .tRelease bound answer = .ok result) :
    ∃ g, grantIdOf release = some g := by
  subst hbound
  unfold Adapter.handled at h
  cases answer with
  | error message => simp at h
  | ok result' =>
    dsimp only at h
    split at h
    · next hids =>
      rw [Bool.and_eq_true] at hids
      exact Option.isSome_iff_exists.mp hids.1
    · cases h

theorem outputs_tRelease_of_ne (answer : EffectAnswer) {bound : List (List RhaiMap)}
    (h : ∀ release, bound ≠ [[release]]) : (Mekhan.Adapter.tRelease answer).outputs bound = [] := by
  unfold Mekhan.Adapter.tRelease
  dsimp only
  split
  · exact absurd rfl (h _)
  · rfl

/-- **A round of an adapter is followed exactly where it can be shown.** -/
theorem absorb_round (h : Follows s leases) (hproper : Proper leases) (t : AdapterTransition)
    (bound : List (List RhaiMap)) (answer : EffectAnswer) : Follows (s.absorb parseTs netId
          ⟨sequence, now, (Adapter.roundOf now (Adapter.handled t bound answer) t bound).1, "", none⟩)
        (applyChange leases (Adapter.roundOf now (Adapter.handled t bound answer) t bound).2) ↔
      LeaseChange.Shown leases (Adapter.roundOf now (Adapter.handled t bound answer) t bound).2 := by
  have hrelease : ∀ release result, t = .tRelease → bound = [[release]] →
      Adapter.handled t bound answer = .ok result → ∃ g, grantIdOf release = some g := by
    rintro release result rfl hbound hok
    exact grantId_of_handled hbound hok
  generalize Adapter.handled t bound answer = answer at *
  -- a firing that is not read leaves the rows as they are
  have hsilent : ∀ {id : TransitionId} {produced : List (PlaceId × Token)}, id.name ≠ "t_grant" →
      id.name ≠ "t_release" →
      s.absorb parseTs netId ⟨sequence, now, firing id produced, "", none⟩ = s :=
    fun hgrant hread => absorb_firing_of_ne hgrant hread
  unfold Adapter.roundOf
  dsimp only
  split
  · exact absorb_acquire h hproper
  · exact iff_of_true h trivial
  · next release result =>
    obtain ⟨g, hg⟩ := hrelease release result rfl rfl rfl
    refine iff_of_true (absorb_leaseRelease h hproper hg _) ?_
    rw [hg]
    exact trivial
  · exact iff_of_true h trivial
  · next held =>
    rw [hsilent (by decide) (by decide)]
    cases grantIdOf held with
    | none => exact iff_of_true h trivial
    | some g => exact h.dropped_iff (by decide)
  · next held =>
    rw [hsilent (by decide) (by decide)]
    cases grantIdOf held with
    | none => exact iff_of_true h trivial
    | some g => exact h.dropped_iff (by decide)
  · next hfailed _ hok =>
    refine iff_of_true ?_ trivial
    by_cases ht : t = .tRelease
    · subst ht
      cases answer with
      | error message retryable => exact absurd rfl (hfailed message retryable rfl)
      | ok result =>
        -- without a request the effect puts out nothing
        have hnone : (Mekhan.Adapter.adapterNet (.ok result) .tRelease).outputs bound = [] :=
          outputs_tRelease_of_ne (.ok result) fun release hbound => hok release result rfl hbound rfl
        rw [hnone, absorb_firing_of_none rfl]
        exact h
    · have hname : (Mekhan.Adapter.transitionId t).name ≠ "t_grant" ∧
          (Mekhan.Adapter.transitionId t).name ≠ "t_release" := by
        cases t <;> first | exact absurd rfl ht | decide
      rw [hsilent hname.1 hname.2]
      exact h

/-! A seeded pool journals no lease of a datacenter, and no grant. -/

/-- The rows of a pool are those of its releases. -/
def PoolRows (s : State) : Prop :=
  ∀ g row, s.rows.get? g = some row → row.kind = .concurrencyLimitGrant ∧ row.status ≠ .held

theorem reported_ne_held {payload : Json} (h : AllocationRow.reported payload = some status) :
    status = .released ∨ status = .failed ∨ status = .expired := by
  obtain ⟨jobStatus, -, hout⟩ := Option.bind_eq_some_iff.mp h
  exact jobOutcome_ended hout

theorem PoolRows.arrival (h : PoolRows s) (place : String) (token : RhaiMap) (signalKey : Option String) :
    PoolRows (s.absorb parseTs netId ⟨sequence, now, Allocations.arrival place token signalKey now, "", none⟩) := by
  cases signalKey with
  | none => exact h
  | some g =>
    show PoolRows (s.foldAccountingSignal g (.data (.obj token)) sequence now)
    unfold State.foldAccountingSignal
    cases hrow : s.rows.get? g with
    | none => exact h
    | some row =>
      intro k row' hk
      dsimp only at hk
      rw [get?_modify (KeyedList.key_of_get? hrow) (fun row => AllocationRow.grantId_account ..), hrow] at hk
      split at hk
      · cases hk
        obtain ⟨hkind, hheld⟩ := h g row hrow
        refine ⟨(AllocationRow.kind_account ..).trans hkind, ?_⟩
        rw [Option.getD_some, AllocationRow.status_account]
        cases hreported : AllocationRow.reported (.obj token) with
        | none => exact hheld
        | some status => rcases reported_ne_held hreported with rfl | rfl | rfl <;> simp
      · exact h k row' hk

theorem grantId_kept_released (held : RhaiMap) (outcome : String) (capacity : Nat) :
    producedGrantId (Pool.kept now [(.pool, PoolNet.copy (PoolNet.unitKeys (.seeded capacity)) held),
      (.done, PoolNet.copy ["grant_id", "unit_id"] held ++ [("outcome", .str outcome)])]) = grantIdOf held := by
  have hunit : strAt "grant_id" (.obj (PoolNet.copy (PoolNet.unitKeys (.seeded capacity)) held)) = none := by
    rw [strAt_obj, PoolNet.copy, PoolNet.unitKeys, List.map_cons, PoolNet.prop_cons, if_neg (by decide)]
    rfl
  have hdone : strAt "grant_id" (.obj (PoolNet.copy ["grant_id", "unit_id"] held ++ [("outcome", .str outcome)])) =
      grantIdOf held := by
    rw [strAt_obj, PoolNet.copy, List.map_cons, List.cons_append, PoolNet.prop_cons, if_pos rfl]
    rfl
  unfold producedGrantId Pool.kept
  rw [List.filter_cons_of_pos rfl, List.filter_cons_of_pos rfl, List.filter_nil, List.map_cons,
    List.map_cons, List.map_nil, List.findSome?_cons, List.findSome?_cons, List.findSome?_nil]
  dsimp only [journalToken, Token.new]
  rw [hunit, hdone]
  cases grantIdOf held <;> rfl

theorem Proper.applyChange (h : Proper leases) {change : Option LeaseChange}
    (hreported : ∀ g status, change = some (.reported g status) →
      status = .released ∨ status = .failed ∨ status = .expired) : Proper (applyChange leases change) := by
  have hupdate : ∀ (g : String) (lease : Lease),
      (∀ status, lease = .ended status → status = .released ∨ status = .failed ∨ status = .expired) →
      Proper (Function.update leases g lease) := by
    intro g lease hlease k status hk
    by_cases heq : k = g
    · subst heq
      rw [Function.update_self] at hk
      exact hlease status hk
    · rw [Function.update_of_ne heq] at hk
      exact h k status hk
  unfold Allocations.applyChange
  cases change with
  | none => exact h
  | some c =>
    cases c with
    | granted g => exact hupdate g _ fun status hs => nomatch hs
    | released g =>
      refine hupdate g _ fun status hs => ?_
      cases hlease : leases g with
      | ended ended =>
        simp only [hlease, Lease.release, Lease.ended.injEq] at hs
        exact hs ▸ h g ended hlease
      | never | held =>
        simp only [hlease, Lease.release, Lease.ended.injEq] at hs
        exact Or.inl hs.symm
    | reaped g =>
      refine hupdate g _ fun status hs => ?_
      cases hlease : leases g with
      | never => simp [hlease, Lease.dropped] at hs
      | held =>
        simp only [hlease, Lease.dropped, Lease.ended.injEq] at hs
        exact Or.inr (Or.inr hs.symm)
      | ended ended =>
        simp only [hlease, Lease.dropped, Lease.ended.injEq] at hs
        exact hs ▸ h g ended hlease
    | died g =>
      refine hupdate g _ fun status hs => ?_
      cases hlease : leases g with
      | never => simp [hlease, Lease.dropped] at hs
      | held =>
        simp only [hlease, Lease.dropped, Lease.ended.injEq] at hs
        exact Or.inr (Or.inl hs.symm)
      | ended ended =>
        simp only [hlease, Lease.dropped, Lease.ended.injEq] at hs
        exact hs ▸ h g ended hlease
    | reported g reported =>
      refine hupdate g _ fun status hs => ?_
      have hended := hreported g reported rfl
      cases hlease : leases g with
      | never => simp [hlease, Lease.report] at hs
      | held | ended _ =>
        simp only [hlease, Lease.report, Lease.ended.injEq] at hs
        exact hs ▸ hended

variable {signalKey : Option String} {t : PoolTransition} {tokens : List RhaiMap}

theorem reportOf_ended {token : RhaiMap} {g : String}
    (h : reportOf token signalKey = some (.reported g status)) :
    status = .released ∨ status = .failed ∨ status = .expired := by
  obtain ⟨k, -, hk⟩ := Option.bind_eq_some_iff.mp h
  obtain ⟨status', hreported, heq⟩ := Option.map_eq_some_iff.mp hk
  obtain ⟨-, rfl⟩ := LeaseChange.reported.inj heq
  exact reported_ne_held hreported

theorem reportOf_ne_granted (token : RhaiMap) (signalKey : Option String) (g : String) :
    reportOf token signalKey ≠ some (.granted g) := by
  intro h
  obtain ⟨k, -, hk⟩ := Option.bind_eq_some_iff.mp h
  obtain ⟨status, -, heq⟩ := Option.map_eq_some_iff.mp hk
  cases heq

theorem length_of_fire {capacity : Nat} {m m' : PoolMarking} {transition : NetTransition PoolPlace RhaiMap}
    (ht : PoolNet.buildPoolNet (.seeded capacity) t = some transition)
    (h : PoolNet.step (.seeded capacity) m (.fire t tokens) = some m') :
    tokens.length = transition.inputs.length := by
  obtain ⟨transition', hnet, hfire⟩ := Option.bind_eq_some_iff.mp h
  obtain rfl := Option.some.inj (ht.symm.trans hnet)
  exact (NetTransition.fire?_eq_some.mp hfire).1

theorem Pool.silent_of_ne {source : CapacitySource} (hgrant : t ≠ .tGrant) (hrelease : t ≠ .tRelease) :
    s.absorb parseTs netId ⟨sequence, now, Pool.journal source now signalKey (.fire t tokens), "", none⟩ = s := by
  refine absorb_firing_of_ne ?_ ?_ <;> cases t <;> simp_all [Pool.transitionId]

theorem Pool.change_of_ne (hgrant : t ≠ .tGrant) (hrelease : t ≠ .tRelease) (hreap : t ≠ .tReap) :
    Pool.change signalKey (.fire t tokens) = none := by
  unfold Pool.change
  split <;> simp_all

theorem Pool.absorb_release {capacity : Nat} (req held : RhaiMap) : s.absorb parseTs netId
        ⟨sequence, now, Pool.journal (.seeded capacity) now signalKey (.fire .tRelease [req, held]), "", none⟩ =
      match grantIdOf held with
      | none => s
      | some g =>
        if (s.rows.get? g).any (·.kind = .datacenterLease) then s
        else
          s.modify g (.new .concurrencyLimitGrant netId g) fun row => { row.release now with lastSequence := sequence } := by
  show s.foldPoolFire "t_release" (Pool.kept now [(.pool, PoolNet.copy (PoolNet.unitKeys (.seeded capacity)) held),
    (.done, PoolNet.copy ["grant_id", "unit_id"] held ++ [("outcome", .str "released")])]) netId sequence now = _
  unfold State.foldPoolFire
  rw [grantId_kept_released, if_neg (by decide)]
  rfl

theorem PoolRows.not_lease (h : PoolRows s) (g : String) : (s.rows.get? g).any (·.kind = .datacenterLease) = false := by
  cases hrow : s.rows.get? g with
  | none => rfl
  | some row => simp [(h g row hrow).1]

theorem Follows.not_held (h : Follows s leases) (hrows : PoolRows s) (g : String) : leases g ≠ .held := by
  intro hheld
  have hg := h g
  rw [hheld] at hg
  obtain ⟨row, hrow, hstatus⟩ := Option.map_eq_some_iff.mp hg
  exact (hrows g row hrow).2 hstatus

variable {capacity : Nat} {m m' : PoolMarking}

/-- **A step of a seeded pool is followed exactly where it is no grant.** -/
theorem absorb_pool (h : Follows s leases) (hproper : Proper leases) (hrows : PoolRows s) (signalKey : Option String)
    {a : PoolNet.Action} (hstep : PoolNet.step (.seeded capacity) m a = some m') :
    Follows (s.absorb parseTs netId ⟨sequence, now, Pool.journal (.seeded capacity) now signalKey a, "", none⟩)
        (applyChange leases (Pool.change signalKey a)) ↔
      ∀ g, Pool.change signalKey a ≠ some (.granted g) := by
  cases a with
  | arrive place token =>
    exact iff_of_true (absorb_arrival h (Pool.placeName place) token signalKey) (reportOf_ne_granted token signalKey)
  | register grant reg =>
    exact iff_of_true (absorb_arrival h (Pool.placeName .registerInbox) reg signalKey)
      (reportOf_ne_granted reg signalKey)
  | fire t tokens =>
    by_cases hgrant : t = .tGrant
    · subst hgrant
      obtain ⟨claim, unit, rfl⟩ := List.length_eq_two.mp (length_of_fire rfl hstep)
      rw [show Pool.journal (.seeded capacity) now signalKey (.fire .tGrant [claim, unit]) =
        firing ⟨"t_grant"⟩ [] from rfl, absorb_firing_of_none rfl]
      show Follows s (applyChange leases ((grantIdOf claim).map .granted)) ↔
        ∀ g, (grantIdOf claim).map LeaseChange.granted ≠ some (.granted g)
      cases grantIdOf claim with
      | none => exact iff_of_true h fun g hg => nomatch hg
      | some g =>
        refine iff_of_false (fun hfollows => ?_) fun hne => hne g rfl
        exact hfollows.not_held hrows g (Function.update_self ..)
    · by_cases hrelease : t = .tRelease
      · subst hrelease
        obtain ⟨req, held, rfl⟩ := List.length_eq_two.mp (length_of_fire rfl hstep)
        rw [Pool.absorb_release]
        show Follows _ (applyChange leases ((grantIdOf held).map .released)) ↔
          ∀ g, (grantIdOf held).map LeaseChange.released ≠ some (.granted g)
        cases grantIdOf held with
        | none => exact iff_of_true h fun g hg => nomatch hg
        | some g =>
          refine iff_of_true ?_ fun k hk => nomatch hk
          dsimp only
          rw [hrows.not_lease, if_neg Bool.false_ne_true]
          exact h.release hproper rfl rfl (fun _ => rfl) fun _ => rfl
      · rw [Pool.silent_of_ne hgrant hrelease]
        by_cases hreap : t = .tReap
        · subst hreap
          obtain ⟨exp, held, rfl⟩ := List.length_eq_two.mp (length_of_fire rfl hstep)
          show Follows s (applyChange leases ((grantIdOf held).map .reaped)) ↔
            ∀ g, (grantIdOf held).map LeaseChange.reaped ≠ some (.granted g)
          cases grantIdOf held with
          | none => exact iff_of_true h fun g hg => nomatch hg
          | some g =>
            exact iff_of_true ((h.dropped_iff (by decide)).mpr (h.not_held hrows g)) fun k hk => nomatch hk
        · rw [Pool.change_of_ne hgrant hrelease hreap]
          exact iff_of_true h fun g hg => nomatch hg

theorem PoolRows.step (hrows : PoolRows s) (signalKey : Option String) {a : PoolNet.Action}
    (hstep : PoolNet.step (.seeded capacity) m a = some m') :
    PoolRows (s.absorb parseTs netId ⟨sequence, now, Pool.journal (.seeded capacity) now signalKey a, "", none⟩) := by
  cases a with
  | arrive place token => exact hrows.arrival (Pool.placeName place) token signalKey
  | register grant reg => exact hrows.arrival (Pool.placeName .registerInbox) reg signalKey
  | fire t tokens =>
    by_cases hgrant : t = .tGrant
    · subst hgrant
      obtain ⟨claim, unit, rfl⟩ := List.length_eq_two.mp (length_of_fire rfl hstep)
      rwa [show Pool.journal (.seeded capacity) now signalKey (.fire .tGrant [claim, unit]) =
        firing ⟨"t_grant"⟩ [] from rfl, absorb_firing_of_none rfl]
    · by_cases hrelease : t = .tRelease
      · subst hrelease
        obtain ⟨req, held, rfl⟩ := List.length_eq_two.mp (length_of_fire rfl hstep)
        rw [Pool.absorb_release]
        cases grantIdOf held with
        | none => exact hrows
        | some g =>
          dsimp only
          rw [hrows.not_lease, if_neg Bool.false_ne_true]
          intro k row hk
          have hget := get?_modify (s := s) (f := fun row => { row.release now with lastSequence := sequence })
            (show (AllocationRow.new .concurrencyLimitGrant netId g).grantId = g from rfl) (fun _ => rfl) k
          rw [hget] at hk
          split at hk
          · rw [← Option.some.inj hk]
            cases hrow : s.rows.get? g with
            | none => exact ⟨rfl, by simp [AllocationRow.new, AllocationRow.release]⟩
            | some old =>
              refine ⟨(hrows g old hrow).1, ?_⟩
              have hheld := (hrows g old hrow).2
              rw [Option.getD_some]
              unfold AllocationRow.release
              dsimp only
              split
              · simp
              · exact hheld
          · exact hrows k row hk
      · rwa [Pool.silent_of_ne hgrant hrelease]

end

/-! ## Every run -/

section

variable (parseTs : String → Option DateTime) (netId : String)

theorem foldOf_next {M : Type} (s : LeaseState M) (marking : M) (now : DateTime) (event : DomainEvent)
    (change : Option LeaseChange) : foldOf parseTs netId (s.next marking now event change) =
      (foldOf parseTs netId s).absorb parseTs netId ⟨s.log.length, now, event, "", none⟩ := by
  unfold foldOf LeaseState.next
  rw [List.foldl_append]
  rfl

theorem rowsFollow_next {M : Type} (s : LeaseState M) (marking : M) (now : DateTime) (event : DomainEvent)
    (change : Option LeaseChange) : RowsFollow parseTs netId (s.next marking now event change) ↔
      Follows ((foldOf parseTs netId s).absorb parseTs netId ⟨s.log.length, now, event, "", none⟩)
        (applyChange s.leases change) := by
  rw [← foldOf_next]
  rfl

theorem rowsFollow_start {M : Type} (marking : M) : RowsFollow parseTs netId (LeaseState.start marking) :=
  fun _ => rfl

theorem proper_start : Proper fun _ => .never := fun _ _ h => nomatch h

theorem pool_throughout_iff (capacity : Nat) (as : List (Stimulus PoolNet.Action)) :
    Throughout (Pool.step capacity) (RowsFollow parseTs netId) (Pool.start capacity) as ↔
      Along (Pool.step capacity) (Pool.grantsNothing capacity) (Pool.start capacity) as := by
  refine throughout_iff_along_of_invariant
    (I := fun s => PoolRows (foldOf parseTs netId s) ∧ Proper s.leases) ?_ ?_ ⟨?_, proper_start⟩
    (rowsFollow_start parseTs netId _)
  · rintro s x s' ⟨hrows, hproper⟩ hstep
    obtain ⟨m, hm, rfl⟩ := Option.map_eq_some_iff.mp hstep
    refine ⟨?_, hproper.applyChange fun g status hreported => ?_⟩
    · rw [foldOf_next]
      exact hrows.step x.signalKey hm
    · cases haction : x.action with
      | arrive place token =>
        rw [haction] at hreported
        exact reportOf_ended hreported
      | register grant reg =>
        rw [haction] at hreported
        exact reportOf_ended hreported
      | fire t tokens =>
        rw [haction] at hreported
        unfold Pool.change at hreported
        split at hreported <;> simp_all
  · rintro s x ⟨hrows, hproper⟩ hfollows
    have hiff : ∀ m, PoolNet.step (.seeded capacity) s.marking x.action = some m →
        (RowsFollow parseTs netId (s.next m x.now (Pool.journal (.seeded capacity) x.now x.signalKey x.action)
            (Pool.change x.signalKey x.action)) ↔
          ∀ g, Pool.change x.signalKey x.action ≠ some (.granted g)) := by
      intro m hm
      exact (rowsFollow_next parseTs netId s m x.now _ _).trans
        (absorb_pool hfollows hproper hrows x.signalKey hm)
    unfold Pool.grantsNothing
    constructor
    · intro hkeeps henabled
      obtain ⟨s', hs'⟩ := Option.isSome_iff_exists.mp henabled
      obtain ⟨m, hm, rfl⟩ := Option.map_eq_some_iff.mp hs'
      exact (hiff m hm).mp (hkeeps _ hs')
    · intro hcond s' hs'
      have hnot := hcond (by rw [hs']; rfl)
      obtain ⟨m, hm, rfl⟩ := Option.map_eq_some_iff.mp hs'
      exact (hiff m hm).mpr hnot
  · intro g row hrow
    cases hrow

theorem roundOf_ne_reported (now : DateTime) (answer : EffectAnswer) (t : AdapterTransition)
    (bound : List (List RhaiMap)) (g : String) (status : AllocationStatus) :
    (Adapter.roundOf now answer t bound).2 ≠ some (.reported g status) := by
  unfold Adapter.roundOf
  dsimp only
  split
  · next request _ => cases grantIdOf request <;> simp
  · simp
  · next release _ => cases grantIdOf release <;> simp
  · simp
  · next held => cases grantIdOf held <;> simp
  · next held => cases grantIdOf held <;> simp
  · simp

theorem adapter_throughout_iff (as : List (Stimulus Adapter.Action)) :
    Throughout Adapter.step (RowsFollow parseTs netId) Adapter.start as ↔
      Along Adapter.step Adapter.grantsOnce Adapter.start as := by
  refine throughout_iff_along_of_invariant (I := fun s => Proper s.leases) ?_ ?_ proper_start
    (rowsFollow_start parseTs netId _)
  · intro s x s' hproper hstep
    unfold Adapter.step at hstep
    split at hstep
    · obtain ⟨m, -, rfl⟩ := Option.map_eq_some_iff.mp hstep
      exact hproper.applyChange fun g status hreported => reportOf_ended hreported
    · next answer _ =>
      obtain ⟨f, -, hround⟩ := Option.bind_eq_some_iff.mp hstep
      obtain ⟨m, -, rfl⟩ := Option.map_eq_some_iff.mp hround
      exact hproper.applyChange fun g status hreported =>
        absurd hreported (roundOf_ne_reported x.now (Adapter.handled f.1 f.2 answer) f.1 f.2 g status)
  · intro s x hproper hfollows
    unfold Adapter.grantsOnce Adapter.step
    split
    · -- an arrival is always followed
      next place token haction =>
      refine iff_of_true (fun s' hs' => ?_) trivial
      obtain ⟨m, -, rfl⟩ := Option.map_eq_some_iff.mp hs'
      exact (rowsFollow_next parseTs netId s m x.now _ _).mpr
        (absorb_arrival hfollows (Adapter.placeName place) token x.signalKey)
    · next answer haction =>
      constructor
      · intro hkeeps t bound hfired henabled
        obtain ⟨s', hs'⟩ := Option.isSome_iff_exists.mp henabled
        have hnext := hs'
        dsimp only at hnext
        rw [hfired, Option.bind_some] at hnext
        obtain ⟨m, -, rfl⟩ := Option.map_eq_some_iff.mp hnext
        exact (absorb_round hfollows hproper t bound answer).mp
          ((rowsFollow_next parseTs netId s m x.now _ _).mp (hkeeps _ hs'))
      · intro hcond s' hs'
        obtain ⟨⟨t, bound⟩, hfired, hround⟩ := Option.bind_eq_some_iff.mp hs'
        have hshown := hcond t bound hfired (Option.isSome_iff_exists.mpr ⟨s', hs'⟩)
        obtain ⟨m, -, rfl⟩ := Option.map_eq_some_iff.mp hround
        exact (rowsFollow_next parseTs netId s m x.now _ _).mpr
          ((absorb_round hfollows hproper t bound answer).mpr hshown)

/-- **In every run of a seeded pool, and in every run of a datacenter adapter, the rows show the latest lease of
every grant id exactly where the pool grants nothing, and where the adapter grants no id again and drops no hold
whose end was not reported.** -/
theorem allocation_rows_iff :
    (∀ capacity as, Throughout (Pool.step capacity) (RowsFollow parseTs netId) (Pool.start capacity) as ↔
      Along (Pool.step capacity) (Pool.grantsNothing capacity) (Pool.start capacity) as) ∧
    ∀ as, Throughout Adapter.step (RowsFollow parseTs netId) Adapter.start as ↔
      Along Adapter.step Adapter.grantsOnce Adapter.start as :=
  ⟨pool_throughout_iff parseTs netId, adapter_throughout_iff parseTs netId⟩

end

/-! ## A grant of a pool, and an id that is granted again -/

def at0 {A : Type} (action : A) : Stimulus A := ⟨action, none, ⟨0⟩⟩

def claim : RhaiMap := [("grant_id", .str "i:n")]

def poolRun : List (Stimulus PoolNet.Action) :=
  [at0 (.arrive .claimInbox claim), at0 (.fire .tGrant [claim, [("unit_id", .str "unit-0")]])]

def leased : List (Stimulus Adapter.Action) :=
  [at0 (.arrive .claimInbox claim), at0 (.evaluate (.ok [("alloc_id", .str "a")])),
    at0 (.arrive .registerInbox (claim ++ [("alloc_id", .str "a")])), at0 (.evaluate (.ok [])),
    at0 (.arrive .releaseInbox claim), at0 (.evaluate (.ok [])), at0 (.evaluate (.ok []))]

/-- The row of the grant id is not the one of its lease. -/
def misses {M : Type} (g : String) (s : LeaseState M) : Bool :=
  ((projectAllocations (fun _ => none) s.log "pool-r").get? g).map (·.status) ≠ (s.leases g).status?

theorem not_rowsFollow_of_misses {M : Type} {g : String} (s : LeaseState M) (h : misses g s = true) :
    ¬ RowsFollow (fun _ => none) "pool-r" s :=
  fun hfollows => of_decide_eq_true h (hfollows g)

/-- The grant of the pool has no row, and the second lease keeps the row released. -/
theorem grant_not_shown :
    ¬ Throughout (Pool.step 1) (RowsFollow (fun _ => none) "pool-r") (Pool.start 1) poolRun ∧
      ¬ Throughout Adapter.step (RowsFollow (fun _ => none) "pool-r") Adapter.start (leased ++ leased.take 2) :=
  ⟨not_throughout_of_any not_rowsFollow_of_misses
      (show (exec (Pool.step 1) (Pool.start 1) poolRun).any (misses "i:n") = true by decide),
    not_throughout_of_any not_rowsFollow_of_misses
      (show (exec Adapter.step Adapter.start (leased ++ leased.take 2)).any (misses "i:n") = true by decide)⟩

end Allocations

end Mekhan
