import Mekhan.Application.RhaiRuntime
import Mekhan.Infra.ColouredNet

/-!
# The admission-pool net

`service/src/petri/pool_net.rs`: the net `build_pool_net` builds for a pool resource, by its source
of capacity. The tokens are the object maps the scripts read and build, and the places' display
names are left out. Of a token's reply routing the fail address of a hold is kept. The other reply
goes to a claim, and every compiled claim carries the channel of its grant.

A grant is emitted by putting it into `grant_outbox`. It stays there, as a grant that is out with
the claimant, until the claimant registers its hold: the compiled `t_acquire` sends the grant back
over the register bridge.
-/

namespace Mekhan

open Infra

/-- Whether a claim is granted at once or offered first. -/
inductive Acceptance where
  | auto
  | consent
  deriving DecidableEq

/-- Where the units of a pool come from. -/
inductive CapacitySource where
  | seeded (capacity : Nat)
  | presence (acceptance : Acceptance)
  deriving DecidableEq

/-- The places of a pool's net. -/
inductive PoolPlace where
  | pool
  | inUse
  | done
  | claimInbox
  | registerInbox
  | releaseInbox
  | withdrawInbox
  | grantOutbox
  | leaseExpired
  | presenceAcquire
  | failOutbox
  | presenceExpired
  | offers
  | presenceClaim
  deriving DecidableEq

/-- Its transitions. -/
inductive PoolTransition where
  | tWithdraw
  | tGrant
  | tRegister
  | tRelease
  | tReap
  | tPresenceAcquire
  | tPostOffer
  | tClaim
  | tReapFree
  | tReapHeld
  deriving DecidableEq

def PoolTransition.all : List PoolTransition :=
  [.tWithdraw, .tGrant, .tRegister, .tRelease, .tReap, .tPresenceAcquire, .tPostOffer, .tClaim,
    .tReapFree, .tReapHeld]

instance : Fintype PoolTransition where
  elems := ⟨PoolTransition.all, by decide⟩
  complete t := by cases t <;> decide

abbrev PoolMarking := ColouredMarking PoolPlace RhaiMap

namespace PoolNet

open Rhai (prop satisfies)

/-! ## Scripts -/

/-- `#{ key: map.key, .. }` for each of the keys. -/
def copy (keys : List String) (map : RhaiMap) : RhaiMap := keys.map fun key => (key, prop map key)

/-- What is copied of a unit. -/
def unitKeys : CapacitySource → List String
  | .seeded _ => ["unit_id"]
  | .presence _ => ["unit_id", "runner_id", "executor_namespace", "caps"]

/-- What a grant, and the hold it is registered as, carries. -/
def leaseKeys (source : CapacitySource) : List String := "grant_id" :: unitKeys source

/-- The fail address in a token's reply routing. It travels beside the data, and is kept here under
a key that no script reads. -/
def failChannel : String := "$reply:fail"

/-- What a hold keeps of its registration: the data the script copies, and the reply routing. -/
def holdKeys (source : CapacitySource) : List String := leaseKeys source ++ [failChannel]

/-- What the claimant is told. -/
def grant (source : CapacitySource) (claim unit : RhaiMap) : RhaiMap :=
  ("grant_id", prop claim "grant_id") :: copy (unitKeys source) unit

/-- `correlate(left, right, key)` on the two inputs. -/
def correlate (key : String) : List RhaiMap → Bool
  | [left, right] => Rhai.eq (prop left key) (prop right key)
  | _ => false

/-! ## Transitions -/

/-- A claim that was taken back is dropped with its withdrawal. -/
def tWithdraw : NetTransition PoolPlace RhaiMap where
  inputs := [.withdrawInbox, .claimInbox]
  guard := correlate "grant_id"
  outputs
    | [_, claim] => [(.done, copy ["grant_id"] claim ++ [("outcome", .str "withdrawn")])]
    | _ => []

/-- Unguarded for a seeded pool, guarded by the matcher for a presence pool. -/
def tGrant (source : CapacitySource) : NetTransition PoolPlace RhaiMap where
  inputs := [.claimInbox, .pool]
  guard
    | [claim, unit] =>
      match source with
      | .seeded _ => true
      | .presence _ => satisfies (prop claim "requirements") (prop unit "caps")
    | _ => false
  outputs
    | [claim, unit] => [(.grantOutbox, grant source claim unit)]
    | _ => []

/-- The claimant registers what it holds. -/
def tRegister (source : CapacitySource) : NetTransition PoolPlace RhaiMap where
  inputs := [.registerInbox]
  guard := fun _ => true
  outputs
    | [reg] => [(.inUse, copy (holdKeys source) reg)]
    | _ => []

/-- The end of a hold that gives the unit back: a release, and the reap of a seeded pool. -/
def recycle (source : CapacitySource) (ended : PoolPlace) (outcome : String) :
    NetTransition PoolPlace RhaiMap where
  inputs := [ended, .inUse]
  guard := correlate "grant_id"
  outputs
    | [_, held] =>
      [(.pool, copy (unitKeys source) held),
        (.done, copy ["grant_id", "unit_id"] held ++ [("outcome", .str outcome)])]
    | _ => []

/-- The holder gives the unit back. -/
def tRelease (source : CapacitySource) : NetTransition PoolPlace RhaiMap :=
  recycle source .releaseInbox "released"

/-- A lease that expired gives the unit back. -/
def tReap (source : CapacitySource) : NetTransition PoolPlace RhaiMap :=
  recycle source .leaseExpired "reaped"

/-- A runner's slot becomes a unit. -/
def tPresenceAcquire (source : CapacitySource) : NetTransition PoolPlace RhaiMap where
  inputs := [.presenceAcquire]
  guard := fun _ => true
  outputs
    | [presence] => [(.pool, copy (unitKeys source) presence)]
    | _ => []

/-- The claim becomes an offer. -/
def tPostOffer : NetTransition PoolPlace RhaiMap where
  inputs := [.claimInbox]
  guard := fun _ => true
  outputs
    | [claim] => [(.offers, copy ["grant_id", "requirements", "request"] claim)]
    | _ => []

/-- A runner takes an offer with a unit of its own. -/
def tClaim (source : CapacitySource) : NetTransition PoolPlace RhaiMap where
  inputs := [.offers, .presenceClaim, .pool]
  guard
    | [offer, claim, unit] =>
      Rhai.eq (prop claim "grant_id") (prop offer "grant_id") &&
        Rhai.eq (prop claim "runner_id") (prop unit "runner_id") &&
        satisfies (prop offer "requirements") (prop unit "caps")
    | _ => false
  outputs
    | [offer, _, unit] => [(.grantOutbox, grant source offer unit)]
    | _ => []

/-- The free units of a runner that is gone are removed. -/
def tReapFree : NetTransition PoolPlace RhaiMap where
  inputs := [.presenceExpired, .pool]
  guard := correlate "runner_id"
  outputs
    | [exp, unit] =>
      [(.done, copy ["runner_id"] exp ++ copy ["unit_id"] unit ++
        [("outcome", .str "reaped_free")])]
    | _ => []

/-- The notice goes out over the hold's fail channel. Where it has none, `route_output_tokens` fails
with `BridgeReplyMissing`, which puts nothing out and ends the evaluation, so the firing is none. -/
def tReapHeld : NetTransition PoolPlace RhaiMap where
  inputs := [.presenceExpired, .inUse]
  guard
    | [exp, held] => correlate "runner_id" [exp, held] && prop held failChannel != .null
    | _ => false
  outputs
    | [_, held] =>
      [(.failOutbox, copy ["runner_id", "unit_id"] held),
        (.done, copy ["grant_id", "unit_id", "runner_id"] held ++
          [("outcome", .str "reaped_held")])]
    | _ => []

/-! ## The net -/

/-- `build_pool_net`: the transitions the source of capacity asks for. -/
def buildPoolNet (source : CapacitySource) :
    PoolTransition → Option (NetTransition PoolPlace RhaiMap)
  | .tWithdraw => some tWithdraw
  | .tGrant => if source = .presence .consent then none else some (tGrant source)
  | .tRegister => some (tRegister source)
  | .tRelease => some (tRelease source)
  | .tReap =>
    match source with
    | .seeded _ => some (tReap source)
    | .presence _ => none
  | .tPresenceAcquire =>
    match source with
    | .seeded _ => none
    | .presence _ => some (tPresenceAcquire source)
  | .tPostOffer => if source = .presence .consent then some tPostOffer else none
  | .tClaim => if source = .presence .consent then some (tClaim source) else none
  | .tReapFree =>
    match source with
    | .seeded _ => none
    | .presence _ => some tReapFree
  | .tReapHeld =>
    match source with
    | .seeded _ => none
    | .presence _ => some tReapHeld

def unitLabel (i : Nat) : Json := .str ("unit-" ++ toString i)

/-- The seeds; a presence pool starts empty. -/
def seeds : CapacitySource → PoolMarking
  | .seeded capacity =>
    ↑((List.range capacity).map fun i => (PoolPlace.pool, [("unit_id", unitLabel i)]))
  | .presence _ => 0

/-- The places other parties send to at will: the bridges of the claimants and of the presence
controller, and the signals. The register bridge is apart, for what comes in there is a grant. -/
def inboxes : CapacitySource → List PoolPlace
  | .seeded _ => [.claimInbox, .releaseInbox, .withdrawInbox, .leaseExpired]
  | .presence .auto =>
    [.claimInbox, .releaseInbox, .withdrawInbox, .presenceAcquire, .presenceExpired]
  | .presence .consent =>
    [.claimInbox, .releaseInbox, .withdrawInbox, .presenceAcquire, .presenceExpired, .presenceClaim]

theorem offers_notMem_inboxes (source : CapacitySource) : .offers ∉ inboxes source := by
  cases source with
  | seeded capacity => simp [inboxes]
  | presence acceptance => cases acceptance <;> simp [inboxes]

/-- What can happen to a pool. -/
inductive Action where
  /-- A transition fires on the given tokens. -/
  | fire (t : PoolTransition) (tokens : List RhaiMap)
  | arrive (place : PoolPlace) (token : RhaiMap)
  /-- The claimant that was sent the grant registers it. -/
  | register (grant reg : RhaiMap)

/-- What the register bridge carries for a grant: `t_register` finds the grant's own fields. -/
def Registers (source : CapacitySource) (grant reg : RhaiMap) : Prop :=
  ∀ key ∈ leaseKeys source, prop reg key = prop grant key

instance (source : CapacitySource) (grant reg : RhaiMap) :
    Decidable (Registers source grant reg) :=
  inferInstanceAs (Decidable (∀ key ∈ leaseKeys source, prop reg key = prop grant key))

/-- A firing, or a token from outside. -/
def step (source : CapacitySource) (m : PoolMarking) : Action → Option PoolMarking
  | .fire t tokens => (buildPoolNet source t).bind fun transition => transition.fire? m tokens
  | .arrive place token => if place ∈ inboxes source then some ((place, token) ::ₘ m) else none
  | .register grant reg =>
    -- Registering takes the grant out of the outbox, so no grant is registered twice.
    if (.grantOutbox, grant) ∈ m ∧ Registers source grant reg then
      some ((.registerInbox, reg) ::ₘ m.erase (.grantOutbox, grant))
    else none

/-! ## Reading what scripts build -/

theorem prop_cons (key k : String) (v : Json) (map : RhaiMap) :
    prop ((k, v) :: map) key = if key = k then v else prop map key := by
  by_cases h : key = k
  · subst h
    simp [prop]
  · have hbeq : (key == k) = false := beq_eq_false_iff_ne.mpr h
    simp [prop, List.lookup_cons, hbeq, h]

theorem prop_copy {keys : List String} {key : String} (h : key ∈ keys) (map : RhaiMap) :
    prop (copy keys map) key = prop map key := by
  induction keys with
  | nil => exact absurd h (List.not_mem_nil)
  | cons k keys ih =>
    rw [copy, List.map_cons, prop_cons]
    split
    · next hk => rw [hk]
    · next hk => exact ih ((List.mem_cons.mp h).resolve_left hk)

@[simp] theorem grantId_grant (source : CapacitySource) (claim unit : RhaiMap) :
    prop (grant source claim unit) "grant_id" = prop claim "grant_id" := by
  rw [grant, prop_cons, if_pos rfl]

theorem unitId_mem_unitKeys (source : CapacitySource) : "unit_id" ∈ unitKeys source := by
  cases source <;> simp [unitKeys]

variable {source : CapacitySource}

theorem prop_grant {key : String} (h : key ∈ unitKeys source)
    (hkey : key ≠ "grant_id") (claim unit : RhaiMap) :
    prop (grant source claim unit) key = prop unit key := by
  rw [grant, prop_cons, if_neg hkey, prop_copy h]

@[simp] theorem unitId_grant (source : CapacitySource) (claim unit : RhaiMap) :
    prop (grant source claim unit) "unit_id" = prop unit "unit_id" :=
  prop_grant (unitId_mem_unitKeys source) (by decide) claim unit

@[simp] theorem unitId_copy_unitKeys (source : CapacitySource) (map : RhaiMap) :
    prop (copy (unitKeys source) map) "unit_id" = prop map "unit_id" :=
  prop_copy (unitId_mem_unitKeys source) map

theorem mem_holdKeys {key : String} (h : key ∈ unitKeys source) : key ∈ holdKeys source :=
  List.mem_append_left _ (List.mem_cons_of_mem _ h)

@[simp] theorem unitId_copy_holdKeys (source : CapacitySource) (map : RhaiMap) :
    prop (copy (holdKeys source) map) "unit_id" = prop map "unit_id" :=
  prop_copy (mem_holdKeys (unitId_mem_unitKeys source)) map

@[simp] theorem failChannel_copy_holdKeys (source : CapacitySource) (map : RhaiMap) :
    prop (copy (holdKeys source) map) failChannel = prop map failChannel :=
  prop_copy (List.mem_append_right _ (List.mem_singleton_self _)) map

theorem runnerId_mem_unitKeys (acceptance : Acceptance) : "runner_id" ∈ unitKeys (.presence acceptance) := by
  simp [unitKeys]

@[simp] theorem runnerId_grant (acceptance : Acceptance) (claim unit : RhaiMap) :
    prop (grant (.presence acceptance) claim unit) "runner_id" = prop unit "runner_id" :=
  prop_grant (runnerId_mem_unitKeys acceptance) (by decide) claim unit

@[simp] theorem runnerId_copy_unitKeys (acceptance : Acceptance) (map : RhaiMap) :
    prop (copy (unitKeys (.presence acceptance)) map) "runner_id" = prop map "runner_id" :=
  prop_copy (runnerId_mem_unitKeys acceptance) map

@[simp] theorem runnerId_copy_holdKeys (acceptance : Acceptance) (map : RhaiMap) :
    prop (copy (holdKeys (.presence acceptance)) map) "runner_id" = prop map "runner_id" :=
  prop_copy (mem_holdKeys (runnerId_mem_unitKeys acceptance)) map

/-! ## What a firing does -/

/-- The firings of the net, by the tokens they consume and produce. -/
inductive Fires (source : CapacitySource) :
    List (PoolPlace × RhaiMap) → List (PoolPlace × RhaiMap) → Prop
  | withdraw {wd claim : RhaiMap} (hid : Rhai.eq (prop wd "grant_id") (prop claim "grant_id")) :
      Fires source [(.withdrawInbox, wd), (.claimInbox, claim)]
        [(.done, copy ["grant_id"] claim ++ [("outcome", .str "withdrawn")])]
  | grant {claim unit : RhaiMap} (hauto : source ≠ .presence .consent) :
      Fires source [(.claimInbox, claim), (.pool, unit)]
        [(.grantOutbox, PoolNet.grant source claim unit)]
  | register {reg : RhaiMap} :
      Fires source [(.registerInbox, reg)] [(.inUse, copy (holdKeys source) reg)]
  | recycle {ended : PoolPlace} {request held : RhaiMap} {outcome : String}
      (hended : ended = .releaseInbox ∨ ended = .leaseExpired) :
      Fires source [(ended, request), (.inUse, held)]
        [(.pool, copy (unitKeys source) held),
          (.done, copy ["grant_id", "unit_id"] held ++ [("outcome", .str outcome)])]
  | acquire {acceptance : Acceptance} {presence : RhaiMap}
      (hsource : source = .presence acceptance) :
      Fires source [(.presenceAcquire, presence)] [(.pool, copy (unitKeys source) presence)]
  | postOffer {claim : RhaiMap} (hconsent : source = .presence .consent) :
      Fires source [(.claimInbox, claim)]
        [(.offers, copy ["grant_id", "requirements", "request"] claim)]
  | claim {offer claim unit : RhaiMap} (hconsent : source = .presence .consent)
      (hid : Rhai.eq (prop claim "grant_id") (prop offer "grant_id"))
      (hsat : satisfies (prop offer "requirements") (prop unit "caps")) :
      Fires source [(.offers, offer), (.presenceClaim, claim), (.pool, unit)]
        [(.grantOutbox, PoolNet.grant source offer unit)]
  | reapFree {acceptance : Acceptance} {exp unit done : RhaiMap}
      (hsource : source = .presence acceptance)
      (hid : Rhai.eq (prop exp "runner_id") (prop unit "runner_id")) :
      Fires source [(.presenceExpired, exp), (.pool, unit)] [(.done, done)]
  | reapHeld {acceptance : Acceptance} {exp held notify done : RhaiMap}
      (hsource : source = .presence acceptance)
      (hid : Rhai.eq (prop exp "runner_id") (prop held "runner_id")) :
      Fires source [(.presenceExpired, exp), (.inUse, held)]
        [(.failOutbox, notify), (.done, done)]

theorem fires_of_fire {t : PoolTransition} {tokens : List RhaiMap}
    {transition : NetTransition PoolPlace RhaiMap} (hnet : buildPoolNet source t = some transition)
    (hlen : tokens.length = transition.inputs.length) (hguard : transition.guard tokens = true) :
    Fires source (transition.inputs.zip tokens) (transition.outputs tokens) := by
  cases t with
  | tWithdraw =>
    cases hnet
    obtain ⟨wd, claim, rfl⟩ := List.length_eq_two.mp hlen
    exact .withdraw hguard
  | tGrant =>
    simp only [buildPoolNet] at hnet
    split at hnet
    · cases hnet
    · next hauto =>
      cases hnet
      obtain ⟨claim, unit, rfl⟩ := List.length_eq_two.mp hlen
      exact .grant hauto
  | tRegister =>
    cases hnet
    obtain ⟨reg, rfl⟩ := List.length_eq_one_iff.mp hlen
    exact .register
  | tRelease =>
    cases hnet
    obtain ⟨req, held, rfl⟩ := List.length_eq_two.mp hlen
    exact .recycle (Or.inl rfl)
  | tReap =>
    cases source with
    | presence acceptance => exact absurd hnet (by simp [buildPoolNet])
    | seeded capacity =>
      cases hnet
      obtain ⟨exp, held, rfl⟩ := List.length_eq_two.mp hlen
      exact .recycle (Or.inr rfl)
  | tPresenceAcquire =>
    cases source with
    | seeded capacity => exact absurd hnet (by simp [buildPoolNet])
    | presence acceptance =>
      cases hnet
      obtain ⟨presence, rfl⟩ := List.length_eq_one_iff.mp hlen
      exact .acquire rfl
  | tPostOffer =>
    simp only [buildPoolNet] at hnet
    split at hnet
    · next hconsent =>
      cases hnet
      obtain ⟨claim, rfl⟩ := List.length_eq_one_iff.mp hlen
      exact .postOffer hconsent
    · cases hnet
  | tClaim =>
    simp only [buildPoolNet] at hnet
    split at hnet
    · next hconsent =>
      cases hnet
      obtain ⟨offer, claim, unit, rfl⟩ := List.length_eq_three.mp hlen
      simp only [tClaim, Bool.and_eq_true] at hguard
      exact .claim hconsent hguard.1.1 hguard.2
    · cases hnet
  | tReapFree =>
    cases source with
    | seeded capacity => exact absurd hnet (by simp [buildPoolNet])
    | presence acceptance =>
      cases hnet
      obtain ⟨exp, unit, rfl⟩ := List.length_eq_two.mp hlen
      exact .reapFree rfl hguard
  | tReapHeld =>
    cases source with
    | seeded capacity => exact absurd hnet (by simp [buildPoolNet])
    | presence acceptance =>
      cases hnet
      obtain ⟨exp, held, rfl⟩ := List.length_eq_two.mp hlen
      simp only [tReapHeld, Bool.and_eq_true] at hguard
      exact .reapHeld rfl hguard.1

/-- What a firing puts, without those it takes. -/
def produces (source : CapacitySource) (t : PoolTransition) (tokens : List RhaiMap) :
    List (PoolPlace × RhaiMap) :=
  match buildPoolNet source t with
  | some transition => transition.outputs tokens
  | none => []

/-- What one step does to the marking, case by case. -/
inductive Stepped (source : CapacitySource) (m : PoolMarking) : Action → PoolMarking → Prop
  | fire {t : PoolTransition} {tokens : List RhaiMap} {rest : PoolMarking}
      {consumed produced : List (PoolPlace × RhaiMap)} (hfires : Fires source consumed produced)
      (hproduced : produces source t tokens = produced) (hm : m = rest + ↑consumed) :
      Stepped source m (.fire t tokens) (rest + ↑produced)
  | arrive {place : PoolPlace} {token : RhaiMap} (hplace : place ∈ inboxes source) :
      Stepped source m (.arrive place token) ((place, token) ::ₘ m)
  | register {grant reg : RhaiMap} {rest : PoolMarking} (hm : m = (.grantOutbox, grant) ::ₘ rest)
      (hreg : Registers source grant reg) :
      Stepped source m (.register grant reg) ((.registerInbox, reg) ::ₘ rest)

theorem stepped {m m' : PoolMarking} {a : Action}
    (h : step source m a = some m') : Stepped source m a m' := by
  cases a with
  | fire t tokens =>
    obtain ⟨transition, hnet, hfire⟩ := Option.bind_eq_some_iff.mp h
    obtain ⟨hlen, hguard, rest, hm, rfl⟩ := NetTransition.fire?_eq_some.mp hfire
    exact .fire (fires_of_fire hnet hlen hguard) (by rw [produces, hnet]) hm
  | arrive place token =>
    simp only [step] at h
    split at h
    · next hplace =>
      cases h
      exact .arrive hplace
    · cases h
  | register grant reg =>
    simp only [step] at h
    split at h
    · next hreg =>
      cases h
      exact .register (Multiset.cons_erase hreg.1).symm hreg.2
    · cases h

end PoolNet

end Mekhan
