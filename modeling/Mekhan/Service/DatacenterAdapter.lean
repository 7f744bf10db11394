import Mekhan.Application.NetScheduling
import Mekhan.Service.PoolNet

/-!
# The datacenter lease adapter

`service/src/petri/pool_net.rs`: the net `build_datacenter_lease_adapter_net` builds for a datacenter
resource. It has the inboxes of an admission pool, but instead of capacity of its own it holds leases
of an external allocator. The connection the two effects are called with is left out, and of the reply
routing all but the fail address, which a hold has from its registration and a failed request from its
claim (`PoolNet.failChannel`).
-/

namespace Mekhan

open Infra

inductive AdapterPlace where
  | inUse
  | done
  | claimInbox
  | registerInbox
  | releaseInbox
  | grantOutbox
  | failOutbox
  | leaseExpired
  | leaseFailed
  | releasePrep
  | requestError
  deriving DecidableEq

inductive AdapterTransition where
  | tRequest
  | tRequestFailed
  | tRegister
  | tReleasePrep
  | tRelease
  | tReap
  | tLeaseDone
  | tLeaseDied
  deriving DecidableEq

abbrev AdapterMarking := Queues AdapterPlace (Stamped RhaiMap)

namespace Adapter

open Rhai (prop)
open PoolNet (copy failChannel)

abbrev Transition := QueueTransition AdapterPlace RhaiMap

/-- `left.field == right.field'` on the two inputs. -/
def matchOn (field field' : String) : List (List RhaiMap) → Bool
  | [[left], [right]] => Rhai.eq (prop left field) (prop right field')
  | _ => false

/-! ## Transitions -/

/-- The acquire effect: the lease with the claim's grant id, or the raw error token, with the claim's
reply routing. -/
def tRequest (answer : EffectAnswer) : Transition where
  inputs := [.take .claimInbox]
  guard := fun _ => true
  outputs
    | [[request]] =>
      match answer with
      | .ok lease => [(.grantOutbox, ("grant_id", prop request "grant_id") :: lease)]
      | .error message retryable =>
        [(.requestError, errorToken message "resource_lease_acquire" "t_request" retryable
          [("request", .obj request)] ++ copy [failChannel] request)]
    | _ => []

/-- The claim an error token carries under `inputs.request`. -/
def requestOf (err : RhaiMap) : RhaiMap :=
  match prop err "inputs" with
  | .obj inputs =>
    match prop inputs "request" with
    | .obj request => request
    | _ => []
  | _ => []

def tRequestFailed : Transition where
  inputs := [.take .requestError]
  guard := fun _ => true
  outputs
    | [[err]] =>
      [(.failOutbox, [("grant_id", prop (requestOf err) "grant_id"), ("error", prop err "error"),
        ("phase", .str "acquire")])]
    | _ => []

def holdKeys : List String := ["grant_id", "alloc_id", "node", "expiry", "scheduler", failChannel]

def tRegister : Transition where
  inputs := [.take .registerInbox]
  guard := fun _ => true
  outputs
    | [[reg]] => [(.inUse, copy holdKeys reg)]
    | _ => []

def ended (held : RhaiMap) (outcome : String) : RhaiMap :=
  copy ["grant_id", "alloc_id"] held ++ [("outcome", .str outcome)]

@[simp] theorem alloc_ended (held : RhaiMap) (outcome : String) :
    prop (ended held outcome) "alloc_id" = prop held "alloc_id" := rfl

def tReleasePrep : Transition where
  inputs := [.take .releaseInbox, .take .inUse]
  guard := matchOn "grant_id" "grant_id"
  outputs
    | [[_], [held]] =>
      [(.releasePrep, copy ["grant_id", "alloc_id"] held), (.done, ended held "released")]
    | _ => []

/-- The release effect; without an error port a failure consumes the request and leaves nothing. -/
def tRelease (answer : EffectAnswer) : Transition where
  inputs := [.take .releasePrep]
  guard := fun _ => true
  outputs
    | [[release]] =>
      match answer with
      | .ok _ => [(.done, copy ["grant_id"] release)]
      | .error .. => []
    | _ => []

/-- The signal names the allocation, not the grant. -/
def tReap : Transition where
  inputs := [.take .leaseExpired, .take .inUse]
  guard := matchOn "scheduler_job_id" "alloc_id"
  outputs
    | [[_], [held]] => [(.done, ended held "reaped")]
    | _ => []

def tLeaseDone : Transition where
  inputs := [.take .leaseExpired]
  guard := fun _ => true
  outputs
    | [[exp]] =>
      [(.done, [("alloc_id", prop exp "scheduler_job_id"), ("outcome", .str "lease_done")])]
    | _ => []

def tLeaseDied : Transition where
  inputs := [.take .leaseFailed, .take .inUse]
  guard := matchOn "scheduler_job_id" "alloc_id"
  outputs
    | [[_], [held]] =>
      [(.failOutbox, ended held "lease_failed"), (.done, ended held "lease_failed")]
    | _ => []

/-! ## The net -/

/-- `build_datacenter_lease_adapter_net`, with the answer the next effect call gets. -/
def adapterNet (answer : EffectAnswer) : AdapterTransition → Transition
  | .tRequest => tRequest answer
  | .tRequestFailed => tRequestFailed
  | .tRegister => tRegister
  | .tReleasePrep => tReleasePrep
  | .tRelease => tRelease answer
  | .tReap => tReap
  | .tLeaseDone => tLeaseDone
  | .tLeaseDied => tLeaseDied

def transitionId : AdapterTransition → TransitionId
  | .tRequest => ⟨"t_request"⟩
  | .tRequestFailed => ⟨"t_request_failed"⟩
  | .tRegister => ⟨"t_register"⟩
  | .tReleasePrep => ⟨"t_release_prep"⟩
  | .tRelease => ⟨"t_release"⟩
  | .tReap => ⟨"t_reap"⟩
  | .tLeaseDone => ⟨"t_lease_done"⟩
  | .tLeaseDied => ⟨"t_lease_died"⟩

def transitions : List AdapterTransition :=
  [.tRequest, .tRequestFailed, .tRegister, .tReleasePrep, .tRelease, .tReap, .tLeaseDone, .tLeaseDied]

/-- The bridges of the claimants and the signals of the watcher. -/
def inboxes : List AdapterPlace :=
  [.claimInbox, .registerInbox, .releaseInbox, .leaseExpired, .leaseFailed]

inductive Action where
  | arrive (place : AdapterPlace) (token : RhaiMap) (now : DateTime)
  | evaluate (answer : EffectAnswer) (now : DateTime)

/-- Whether the tokens carry the address that the transition answers to. -/
def addressed : AdapterTransition → List (List (Stamped RhaiMap)) → Bool
  | .tRequestFailed, [[err]] => prop err.colour failChannel != .null
  | .tLeaseDied, [[_], [held]] => prop held.colour failChannel != .null
  | _, _ => true

/-- The firing that is selected has nowhere to answer to. -/
def stuck (answer : EffectAnswer) (m : AdapterMarking) : Bool :=
  match selectCandidate transitionId (adapterNet answer) m transitions with
  | some (t, _) => (boundAt (adapterNet answer) m t).any fun bound => !addressed t bound
  | none => false

/-- An evaluation that selects a firing without an address ends with `BridgeReplyMissing`: the tokens
stay, and the next evaluation selects it again. -/
def step (m : AdapterMarking) : Action → Option AdapterMarking
  | .arrive place token now =>
    if place ∈ inboxes then some (enqueue m [(place, ⟨token, now⟩)]) else none
  | .evaluate answer now =>
    if stuck answer m then none
    else evaluateOnce transitionId (adapterNet answer) m transitions now

/-- No evaluation fires anything. -/
def AtRest (m : AdapterMarking) : Prop := ∀ answer now, step m (.evaluate answer now) = none

/-- No evaluation selects anything. -/
def Quiescent (m : AdapterMarking) : Prop :=
  ∀ answer, selectCandidate transitionId (adapterNet answer) m transitions = none

/-! ## What a round does -/

/-- The firings at a marking, by the tokens they consume and produce. -/
inductive Fires (m : AdapterMarking) (now : DateTime) : AdapterTransition →
    List (AdapterPlace × Stamped RhaiMap) → List (AdapterPlace × Stamped RhaiMap) → Prop
  | request {c : Stamped RhaiMap} {out : List (AdapterPlace × Stamped RhaiMap)}
      (hout : ∀ x ∈ out, x.1 = .grantOutbox ∨ x.1 = .requestError) :
      Fires m now .tRequest [(.claimInbox, c)] out
  | requestFailed {c : Stamped RhaiMap} {notice : RhaiMap} (hnone : prop notice "alloc_id" = .null) :
      Fires m now .tRequestFailed [(.requestError, c)] [(.failOutbox, ⟨notice, now⟩)]
  | register {c : Stamped RhaiMap} :
      Fires m now .tRegister [(.registerInbox, c)]
        [(.inUse, ⟨copy holdKeys c.colour, now⟩)]
  | releasePrep {c d request record : Stamped RhaiMap}
      (hid : Rhai.eq (prop c.colour "grant_id") (prop d.colour "grant_id")) :
      Fires m now .tReleasePrep [(.releaseInbox, c), (.inUse, d)]
        [(.releasePrep, request), (.done, record)]
  | release {c : Stamped RhaiMap} {out : List (AdapterPlace × Stamped RhaiMap)}
      (hout : ∀ x ∈ out, x.1 = .done) : Fires m now .tRelease [(.releasePrep, c)] out
  | reap {c d record : Stamped RhaiMap}
      (hid : Rhai.eq (prop c.colour "scheduler_job_id") (prop d.colour "alloc_id")) :
      Fires m now .tReap [(.leaseExpired, c), (.inUse, d)] [(.done, record)]
  | leaseDone {c record : Stamped RhaiMap} (hhead : (m .leaseExpired).head? = some c) :
      Fires m now .tLeaseDone [(.leaseExpired, c)] [(.done, record)]
  | leaseDied {c d record : Stamped RhaiMap}
      (hid : Rhai.eq (prop c.colour "scheduler_job_id") (prop d.colour "alloc_id")) :
      Fires m now .tLeaseDied [(.leaseFailed, c), (.inUse, d)]
        [(.failOutbox, ⟨ended d.colour "lease_failed", now⟩), (.done, record)]

theorem fires_of_fire {m m' : AdapterMarking} {answer : EffectAnswer} {now : DateTime} {t : AdapterTransition}
    (h : (timed now (adapterNet answer t)).fire? m = some m') : ∃ taken out rest, Fires m now t taken out ∧
      (∀ p, (m p).Perm (rest p ++ tokensAt p taken)) ∧ m' = enqueue rest out := by
  obtain ⟨bound, rest, hb, hperm, rfl⟩ := QueueTransition.fire?_perm h
  obtain ⟨hmem, hguard⟩ := QueueTransition.binding?_eq_some hb
  refine ⟨_, _, rest, ?_, hperm, rfl⟩
  cases t with
  | tRequest =>
    obtain ⟨c, -, rfl⟩ := QueueTransition.exists_of_mem_choices_one hmem
    refine .request ?_
    cases answer with
    | ok lease => simp [timed, QueueTransition.comap, adapterNet, tRequest]
    | error message => simp [timed, QueueTransition.comap, adapterNet, tRequest]
  | tRequestFailed =>
    obtain ⟨c, -, rfl⟩ := QueueTransition.exists_of_mem_choices_one hmem
    exact .requestFailed rfl
  | tRegister =>
    obtain ⟨c, -, rfl⟩ := QueueTransition.exists_of_mem_choices_one hmem
    exact .register
  | tReleasePrep =>
    obtain ⟨c, -, d, -, rfl⟩ := QueueTransition.exists_of_mem_choices_two (by decide) hmem
    exact .releasePrep hguard
  | tRelease =>
    obtain ⟨c, -, rfl⟩ := QueueTransition.exists_of_mem_choices_one hmem
    refine .release ?_
    cases answer with
    | ok result => simp [timed, QueueTransition.comap, adapterNet, tRelease]
    | error message => simp [timed, QueueTransition.comap, adapterNet, tRelease]
  | tReap =>
    obtain ⟨c, -, d, -, rfl⟩ := QueueTransition.exists_of_mem_choices_two (by decide) hmem
    exact .reap hguard
  | tLeaseDone =>
    obtain ⟨c, hc, rfl⟩ := QueueTransition.exists_of_mem_choices_one hmem
    obtain ⟨x, l, hx⟩ := List.exists_cons_of_ne_nil (List.ne_nil_of_mem hc)
    have hfirst := QueueTransition.binding?_one (t := timed now tLeaseDone) (c := x) rfl rfl hx
    obtain rfl : c = x := by simpa using congrArg Prod.fst (Option.some.inj (hb.symm.trans hfirst))
    exact .leaseDone (by rw [hx, List.head?_cons])
  | tLeaseDied =>
    obtain ⟨c, -, d, -, rfl⟩ := QueueTransition.exists_of_mem_choices_two (by decide) hmem
    exact .leaseDied hguard

end Adapter

end Mekhan
