import Mekhan.Domain.Events
import Mekhan.Infra.Double
import Mekhan.Infra.KeyedList

/-!
# Allocations

`service/src/projections/allocations/projector.rs`: the fold of a pool net's event log into one row for each
grant id. How an RFC 3339 time is read is the parameter `parseTs`.
-/

namespace Mekhan

namespace Allocations

open Infra

/-- What was allocated. -/
inductive AllocationKind where
  | datacenterLease
  | concurrencyLimitGrant
  deriving DecidableEq

/-- Where an allocation stands. -/
inductive AllocationStatus where
  | pending | held | released | failed | expired
  deriving DecidableEq

/-- A grant and what became of it. -/
structure AllocationRow where
  kind : AllocationKind
  netId : String
  nodeId : Option String
  grantId : String
  clusterResourceId : Option String
  schedulerFlavor : Option String
  allocId : Option String
  node : Option String
  executorNamespace : Option String
  status : AllocationStatus
  requestedAt : Option DateTime
  acquiredAt : Option DateTime
  releasedAt : Option DateTime
  expiry : Option DateTime
  exitCode : Option Int
  queueWaitMs : Option Int
  elapsedMs : Option Int
  cpuSeconds : Option Int
  gpuSeconds : Option Int
  peakRssBytes : Option Int
  requestedTres : Option Json
  allocatedTres : Option Json
  lastError : Option String
  lastSequence : Nat

/-! ## Reading JSON -/

def strAt (key : String) (v : Json) : Option String := (v.get? key).bind Json.asStr?

/-- The number of a two's complement word. -/
def asSigned (bits n : Nat) : Int := if n % 2 ^ bits < 2 ^ (bits - 1) then n % 2 ^ bits else (n % 2 ^ bits : Int) - 2 ^ bits

/-- An unsigned number above the range wraps, as `as i64` does. -/
def jsonToI64 : Json → Option Int
  | .num n =>
    match n.asI64, n.asU64 with
    | some i, _ => some i
    | none, some u => some (asSigned 64 u)
    | none, none => some n.asF64.round.toI64
  | _ => none

def jsonToF64 : Json → Option F64
  | .num n => some n.asF64
  | _ => none

/-- `as i32`. -/
def asI32 (i : Int) : Int := asSigned 32 (i % 2 ^ 32).toNat

def nonNull : Option Json → Option Json
  | some .null => none
  | v => v

/-- The flavour, or what the lease's fields tell about it. -/
def schedulerFlavorFromLease (lease : Json) : Option String :=
  match strAt "scheduler_flavor" lease with
  | some f => some f
  | none =>
    match lease.get? "scheduler" with
    | some (.str s) => some s
    | some (.obj map) =>
      match (((Json.obj map).get? "type").or ((Json.obj map).get? "flavor")).bind Json.asStr? with
      | some t => some t
      | none =>
        match map with
        | [(key, _)] => some key
        | _ => none
    | _ => none

/-- The first `grant_id` among the tokens. -/
def producedGrantId (tokens : List (PlaceId × Token)) : Option String :=
  tokens.findSome? fun e =>
    match e.2.color with
    | .data v => strAt "grant_id" v
    | _ => none

/-- What a terminal `job_status` says of the allocation. -/
def jobOutcome : String → Option AllocationStatus
  | "completed" => some .released
  | "failed" | "lost" => some .failed
  | "cancelled" => some .released
  | "timed_out" => some .expired
  | _ => none

/-! ## Rows -/

def afterColon (s : String) : Option String :=
  match s.toList.dropWhile (· ≠ ':') with
  | _ :: rest => some (String.ofList rest)
  | [] => none

/-- The resource behind a pool's net. -/
def resourceOfNet (netId : String) : Option String :=
  if "pool-".toList <+: netId.toList ∧ netId.toList.length ≠ 5 then some (String.ofList (netId.toList.drop 5)) else none

namespace AllocationRow

/-- A grant that is still pending. -/
def new (kind : AllocationKind) (netId grantId : String) : AllocationRow where
  kind := kind
  netId := netId
  nodeId := afterColon grantId
  grantId := grantId
  clusterResourceId := resourceOfNet netId
  schedulerFlavor := none
  allocId := none
  node := none
  executorNamespace := none
  status := .pending
  requestedAt := none
  acquiredAt := none
  releasedAt := none
  expiry := none
  exitCode := none
  queueWaitMs := none
  elapsedMs := none
  cpuSeconds := none
  gpuSeconds := none
  peakRssBytes := none
  requestedTres := none
  allocatedTres := none
  lastError := none
  lastSequence := 0

/-- A grant advances a row that waits, and no other. -/
def hold (row : AllocationRow) : AllocationRow :=
  if row.status = .pending then { row with status := .held } else row

/-- A grant that failed or expired keeps its status. -/
def release (row : AllocationRow) (ts : DateTime) : AllocationRow :=
  { row with
    releasedAt := some ts
    status := if row.status = .pending ∨ row.status = .held then .released else row.status }

/-- The lease's fields, with the effect's own where the lease has none. -/
def acquire (parseTs : String → Option DateTime) (effectResult lease : Json) (sequence : Nat) (ts : DateTime)
    (row : AllocationRow) : AllocationRow :=
  { row.hold with
    allocId := ((strAt "alloc_id" lease).or (strAt "alloc_id" effectResult)).or row.allocId
    node := (strAt "node" lease).or row.node
    executorNamespace := (strAt "executor_namespace" lease).or row.executorNamespace
    expiry :=
      match strAt "expiry" lease with
      | some text => parseTs text
      | none => row.expiry
    schedulerFlavor := row.schedulerFlavor.or (schedulerFlavorFromLease lease)
    acquiredAt := some (row.acquiredAt.getD ts)
    lastSequence := sequence }

/-- The resources a job used; absent readings keep the old ones. -/
def meter (payload : Json) (row : AllocationRow) : AllocationRow :=
  let int := fun key => (payload.get? key).bind jsonToI64
  let seconds := fun key => ((payload.get? key).bind jsonToF64).map (·.round.toI64)
  { row with
    exitCode := ((int "exit_code").map asI32).or row.exitCode
    queueWaitMs := (int "queue_wait_ms").or row.queueWaitMs
    elapsedMs := (int "elapsed_ms").or row.elapsedMs
    cpuSeconds := (seconds "cpu_seconds").or row.cpuSeconds
    gpuSeconds := (seconds "gpu_seconds").or row.gpuSeconds
    peakRssBytes := (int "peak_rss_bytes").or row.peakRssBytes
    requestedTres := (nonNull (payload.get? "requested_tres")).or row.requestedTres
    allocatedTres := (nonNull (payload.get? "allocated_tres")).or row.allocatedTres
    node := row.node.or (strAt "node" payload)
    schedulerFlavor := row.schedulerFlavor.or (strAt "source" payload) }

/-- The end that a terminal `job_status` reports. -/
def terminate (payload : Json) (ts : DateTime) (row : AllocationRow) : AllocationRow :=
  match strAt "job_status" payload with
  | none => row
  | some jobStatus =>
    match jobOutcome jobStatus with
    | none => row
    | some next =>
      { row with
        status := next
        releasedAt := some (row.releasedAt.getD ts)
        lastError :=
          if jobStatus = "failed" ∨ jobStatus = "lost" then some ((strAt "error" payload).getD jobStatus)
          else row.lastError }

/-- What the scheduler reports at the end of a job. -/
def account (payload : Json) (sequence : Nat) (ts : DateTime) (row : AllocationRow) : AllocationRow :=
  { (row.meter payload).terminate payload ts with lastSequence := sequence }

end AllocationRow

/-! ## The fold -/

/-- The grants seen so far, and those that changed. -/
structure State where
  rows : KeyedList AllocationRow.grantId
  dirty : List String

namespace State

def new : State := ⟨.empty, []⟩

/-- Changes the row of a grant, or the one that it gets. -/
def modify (s : State) (grantId : String) (fresh : AllocationRow) (f : AllocationRow → AllocationRow) : State where
  rows := s.rows.insert (f ((s.rows.get? grantId).getD fresh))
  dirty := s.dirty.insert grantId

variable (parseTs : String → Option DateTime)

/-- A lease without a grant id is not kept. -/
def foldLeaseAcquire (s : State) (effectResult : Json) (netId : String) (sequence : Nat) (ts : DateTime) : State :=
  let lease := (effectResult.get? "lease").getD effectResult
  match strAt "grant_id" lease with
  | none => s
  | some grantId =>
    s.modify grantId (.new .datacenterLease netId grantId) (.acquire parseTs effectResult lease sequence ts)

/-- The grant of an allocation, for a release whose tokens do not name it. -/
def grantOfAlloc (s : State) (effectResult : Json) : Option String :=
  (strAt "alloc_id" effectResult).bind fun allocId =>
    (s.rows.toList.find? (·.allocId = some allocId)).map (·.grantId)

/-- The released grant is the produced token's or that of the allocation. -/
def foldLeaseRelease (s : State) (effectResult : Json) (produced : List (PlaceId × Token)) (sequence : Nat)
    (ts : DateTime) : State :=
  match (producedGrantId produced).or (s.grantOfAlloc effectResult) with
  | none => s
  | some grantId =>
    s.modify grantId (.new .datacenterLease "" grantId) fun row => { row.release ts with lastSequence := sequence }

/-- A report is matched by its signal key. -/
def foldAccountingSignal (s : State) (signalKey : String) (color : TokenColor) (sequence : Nat) (ts : DateTime) :
    State :=
  match color, s.rows.get? signalKey with
  | .data payload, some row => s.modify signalKey row (.account payload sequence ts)
  | _, _ => s

/-- Only grants and releases of a pool are allocations. -/
def foldPoolFire (s : State) (transitionId : String) (produced : List (PlaceId × Token)) (netId : String)
    (sequence : Nat) (ts : DateTime) : State :=
  if transitionId ≠ "t_grant" ∧ transitionId ≠ "t_release" then s
  else
    match producedGrantId produced with
    | none => s
    | some grantId =>
      -- a lease of a datacenter keeps its row
      if (s.rows.get? grantId).any (·.kind = .datacenterLease) then s
      else
        s.modify grantId (.new .concurrencyLimitGrant netId grantId) fun row =>
          { (if transitionId = "t_grant" then { row.hold with acquiredAt := some (row.acquiredAt.getD ts) }
            else row.release ts) with lastSequence := sequence }

/-- What the projection takes from an event. -/
def absorb (netId : String) (s : State) (persisted : PersistedEvent) : State :=
  match persisted.event with
  | .effectCompleted _ _ _ produced effectHandlerId effectResult .. =>
    if effectHandlerId = "resource_lease_acquire" then
      s.foldLeaseAcquire parseTs effectResult netId persisted.sequence persisted.timestamp
    else if effectHandlerId = "resource_lease_release" then
      s.foldLeaseRelease effectResult produced persisted.sequence persisted.timestamp
    else s
  | .tokenCreated token _ _ _ (some signalKey) _ =>
    s.foldAccountingSignal signalKey token.color persisted.sequence persisted.timestamp
  | .transitionFired transitionId _ _ produced .. =>
    s.foldPoolFire transitionId.name produced netId persisted.sequence persisted.timestamp
  | _ => s

end State

/-- `project_allocations`: the rows of a net's event log. -/
def projectAllocations (parseTs : String → Option DateTime) (events : List PersistedEvent) (netId : String) :
    KeyedList AllocationRow.grantId :=
  (events.foldl (State.absorb parseTs netId) .new).rows

/-! ## The status of a row -/

namespace AllocationRow

@[simp] theorem grantId_hold (row : AllocationRow) : row.hold.grantId = row.grantId := by
  unfold hold
  split <;> rfl

@[simp] theorem grantId_acquire (parseTs : String → Option DateTime) (effectResult lease : Json) (sequence : Nat)
    (ts : DateTime) (row : AllocationRow) : (row.acquire parseTs effectResult lease sequence ts).grantId = row.grantId :=
  row.grantId_hold

@[simp] theorem status_acquire (parseTs : String → Option DateTime) (effectResult lease : Json) (sequence : Nat)
    (ts : DateTime) (row : AllocationRow) :
    (row.acquire parseTs effectResult lease sequence ts).status = row.hold.status := rfl

/-- The status that an accounting payload gives, if it gives one. -/
def reported (payload : Json) : Option AllocationStatus := (strAt "job_status" payload).bind jobOutcome

@[simp] theorem grantId_account (payload : Json) (sequence : Nat) (ts : DateTime) (row : AllocationRow) :
    (row.account payload sequence ts).grantId = row.grantId := by
  unfold account terminate
  split
  · rfl
  · split <;> rfl

@[simp] theorem kind_account (payload : Json) (sequence : Nat) (ts : DateTime) (row : AllocationRow) :
    (row.account payload sequence ts).kind = row.kind := by
  unfold account terminate
  split
  · rfl
  · split <;> rfl

/-- A report changes the status only to an outcome it names. -/
theorem status_account (payload : Json) (sequence : Nat) (ts : DateTime) (row : AllocationRow) :
    (row.account payload sequence ts).status = (reported payload).getD row.status := by
  unfold account terminate reported
  split
  · next h => rw [h]; rfl
  · next h =>
    rw [h, Option.bind_some]
    split
    · next hout => rw [hout]; rfl
    · next hout => rw [hout]; rfl

end AllocationRow

/-- Every outcome ends the allocation. -/
theorem jobOutcome_ended {jobStatus : String} {status : AllocationStatus} (h : jobOutcome jobStatus = some status) :
    status = .released ∨ status = .failed ∨ status = .expired := by
  unfold jobOutcome at h
  split at h <;> simp_all

/-- Only the row of the grant changes. -/
theorem get?_modify {s : State} {grantId : String} {fresh : AllocationRow} {f : AllocationRow → AllocationRow}
    (hfresh : fresh.grantId = grantId) (hf : ∀ row, (f row).grantId = row.grantId) (k : String) :
    (s.modify grantId fresh f).rows.get? k =
      if k = grantId then some (f ((s.rows.get? grantId).getD fresh)) else s.rows.get? k := by
  have hkey : (f ((s.rows.get? grantId).getD fresh)).grantId = grantId := by
    rw [hf]
    cases hget : s.rows.get? grantId with
    | none => exact hfresh
    | some row => exact KeyedList.key_of_get? hget
  unfold State.modify
  rw [KeyedList.get?_insert, hkey]

end Allocations

end Mekhan
