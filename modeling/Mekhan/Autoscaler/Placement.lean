import Mekhan.Auth.Grants
import Mekhan.Catalogue.QueryDsl

/-!
# Placement

`service/src/autoscaler/placement.rs`: on which runners a model is loaded.

The order in which a hash map is iterated is a parameter, and so are the requests in flight: they are added up in
floating point.
-/

namespace Mekhan

namespace Autoscaler

open Infra Grants QueryDsl

/-- What the placement reads of a `ModelAutoscalePolicy`. -/
structure ModelAutoscalePolicy where
  modelId : String
  /-- A model without a zone is placed on any runner. -/
  residencyZone : String
  base : Option String

structure EngineSlot where
  runnerId : Grants.Uuid
  base : String
  /-- The free slots; `none` where the budget is unknown. -/
  headroom : Option UInt32
  adapters : List String

namespace EngineSlot

def hasHeadroom (s : EngineSlot) : Bool := (s.headroom.map fun h => decide (0 < h)).getD true

/-- What slots are sorted by: an unknown headroom is `u32::MAX`. -/
def free (s : EngineSlot) : Nat := (s.headroom.getD 0xFFFFFFFF).toNat

end EngineSlot

structure ZoneInventory where
  slots : List EngineSlot
  pulled : HashMap Grants.Uuid (List String)

inductive PlacementAction where
  | loadAdapter (runnerId : Grants.Uuid) (adapterId base : String) (sourceUri : Option String)
  | loadBase (runnerId : Grants.Uuid) (base : String)
deriving DecidableEq

def PlacementAction.runnerId : PlacementAction → Grants.Uuid
  | .loadAdapter r _ _ _ => r
  | .loadBase r _ => r

inductive PlacementPlan where
  | place (actions : List PlacementAction)
  | noEligibleRunner
deriving DecidableEq

/-! ## The plan -/

/-- The loop over the candidates: a runner that is seen for the first time gets an action, up to `need` of them. -/
def spread (need : Nat) (load : Grants.Uuid → PlacementAction) :
    List Grants.Uuid → List Grants.Uuid × List PlacementAction → List Grants.Uuid × List PlacementAction
  | [], state => state
  | r :: rs, (seen, actions) =>
    if need ≤ actions.length then (seen, actions)
    else if r ∈ seen then spread need load rs (seen, actions)
    else spread need load rs (r :: seen, actions ++ [load r])

def wantedBase (policy : ModelAutoscalePolicy) : String := policy.base.getD policy.modelId

/-- `sort_by_key(|s| Reverse(s.headroom.unwrap_or(u32::MAX)))` -/
def leastLoadedFirst (slots : List EngineSlot) : List EngineSlot := slots.insertionSort fun s t => t.free ≤ s.free

def serving (policy : ModelAutoscalePolicy) (slots : List EngineSlot) : List Grants.Uuid :=
  ((slots.filter fun s => s.base = wantedBase policy && s.adapters.any (· = policy.modelId)).map (·.runnerId)).dedup

/-- The engines that an adapter can be loaded on. -/
def loadable (policy : ModelAutoscalePolicy) (slots : List EngineSlot) : List EngineSlot :=
  slots.filter fun s =>
    s.base = wantedBase policy && s.hasHeadroom && !s.adapters.any (· = policy.modelId) &&
      !(serving policy slots).contains s.runnerId

def planAdapter (policy : ModelAutoscalePolicy) (slots : List EngineSlot) (n : Nat) : PlacementPlan :=
  let serving := serving policy slots
  let need := n - serving.length
  let loadable := leastLoadedFirst (loadable policy slots)
  let actions := (spread need (.loadAdapter · policy.modelId (wantedBase policy) none) (loadable.map (·.runnerId))
    (serving, [])).2
  if serving.isEmpty && actions.isEmpty then .noEligibleRunner else .place actions

def resident (policy : ModelAutoscalePolicy) (slots : List EngineSlot) : List EngineSlot :=
  slots.filter (·.base = wantedBase policy)

/-- The runners that have the base on disk and do not run it. -/
def loadableIds (policy : ModelAutoscalePolicy) (slots : List EngineSlot) (pulled : HashMap Grants.Uuid (List String)) :
    List Grants.Uuid :=
  let residentIds := (resident policy slots).map (·.runnerId)
  ((pulled.toPairs.filter fun e => !residentIds.contains e.1 && e.2.any (· = wantedBase policy)).map
    (·.1)).insertionSort (· ≤ ·)

def planBase (policy : ModelAutoscalePolicy) (slots : List EngineSlot) (pulled : HashMap Grants.Uuid (List String))
    (n : Nat) : PlacementPlan :=
  let resident := leastLoadedFirst (resident policy slots)
  let woken := spread n (.loadBase · (wantedBase policy)) (resident.map (·.runnerId)) ([], [])
  let actions := (spread n (.loadBase · (wantedBase policy)) (loadableIds policy slots pulled) woken).2
  if actions.isEmpty then .noEligibleRunner else .place actions

def planPlacements (policy : ModelAutoscalePolicy) (slots : List EngineSlot) (pulled : HashMap Grants.Uuid (List String))
    (desiredN : UInt32) : PlacementPlan :=
  let n := max desiredN.toNat 1
  if policy.base.isSome then planAdapter policy slots n else planBase policy slots pulled n

/-! ## The runners in the zone -/

inductive ModelInterfaceKind where
  | base
  | lora
deriving DecidableEq

structure ModelEntry where
  modelId : String
  kind : ModelInterfaceKind
  maxNumSeqs : Option UInt32
  base : Option String

/-- What the placement reads of a `RunnerInterfaceCatalog`. -/
structure RunnerInterfaceCatalog where
  models : List ModelEntry
  pulled : List String
  residencyZone : Option String

/-- The two loops over the models of a runner: the base engines, and the adapters by base. -/
def advertised (models : List ModelEntry) : HashMap String (Option UInt32) × HashMap String (List String) :=
  let bases := models.foldl (fun m e => if e.kind = .base then m.insert e.modelId e.maxNumSeqs else m) ∅
  models.foldl (fun m e =>
    match e.kind, e.base with
    | .lora, some base =>
      (if base ∈ m.1 then m.1 else m.1.insert base none,
        m.2.insert base (((m.2.lookup base).getD []) ++ [e.modelId]))
    | _, _ => m) (bases, ∅)

/-- A `saturating_sub`. -/
def saturatingSub (cap used : UInt32) : UInt32 := if used ≤ cap then cap - used else 0

section

-- `used`: the requests in flight to a base and its adapters, rounded
variable (order : Grants.Uuid → ∀ bases : MapOf String (Option UInt32), Iteration bases)
variable (used : Grants.Uuid → String → List String → UInt32)

def slotsOf (runnerId : Grants.Uuid) (catalog : RunnerInterfaceCatalog) : List EngineSlot :=
  let (bases, adaptersByBase) := advertised catalog.models
  (order runnerId bases.toFinmap).map.toPairs.map fun (base, c) =>
    let adapters := (adaptersByBase.lookup base).getD []
    ⟨runnerId, base, c.map (saturatingSub · (used runnerId base adapters)), adapters⟩

/-- The gate of the loop: a model with a zone takes only runners with a zone equal to it. -/
def inZone (policy : ModelAutoscalePolicy) (catalog : RunnerInterfaceCatalog) : Bool :=
  let wantedZone := trim policy.residencyZone.toList
  wantedZone.isEmpty || catalog.residencyZone.any fun z => trim z.toList = wantedZone

def buildZoneInventory (catalogs : List (Grants.Uuid × RunnerInterfaceCatalog)) (policy : ModelAutoscalePolicy) :
    ZoneInventory :=
  catalogs.foldl (fun inv (runnerId, catalog) =>
    if inZone policy catalog then
      ⟨inv.slots ++ slotsOf order used runnerId catalog, inv.pulled.insert runnerId catalog.pulled⟩
    else inv) ⟨[], ∅⟩

end

end Autoscaler

end Mekhan
