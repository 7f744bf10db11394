import Mekhan.Infra.Json
import Mekhan.Infra.KeyedList
import Mekhan.Infra.Renaming

/-!
# Binding a template at its launch

`resolve_effective_bindings` of `service/src/petri/binding.rs` and `prepare_air_with_bindings` of
`petri/launcher.rs`: each requirement slot is bound for the launching workspace, and the AIR is rewritten for the
slots that are bound to another resource. The substitutions are in a hash map; the order in which the launcher
takes them is the parameter `order`.

Of the text of an AIR there are the pool net ids as publishing left them, wherever they stand, and of each transition
what the launcher asks of its source and what it puts into it. That a replacement in the text renames whole net ids
is proved with the launch (`pieces_rewriteText`). What the resolver reads from a version of a resource is the
parameter `describe`. The pool nets that a launch redeploys on the way are left out.
-/

namespace Mekhan

namespace Bindings

open Infra

structure Uuid where
  text : String
  deriving DecidableEq

/-- `pool_net_id` -/
def poolNetId (resourceId : Uuid) : String := "pool-" ++ resourceId.text

theorem poolNetId_inj {a b : Uuid} : poolNetId a = poolNetId b ↔ a = b := by
  constructor
  · intro h
    have htext : a.text = b.text := String.append_right_inj "pool-" |>.mp h
    cases a
    cases b
    exact congrArg Uuid.mk htext
  · exact fun h => h ▸ rfl

/-! ## Resources -/

/-- A row of `resources`. -/
structure ResourceRow where
  id : Uuid
  workspaceId : Uuid
  resourceType : String
  latestVersion : Int
  deleted : Bool
  /-- The scope is `platform`. -/
  platform : Bool

abbrev Resources := KeyedList ResourceRow.id

/-! ## Requirements -/

/-- A resource that the template asks for. -/
structure RequirementSlot where
  key : String
  resourceType : String
  required : Bool
  deriving DecidableEq

/-- Where a slot's baked resource stands in the AIR. -/
structure SlotAirAddresses where
  netIds : List String
  resourceKeys : List String
  deriving DecidableEq

/-- The slots of a template and their addresses. -/
structure RequirementsManifest where
  slots : List RequirementSlot
  airAddresses : List (String × SlotAirAddresses)
  deriving DecidableEq

/-! ## AIR -/

/-- The Rhai literal of a resource's envelope: characters and whole pool net ids. -/
abbrev EnvelopeText := List (Char ⊕ String)

/-- What binding reads and writes of a transition. -/
structure AirTransition where
  id : String
  /-- The keys that the source indexes `__resources` with. -/
  keys : List String
  /-- The source has the end marker. -/
  anchored : Bool
  /-- The assignments that launching has put ahead of the end marker. -/
  injected : List (String × EnvelopeText)
  deriving DecidableEq

/-- What binding reads and writes of a published net. -/
structure Air where
  /-- The pool net ids in the text, but for those in injected assignments. -/
  netIds : List String
  transitions : List AirTransition
  deriving DecidableEq

def prepareSuffixes : List String := ["/prepare", "_prepare", "_prepare_call", "_acquire", "_inherit", "_scatter"]

/-- The transitions that resources are injected into. -/
def hasPrepareTransitionSuffix (transitionId : String) : Bool :=
  prepareSuffixes.any fun suffix => suffix.toList.isSuffixOf transitionId.toList

/-- What a launch reads of the template. -/
structure WorkflowTemplate where
  workspaceId : Uuid
  /-- The workspace in `forked_from`. -/
  forkedFrom : Option Uuid
  airJson : Air
  /-- Only launching injects. -/
  published : ∀ t ∈ airJson.transitions, t.injected = []
  requirementsJson : Option RequirementsManifest

/-! ## Bindings -/

/-- Where a binding comes from, the strongest first. -/
inductive BindingTier where
  | instanceOverride
  | workspaceDefault
  | platformAutoBind
  | homeBaseline
  deriving DecidableEq

/-- A slot and the resource it is bound to. -/
structure BoundSlot where
  slotKey : String
  resourceId : Uuid
  version : Int
  resourceType : String
  isPlatform : Bool
  tier : BindingTier
  deriving DecidableEq

/-- The bindings, and the required slots without one. -/
structure ResolvedBindings where
  substitutions : KeyedList BoundSlot.slotKey
  unboundRequired : List RequirementSlot

/-- Why a resource cannot be bound. -/
inductive BindingError where
  | resourceNotFound (slotKey : String) (resourceId : Uuid)
  | slotTypeMismatch (slotKey : String) (resourceId : Uuid) (expected found : String)
  | db
  deriving DecidableEq

/-- Why a launch is refused. -/
inductive PrepareBindingsError where
  | unbound (slots : List (String × String))
  | binding (error : BindingError)
  deriving DecidableEq

/-! ## Resolving -/

/-- What a launch is given: the resources, the overrides of the caller, and the defaults of the workspace. -/
structure LaunchRequest where
  db : Resources
  workspaceId : Uuid
  /-- The caller is a member of the workspace. -/
  isMember : Bool
  overrides : String → Option Uuid
  defaults : String → Option (Uuid × Option Int)

/-- Only resources of the workspace and of the platform are seen. -/
def loadVisibleResource (db : Resources) (workspaceId resourceId : Uuid) : Option ResourceRow :=
  (db.get? resourceId).filter fun row => (row.workspaceId = workspaceId || row.platform) && !row.deleted

/-- `type_check`: a slot without a type takes any resource. -/
def typeCheck (slot : RequirementSlot) (resourceId : Uuid) (found : String) : Except BindingError Unit :=
  if slot.resourceType = "" ∨ slot.resourceType = found then .ok ()
  else .error (.slotTypeMismatch slot.key resourceId slot.resourceType found)

/-- Loads the resource, checks its type and settles its version. -/
def resolveAndCheck (db : Resources) (workspaceId : Uuid) (slot : RequirementSlot) (resourceId : Uuid)
    (version : Option Int) (tier : BindingTier) : Except BindingError BoundSlot :=
  match loadVisibleResource db workspaceId resourceId with
  | none => .error (.resourceNotFound slot.key resourceId)
  | some row =>
    (typeCheck slot resourceId row.resourceType).map fun _ =>
      ⟨slot.key, resourceId, version.getD row.latestVersion, row.resourceType, row.platform, tier⟩

/-- `platform_auto_bind`: the one resource of the platform that has the type. -/
def platformAutoBind (db : Resources) (slot : RequirementSlot) : Option BoundSlot :=
  if slot.resourceType = "" then none
  else
    match db.toList.filter fun r => r.platform && r.resourceType = slot.resourceType && !r.deleted with
    | [row] => some ⟨slot.key, row.id, row.latestVersion, slot.resourceType, true, .platformAutoBind⟩
    | _ => none

/-- A slot whose resource is baked needs no binding. -/
def baselineSatisfies (manifest : RequirementsManifest) (slot : RequirementSlot) : Bool :=
  match List.lookup slot.key manifest.airAddresses with
  | some addresses => addresses.netIds ≠ [] || addresses.resourceKeys ≠ []
  | none => false

/-- The workspace whose resources are baked. -/
def baselineOriginWorkspace (template : WorkflowTemplate) : Uuid := template.forkedFrom.getD template.workspaceId

/-- The tiers of one slot. `none`: the slot keeps what was compiled in, or stays unbound. -/
def bindSlot (request : LaunchRequest) (slot : RequirementSlot) : Except BindingError (Option BoundSlot) :=
  match request.overrides slot.key with
  | some resourceId =>
    (resolveAndCheck request.db request.workspaceId slot resourceId none .instanceOverride).map some
  | none =>
    match request.defaults slot.key with
    | some (resourceId, version) =>
      (resolveAndCheck request.db request.workspaceId slot resourceId version .workspaceDefault).map some
    | none => .ok (platformAutoBind request.db slot)

/-- What one slot adds: its binding, or nothing where what was compiled in counts, or else that it is unbound. -/
def bindInto (request : LaunchRequest) (isHome : Prop) [Decidable isHome] (manifest : RequirementsManifest)
    (out : ResolvedBindings) (slot : RequirementSlot) : Except BindingError ResolvedBindings := do
  match ← bindSlot request slot with
  | some bound => return { out with substitutions := out.substitutions.insert bound }
  | none =>
    if isHome ∧ baselineSatisfies manifest slot then return out
    else if slot.required then return { out with unboundRequired := out.unboundRequired ++ [slot] }
    else return out

/-- Every slot is bound by the first tier that names a resource for it. -/
def resolveEffectiveBindings (request : LaunchRequest) (template : WorkflowTemplate) :
    Except BindingError ResolvedBindings :=
  match template.requirementsJson with
  | none => .ok ⟨.empty, []⟩
  | some manifest =>
    manifest.slots.foldlM
      (bindInto request (request.workspaceId = baselineOriginWorkspace template) manifest) ⟨.empty, []⟩

/-! ## Rewriting -/

/-- Each old id in turn, as the source does. -/
def replaceNetIds (old : List String) (resourceId : Uuid) (netId : String) : String :=
  old.foldl (fun n o => if n = o then poolNetId resourceId else n) netId

/-- What `rewrite_pool_net_ids` does with the text of the AIR. -/
def rewriteText (old : List (List Char)) (new text : List Char) : List Char :=
  old.foldl (fun text o => if o = new then text else replaceAll o new text) text

/-- Every old net id in the text becomes that of the resource, also in what was injected before. -/
def rewritePoolNetIds (air : Air) (old : List String) (resourceId : Uuid) : Air where
  netIds := air.netIds.map (replaceNetIds old resourceId)
  transitions := air.transitions.map fun t =>
    { t with injected := Renaming.renameIn (replaceNetIds old resourceId) t.injected }

/-- Whether the source has `__resources["key"]` in it; an assignment to the key has. -/
def AirTransition.references (t : AirTransition) (key : String) : Bool :=
  key ∈ t.keys || t.injected.any (·.1 = key)

/-- The assignments for the keys that a transition refers to come ahead of the end marker. -/
def spliceOverrides (overrides : List (String × EnvelopeText)) (t : AirTransition) : AirTransition :=
  if hasPrepareTransitionSuffix t.id ∧ t.anchored then
    { t with injected := t.injected ++ overrides.filter fun e => t.references e.1 }
  else t

/-- The overrides go into every transition that prepares. -/
def spliceOverridesIntoAir (air : Air) (overrides : List (String × EnvelopeText)) : Air :=
  { air with transitions := air.transitions.map (spliceOverrides overrides) }

section

variable (describe : ResourceRow → Int → Option EnvelopeText)

def platformScopeId : Uuid := ⟨"00000000-0000-0000-0000-0000506c6174"⟩

/-- `resolve_one`, for a caller who is a member of the workspace or is not. -/
def resolveOne (db : Resources) (workspaceId : Uuid) (isMember : Bool) (resourceId : Uuid) (version : Int) :
    Option EnvelopeText :=
  (db.get? resourceId).bind fun row =>
    if (row.workspaceId = workspaceId ∨ row.workspaceId = platformScopeId) ∧ row.deleted = false ∧
        (row.platform ∨ isMember) then
      describe row version
    else none

/-- Fails where the resource cannot be resolved. -/
def injectResourceOverrides (request : LaunchRequest) (bound : BoundSlot) (resourceKeys : List String) (air : Air) :
    Option Air :=
  (resourceKeys.mapM fun key =>
    (resolveOne describe request.db request.workspaceId request.isMember bound.resourceId bound.version).map
      fun envelope => (key, envelope)).map (spliceOverridesIntoAir air)

/-- One slot: its net ids are replaced, its resources injected. -/
def substitute (request : LaunchRequest) (manifest : RequirementsManifest) (air : Air) (bound : BoundSlot) :
    Option Air :=
  match List.lookup bound.slotKey manifest.airAddresses with
  | none => some air
  | some addresses =>
    let air := rewritePoolNetIds air addresses.netIds bound.resourceId
    if addresses.resourceKeys = [] then some air
    else injectResourceOverrides describe request bound addresses.resourceKeys air

/-- The slots are substituted in the order of the bound list. -/
def prepareAirWithBindings (order : List BoundSlot → List BoundSlot) (request : LaunchRequest)
    (template : WorkflowTemplate) : Except PrepareBindingsError Air :=
  match resolveEffectiveBindings request template with
  | .error error => .error (.binding error)
  | .ok resolved =>
    if resolved.unboundRequired ≠ [] then
      .error (.unbound (resolved.unboundRequired.map fun slot => (slot.key, slot.resourceType)))
    else
      match template.requirementsJson with
      | none => .ok template.airJson
      | some manifest =>
        match (order resolved.substitutions.toList).foldlM (substitute describe request manifest) template.airJson with
        | some air => .ok air
        | none => .error (.binding .db)

end

end Bindings

end Mekhan
