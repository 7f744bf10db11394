import Mekhan.Application.Binding
import Mekhan.Domain.Events

/-!
# Routing output tokens

`route_output_tokens` of `application/src/firing.rs` and what it calls: the values a script or an
effect handler returned become tokens in the places behind the output ports, or tokens that leave the
net over a bridge. `Token::new` draws an id and a time for each of them; `mint port i` is what it
draws for the value number `i` of a port.
-/

namespace Mekhan

open Infra

structure BridgeTarget where
  targetNetId : String
  targetPlaceName : String
  replyTo : Option String
  replyChannels : Option (HashMap String String)

structure BridgeOutToken where
  placeId : PlaceId
  token : Token
  target : BridgeTarget
  placeName : String
  replyToPlaceName : Option String

/-- The result of `route_output_tokens`. -/
structure Routed where
  produced : List (PlaceId × Token)
  bridgeOut : List BridgeOutToken

def stripPrefix? (pre s : String) : Option String :=
  if pre.toList.isPrefixOf s.toList then some (String.ofList (s.toList.drop pre.length)) else none

/-- The string under a key of a JSON value. -/
def stringAt (key : String) (value : Json) : Option String := (value.get? key).bind Json.asStr?

/-- `resolve_param`: a bridge target field, with its `$result.` or `$params.` reference resolved. -/
def resolveParam (field : String) (params effectResult : Option Json) :
    Except ServiceError String :=
  match stripPrefix? "$result." field with
  | some key =>
    match effectResult with
    | none => .error (.internal
        ("Bridge target '" ++ field ++ "' references $result but no effect result available"))
    | some result =>
      match stringAt key result with
      | some s => .ok s
      | none => .error (.internal ("Effect result key '" ++ key ++ "' not found or not a string"))
  | none =>
    match stripPrefix? "$params." field with
    | some key =>
      match params with
      | none => .error (.internal
          ("Bridge target '" ++ field ++ "' references $params but net has no parameters"))
      | some params =>
        match stringAt key params with
        | some s => .ok s
        | none => .error (.internal ("Net parameter '" ++ key ++ "' not found or not a string"))
    | none => .ok field

/-- The arguments of `route_output_tokens` beside the values to route. -/
structure RouteArgs where
  net : PetriNet
  transition : Transition
  consumedReplyRouting : Option ReplyRouting
  schemaRegistry : Option SchemaRegistry
  netParameters : Option Json
  effectResult : Option Json
  mint : String → Nat → TokenId × DateTime

inductive TokenRoute where
  | produced (placeId : PlaceId) (token : Token)
  | bridgedOut (out : BridgeOutToken)
  | discarded

namespace RouteArgs

variable (args : RouteArgs)

/-- The schema check of one value; the error port is exempt. -/
def checkSchema (portName : String) (port : Port) (data : Json) : Except ServiceError Unit :=
  if portName = "_error" then .ok ()
  else
    match portSchema args.schemaRegistry (some port) with
    | none => .ok ()
    | some (registry, schemaRef) =>
      match registry.validate schemaRef data with
      | .ok () => .ok ()
      | .error e => .error (.schemaValidationFailed portName args.transition.id e.display)

def replyAddress (channel : Option String) : Option BridgeReplyAddress :=
  args.consumedReplyRouting.bind fun routing =>
    match channel with
    | some ch => routing.replyChannels.bind (·.lookup ch)
    | none => routing.replyTo

/-- A token at the place behind an arc, by the kind of the place. -/
def routeToPlace (arc : Arc) (token : Token) : Except ServiceError TokenRoute :=
  match args.net.getPlace arc.placeId with
  | none => .ok (.produced arc.placeId token)
  | some place =>
    match place.kind with
    | .bridgeReply channel =>
      match args.replyAddress channel with
      | some addr =>
        .ok (.bridgedOut ⟨arc.placeId, token, ⟨addr.netId, addr.placeName, none, none⟩, place.name,
          none⟩)
      | none => .error (.bridgeReplyMissing place.name channel)
    | .bridgeOut targetNetId targetPlaceName replyTo replyChannels _ => do
      let resolvedNet ← resolveParam targetNetId args.netParameters args.effectResult
      let resolvedPlace ← resolveParam targetPlaceName args.netParameters args.effectResult
      .ok (.bridgedOut ⟨arc.placeId, token, ⟨resolvedNet, resolvedPlace, replyTo, replyChannels⟩,
        place.name, replyTo⟩)
    | .sink => .ok .discarded
    | .internal | .signal | .bridgeIn .. | .terminal =>
      -- The routing of the consumed tokens travels on, unless the arc opts out.
      match args.consumedReplyRouting, arc.resetReplyRouting with
      | some routing, false => .ok (.produced arc.placeId (token.withReplyRouting routing))
      | _, _ => .ok (.produced arc.placeId token)

/-- One value of a port, number `i` of its values. -/
def routeValue (portName : String) (port : Port) (i : Nat) (data : Json) :
    Except ServiceError TokenRoute := do
  args.checkSchema portName port data
  match args.net.outputArcForPort args.transition.id portName with
  | none => .error (.noArcForPort portName)
  | some arc =>
    let fresh := args.mint portName i
    args.routeToPlace arc (.new fresh.1 fresh.2 (jsonToTokenColor data))

end RouteArgs

def Routed.push (r : Routed) : TokenRoute → Routed
  | .produced placeId token => { r with produced := r.produced ++ [(placeId, token)] }
  | .bridgedOut out => { r with bridgeOut := r.bridgeOut ++ [out] }
  | .discarded => r

namespace RouteArgs

variable (args : RouteArgs)

/-- The values of one port, from number `i` on. -/
def routeValues (portName : String) (port : Port) : Nat → List Json → Routed →
    Except ServiceError Routed
  | _, [], acc => .ok acc
  | i, data :: rest, acc =>
    match args.routeValue portName port i data with
    | .error e => .error e
    | .ok route => routeValues portName port (i + 1) rest (acc.push route)

/-- The values a port's data stands for: a batch port scatters an array. -/
def elementValues (portName : String) (port : Port) (data : Json) : Except ServiceError (List Json) :=
  match port.cardinality with
  | .single => .ok [data]
  | .batch =>
    match data with
    | .arr elems => .ok elems
    | _ => .error (.batchOutputNotArray portName)

def routePort (acc : Routed) (entry : String × Json) : Except ServiceError Routed :=
  match args.transition.outputPort entry.1 with
  | none => .error (.unknownOutputPort entry.1)
  | some port =>
    match elementValues entry.1 port entry.2 with
    | .error e => .error e
    | .ok values => args.routeValues entry.1 port 0 values acc

end RouteArgs

/-- `route_output_tokens`, over the ports in the iteration order of the result. -/
def routeOutputTokens (args : RouteArgs) (scriptResult : HashMap String Json) :
    Except ServiceError Routed :=
  scriptResult.toPairs.foldlM args.routePort ⟨[], []⟩

/-! ## The errors of routing -/

/-- The errors `route_output_tokens` returns. -/
def ServiceError.isRouting : ServiceError → Bool
  | .unknownOutputPort .. | .batchOutputNotArray .. | .schemaValidationFailed ..
  | .noArcForPort .. | .bridgeReplyMissing .. | .internal .. => true
  | _ => false

variable {e : ServiceError} {args : RouteArgs}

theorem resolveParam_error {field : String} {params effectResult : Option Json}
    (h : resolveParam field params effectResult = .error e) : ∃ message, e = .internal message := by
  unfold resolveParam at h
  split at h <;> repeat' split at h
  all_goals first
    | exact ⟨_, (Except.error.inj h).symm⟩
    | cases h

/-- **At its place a token is only refused for want of an address**, and that is not permanent. -/
theorem RouteArgs.routeToPlace_error {arc : Arc} {token : Token}
    (h : args.routeToPlace arc token = .error e) : e.isRouting ∧ e.isPermanent = false := by
  unfold RouteArgs.routeToPlace at h
  split at h
  · cases h
  · split at h
    · split at h
      · cases h
      · rw [← Except.error.inj h]
        exact ⟨rfl, rfl⟩
    · next targetNetId targetPlaceName _ _ _ _ =>
      cases hnet : resolveParam targetNetId args.netParameters args.effectResult with
      | error e' =>
        rw [hnet] at h
        obtain ⟨message, rfl⟩ := resolveParam_error hnet
        rw [← Except.error.inj h]
        exact ⟨rfl, rfl⟩
      | ok resolvedNet =>
        rw [hnet] at h
        cases hplace : resolveParam targetPlaceName args.netParameters args.effectResult with
        | error e' =>
          rw [hplace] at h
          obtain ⟨message, rfl⟩ := resolveParam_error hplace
          rw [← Except.error.inj h]
          exact ⟨rfl, rfl⟩
        | ok resolvedPlace =>
          rw [hplace] at h
          exact absurd h (by simp [bind, Except.bind])
    · cases h
    all_goals
      split at h <;> cases h

variable {portName : String} {port : Port}

theorem RouteArgs.routeValue_error {i : Nat}
    {data : Json} (h : args.routeValue portName port i data = .error e) : e.isRouting := by
  unfold RouteArgs.routeValue at h
  cases hcheck : args.checkSchema portName port data with
  | error e' =>
    rw [hcheck] at h
    rw [← Except.error.inj h]
    unfold RouteArgs.checkSchema at hcheck
    split at hcheck
    · cases hcheck
    · split at hcheck
      · cases hcheck
      · split at hcheck
        · cases hcheck
        · rw [← Except.error.inj hcheck]
          rfl
  | ok u =>
    rw [hcheck] at h
    change (match args.net.outputArcForPort args.transition.id portName with
      | none => _
      | some arc => _) = _ at h
    split at h
    · rw [← Except.error.inj h]
      rfl
    · exact (RouteArgs.routeToPlace_error h).1

theorem RouteArgs.routeValues_error : ∀ {values : List Json} {i : Nat} {acc : Routed},
    args.routeValues portName port i values acc = .error e → e.isRouting
  | [], _, _, h => absurd h (by simp [RouteArgs.routeValues])
  | data :: rest, i, acc, h => by
    rw [RouteArgs.routeValues] at h
    split at h
    · next hvalue =>
      rw [← Except.error.inj h]
      exact RouteArgs.routeValue_error hvalue
    · exact RouteArgs.routeValues_error h

theorem RouteArgs.routePort_error {acc : Routed} {entry : String × Json}
    (h : args.routePort acc entry = .error e) : e.isRouting := by
  unfold RouteArgs.routePort at h
  split at h
  · rw [← Except.error.inj h]
    rfl
  · split at h
    · next hvalues =>
      rw [← Except.error.inj h]
      unfold RouteArgs.elementValues at hvalues
      split at hvalues
      · cases hvalues
      · split at hvalues
        · cases hvalues
        · rw [← Except.error.inj hvalues]
          rfl
    · exact RouteArgs.routeValues_error h

theorem routeOutputTokens_error {scriptResult : HashMap String Json}
    (h : routeOutputTokens args scriptResult = .error e) : e.isRouting := by
  unfold routeOutputTokens at h
  generalize scriptResult.toPairs = entries at h
  generalize (⟨[], []⟩ : Routed) = acc at h
  induction entries generalizing acc with
  | nil => exact absurd h (by simp [pure, Except.pure])
  | cons entry entries ih =>
    rw [List.foldlM_cons] at h
    cases hport : args.routePort acc entry with
    | error e' =>
      rw [hport] at h
      rw [← Except.error.inj h]
      exact RouteArgs.routePort_error hport
    | ok acc' =>
      rw [hport] at h
      exact ih acc' h

end Mekhan
