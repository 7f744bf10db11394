import Mekhan.Application.NetScheduling
import Mekhan.Service.GatherBarrier

/-!
# A control channel that is gathered

`service/src/compiler/lower/channels.rs`: the places and transitions that `lower_channels` emits for a
control OUT channel whose consumer joins by `gather`, and the tokens that the watcher
(`executor/src/watcher.rs`) makes of the emissions of a job. Each episode of a channel is a number of
items and a close that says how many; both come into the raw place and are told apart by their kind.
-/

namespace Mekhan

open Infra
open Rhai (prop)

/-! ## Emissions -/

/-- One use of a channel by a job: its items and, with the last one, its close. -/
structure Episode where
  executionId : String
  episodeUid : String
  channel : String
  payloads : List Json
  uid : ':' ∉ episodeUid.toList
  /-- A vector has less than `2 ^ 63` elements. -/
  fits : payloads.length < 2 ^ 63
  deriving DecidableEq

namespace Episode

open Rhai (int)

def mapId (e : Episode) : String := e.executionId ++ ":" ++ e.episodeUid

/-- `control_emit_token` of an item; the payload is the parsed and capped one. -/
def itemToken (e : Episode) (i : Nat) : RhaiMap :=
  [("channel", .str e.channel), ("kind", .str "item"), ("payload", e.payloads.getD i .null),
    ("__map_id", .str e.mapId), ("__map_idx", int i)]

/-- `control_emit_token` of a close. -/
def closeToken (e : Episode) : RhaiMap :=
  [("channel", .str e.channel), ("kind", .str "close"), ("__map_id", .str e.mapId),
    ("count", int e.payloads.length)]

/-- `control_emit_token` of an open. -/
def openToken (e : Episode) (payload : Json) : RhaiMap :=
  [("channel", .str e.channel), ("kind", .str "open"), ("payload", payload)]

theorem split_colon {l r : List Char} (h : ':' ∉ r) :
    (r ++ ':' :: l).takeWhile (· ≠ ':') = r ∧ (r ++ ':' :: l).dropWhile (· ≠ ':') = ':' :: l := by
  have hall : ∀ c ∈ r, decide (c ≠ ':') = true := fun c hc =>
    decide_eq_true fun heq => h (heq ▸ hc)
  constructor
  · rw [List.takeWhile_append_of_pos hall, List.takeWhile_cons_of_neg (by simp), List.append_nil]
  · rw [List.dropWhile_append_of_pos hall, List.dropWhile_cons_of_neg (by simp)]

theorem mapId_inj {e e' : Episode} (h : e.mapId = e'.mapId) :
    e.executionId = e'.executionId ∧ e.episodeUid = e'.episodeUid := by
  have hlist : e.executionId.toList ++ ':' :: e.episodeUid.toList =
      e'.executionId.toList ++ ':' :: e'.episodeUid.toList := by
    have hchars := congrArg String.toList h
    simpa [mapId] using hchars
  -- The last colon is the one between them.
  have hreverse := congrArg List.reverse hlist
  simp only [List.reverse_append, List.reverse_cons, List.append_assoc, List.singleton_append]
    at hreverse
  have huid : ':' ∉ e.episodeUid.toList.reverse := by simpa using e.uid
  have huid' : ':' ∉ e'.episodeUid.toList.reverse := by simpa using e'.uid
  have htake := congrArg (List.takeWhile (· ≠ ':')) hreverse
  have hdrop := congrArg (List.dropWhile (· ≠ ':')) hreverse
  rw [(split_colon huid).1, (split_colon huid').1] at htake
  rw [(split_colon huid).2, (split_colon huid').2] at hdrop
  exact ⟨String.toList_inj.mp (List.reverse_inj.mp (List.cons.inj hdrop).2),
    String.toList_inj.mp (List.reverse_inj.mp htake)⟩

end Episode

/-! ## The net -/

inductive ChannelPlace where
  | raw
  | count
  | results
  | gathered
  deriving DecidableEq

inductive ChannelTransition where
  | tClose
  | tItem
  | tGather
  deriving DecidableEq

abbrev ChannelToken := Stamped RhaiMap

abbrev ChannelMarking := Queues ChannelPlace ChannelToken

namespace ChannelNet

open Rhai (int)

/-- `<port>.kind == kind`. -/
def hasKind (kind : String) : List (List RhaiMap) → Bool
  | [[token]] => Rhai.eq (prop token "kind") (.str kind)
  | _ => false

/-- An empty episode is gathered at once, without a coordinator. -/
def closed (close : RhaiMap) : ChannelPlace × RhaiMap :=
  if Rhai.eq (prop close "count") (int 0) then (.gathered, [("output", .arr [])])
  else (.count, [("count", prop close "count"), ("__map_id", prop close "__map_id")])

def tClose : QueueTransition ChannelPlace RhaiMap where
  inputs := [.take .raw]
  guard := hasKind "close"
  outputs := fun bound => bound.flatten.map closed

def result (item : RhaiMap) : RhaiMap :=
  [("value", prop item "payload"), ("__map_idx", prop item "__map_idx"),
    ("__map_id", prop item "__map_id")]

def tItem : QueueTransition ChannelPlace RhaiMap where
  inputs := [.take .raw]
  guard := hasKind "item"
  outputs := fun bound => bound.flatten.map fun item => (.results, result item)

def tGather : QueueTransition ChannelPlace RhaiMap :=
  gatherBarrier .count .results .gathered "count" "__map_id"

/-- `lower_channels`, for one channel joined by `gather`. -/
def channelNet : ChannelTransition → QueueTransition ChannelPlace RhaiMap
  | .tClose => scripted tClose
  | .tItem => scripted tItem
  | .tGather => scripted tGather

/-- The ids for the channel's node and name. -/
def transitionId (seg : String) : ChannelTransition → TransitionId
  | .tClose => ⟨"t_" ++ seg ++ "_close"⟩
  | .tItem => ⟨"t_" ++ seg ++ "_item"⟩
  | .tGather => ⟨"t_" ++ seg ++ "_gather"⟩

def transitions : List ChannelTransition := [.tClose, .tItem, .tGather]

def selected (seg : String) (m : ChannelMarking) : Option (ChannelTransition × Best) :=
  selectCandidate (transitionId seg) channelNet m transitions

def Quiescent (seg : String) (m : ChannelMarking) : Prop := selected seg m = none

def closing (m : ChannelMarking) : Option ChannelToken :=
  (boundAt channelNet m .tClose).bind fun bound => bound.flatten.head?

/-! ## What a firing does -/

/-- A token that a script put out. -/
def putOut (out : RhaiMap) (now : DateTime) : ChannelToken := ⟨Rhai.dynamicToJsonEntries out, now⟩

inductive Fires (m : ChannelMarking) (now : DateTime) : ChannelTransition → ChannelMarking → Prop
  | close {l₁ l₂ : List ChannelToken} {x : ChannelToken} (hraw : m .raw = l₁ ++ x :: l₂)
      (hkind : prop x.colour "kind" = .str "close") (hclosing : closing m = some x) :
      Fires m now .tClose (enqueue (Function.update m .raw (l₁ ++ l₂))
        [((closed x.colour).1, putOut (closed x.colour).2 now)])
  | item {l₁ l₂ : List ChannelToken} {x : ChannelToken} (hraw : m .raw = l₁ ++ x :: l₂)
      (hkind : prop x.colour "kind" = .str "item") :
      Fires m now .tItem (enqueue (Function.update m .raw (l₁ ++ l₂))
        [(.results, putOut (result x.colour) now)])
  | gather {c : ChannelToken} {k : Nat} {mine rest : List ChannelToken}
      (hcount : (m .count).getLast? = some c)
      (hquota : Gather.quota "count" [[c.colour]] = some (k + 1))
      (hmine : mine = ((m .results).filter fun x =>
        Gather.correlated "__map_id" [[c.colour]] x.colour).take (k + 1))
      (hlen : mine.length = k + 1) (hperm : (m .results).Perm (rest ++ mine)) :
      Fires m now .tGather (enqueue (Function.update m .results rest)
        [(.gathered, putOut (Gather.gathered (mine.map Stamped.colour)) now)])

theorem fires_of_fire {m m' : ChannelMarking} {now : DateTime} {t : ChannelTransition}
    (h : (timed now (channelNet t)).fire? m = some m') : Fires m now t m' := by
  cases t with
  | tClose =>
    obtain ⟨l₁, x, l₂, hraw, hguard, hbound, rfl⟩ := QueueTransition.fire?_one_guarded rfl h
    have hbound' : boundAt channelNet m .tClose = some [[x]] := hbound
    exact .close hraw (Rhai.eq_str_right.mp hguard) (by rw [closing, hbound']; rfl)
  | tItem =>
    obtain ⟨l₁, x, l₂, hraw, hguard, -, rfl⟩ := QueueTransition.fire?_one_guarded rfl h
    exact .item hraw (Rhai.eq_str_right.mp hguard)
  | tGather =>
    rw [timed, channelNet, comap_scripted] at h
    obtain ⟨c, k, hcount, hquota, hlen, mine, rest, hmine, hperm, rfl⟩ :=
      Gather.fire?_gatherBarrier h
    exact .gather hcount hquota hmine (by rw [hmine, List.length_take_of_le hlen]) hperm

end ChannelNet

end Mekhan
