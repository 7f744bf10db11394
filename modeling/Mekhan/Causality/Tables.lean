import Mekhan.Domain.Events
import Mekhan.Infra.JsonMap
import Mekhan.Infra.Statements

/-!
# The projection tables

The tables that `service/src/causality/ingest.rs` writes, with the keys that the migrations give them:
`causality_event_tokens` has none. A table is the list of its rows, in the order they were inserted.

Ids of tokens and of processes are written as text there; a process has the id of the token it started
with. Left out are the columns and tables that the ingest writes and never reads, apart from the
projections themselves: the catalogue keeps the entries, not the producers and the copies.
-/

namespace Mekhan

namespace Causality

open Infra

/-- A row for each event of a net. -/
structure EventRow where
  netId : String
  eventSeq : Nat
  eventType : String
  transitionName : Option String := none
  effectHandler : Option String := none
  effectResult : Option Json := none
  bridgeTargetNet : Option String := none
  bridgeTargetPlace : Option String := none
  timestamp : DateTime

/-- What an event did with a token. -/
inductive Role where
  | consumed
  | produced
  | read
  deriving DecidableEq

/-- A token of an event. -/
structure EventTokenRow where
  netId : String
  eventSeq : Nat
  tokenId : TokenId
  role : Role
  placeId : String
  placeName : Option String
  tokenData : Option Json

/-- A token belongs to a process. -/
structure ProcessTag where
  tokenId : TokenId
  processId : TokenId
  deriving DecidableEq

/-- Two nets that a signal connects. -/
structure CrossLink where
  signalKey : String
  egressNet : Option String
  egressSeq : Option Nat
  ingressNet : Option String
  ingressSeq : Option Nat
  linkType : String

/-- Where a signal was sent. -/
structure SignalDispatch where
  signalKey : String
  dispatchNet : String
  dispatchSeq : Nat

/-- An ingress and the dispatch it answers. -/
structure SignalLineage where
  ingressNet : String
  ingressSeq : Nat
  dispatchNet : String
  dispatchSeq : Nat
  signalKey : String

/-- A process and the net it is at home in. -/
structure Process where
  processId : TokenId
  name : Option String
  status : String
  config : Json
  instanceId : Option Uuid
  netId : Option String
  createdAt : DateTime
  updatedAt : DateTime

/-- A task of a human, for a process. -/
structure Task where
  id : String
  workspaceId : Option Uuid
  processId : TokenId
  title : String
  status : String
  assignee : Option String
  detail : Json
  createdAt : DateTime
  claimedAt : Option DateTime
  completedAt : Option DateTime

/-- A point of a metric. -/
structure Metric where
  processId : TokenId
  key : String
  value : F64
  timestamp : DateTime
  signalKey : Option String

/-- A line of a log. -/
structure Log where
  processId : TokenId
  level : String
  source : Option String
  message : String
  detail : Json
  timestamp : DateTime
  signalKey : Option String

/-- An artifact that a run registered. -/
structure CatalogueEntry where
  workspaceId : Uuid
  contentHash : String
  id : String
  executionId : String
  sourceNet : String
  sourcePlace : Option String
  processId : Option TokenId
  processStep : Option String
  sourceEventSequence : Nat
  createdBy : Option Uuid

/-- A run of a template in a net. -/
structure WorkflowInstance where
  id : Uuid
  netId : String
  templateId : Uuid
  createdBy : Uuid
  parentInstanceId : Option Uuid
  rootInstanceId : Option Uuid

/-- The tables that the ingest writes. -/
structure Database where
  events : List EventRow
  eventTokens : List EventTokenRow
  processTags : List ProcessTag
  crossLinks : List CrossLink
  dispatches : List SignalDispatch
  lineage : List SignalLineage
  processes : List Process
  tasks : List Task
  metrics : List Metric
  logs : List Log
  catalogue : List CatalogueEntry
  instances : List WorkflowInstance

/-- The tables before the first message; the instances are launched elsewhere. -/
def Database.initial (instances : List WorkflowInstance) : Database :=
  ⟨[], [], [], [], [], [], [], [], [], [], [], instances⟩

/-! ## Rows -/

section Rows

variable {α : Type}

/-- `ON CONFLICT DO NOTHING` -/
def insertNew (conflict : α → Bool) (row : α) (rows : List α) : List α :=
  if rows.any conflict then rows else rows ++ [row]

/-- `ON CONFLICT DO UPDATE` -/
def upsert (conflict : α → Bool) (update : α → α) (row : α) (rows : List α) : List α :=
  if rows.any conflict then rows.map fun r => if conflict r then update r else r else rows ++ [row]

/-- `UPDATE`, with the condition on the rows. -/
def updateWhere (cond : α → Bool) (update : α → α) (rows : List α) : List α :=
  rows.map fun r => if cond r then update r else r

end Rows

def startsWith (text start : String) : Bool := start.toList.isPrefixOf text.toList

/-! ## Statements -/

abbrev Ingest := Program Database

open Program

/-- `ON CONFLICT DO NOTHING` on the net and the sequence. -/
def insertEvent (row : EventRow) : Ingest Unit :=
  write fun db => { db with
    events := insertNew (fun r => r.netId = row.netId && r.eventSeq = row.eventSeq) row db.events }

/-- `insert_event_token`: there is nothing to be in conflict with. -/
def insertEventToken (netId : String) (eventSeq : Nat) (tokenId : TokenId) (role : Role)
    (placeId : String) (placeName : Option String) (tokenData : Option Json) : Ingest Unit :=
  write fun db => { db with
    eventTokens := db.eventTokens ++
      [⟨netId, eventSeq, tokenId, role, placeId, placeName, tokenData⟩] }

/-- The processes of some tokens, one entry for each tag. -/
def Database.tagsOf (db : Database) (tokenIds : List TokenId) : List TokenId :=
  (db.processTags.filter fun tag => tag.tokenId ∈ tokenIds).map ProcessTag.processId

/-- A token gets each tag once. -/
def Database.tag (db : Database) (tokenId : TokenId) (processIds : List TokenId) : Database :=
  { db with
    processTags := processIds.foldl (fun tags p =>
      insertNew (fun r => r.tokenId = tokenId && r.processId = p) ⟨tokenId, p⟩ tags) db.processTags }

def Database.process? (db : Database) (processId : TokenId) : Option Process :=
  db.processes.find? (·.processId = processId)

def Database.task? (db : Database) (id : String) : Option Task := db.tasks.find? (·.id = id)

/-- Whether a process is at home in the net. -/
def Database.homedIn (db : Database) (netId : String) (processId : TokenId) : Bool :=
  db.processes.any fun hp => hp.processId = processId && hp.netId = some netId

/-- Produced tokens inherit the processes of the consumed and the read ones. -/
def propagateProcessTags (consumedIds readIds producedIds : List TokenId) : Ingest Unit :=
  if producedIds = [] then pure ()
  else
    let sourceIds := consumedIds ++ readIds
    if sourceIds = [] then pure ()
    else producedIds.forM fun producedId => write fun db => db.tag producedId (db.tagsOf sourceIds)

/-- `resolve_process_ids`: the processes of the tokens that are home in the net, else all of them. -/
def resolveProcessIds (netId : String) (consumedIds readIds : List TokenId) : Ingest (List TokenId) :=
  let sourceIds := consumedIds ++ readIds
  if sourceIds = [] then pure []
  else do
    let homed ← select fun db => ((db.tagsOf sourceIds).filter (db.homedIn netId)).dedup
    if homed ≠ [] then pure homed else select fun db => (db.tagsOf sourceIds).dedup

/-- What `resolve_process_ids` finds. -/
def Database.resolve (db : Database) (netId : String) (sourceIds : List TokenId) : List TokenId :=
  let homed := ((db.tagsOf sourceIds).filter (db.homedIn netId)).dedup
  if homed ≠ [] then homed else (db.tagsOf sourceIds).dedup

/-- Reading which processes are concerned writes nothing. -/
theorem run_resolveProcessIds (netId : String) (consumedIds readIds : List TokenId) (db : Database) :
    (resolveProcessIds netId consumedIds readIds).run db =
      some (db, db.resolve netId (consumedIds ++ readIds)) := by
  unfold resolveProcessIds Database.resolve
  dsimp only
  split
  · next hnil =>
    have htags : db.tagsOf (consumedIds ++ readIds) = [] := by
      rw [hnil, Database.tagsOf, List.map_eq_nil_iff, List.filter_eq_nil_iff]
      intro tag _
      simp
    simp [htags]
  · rw [run_bind, run_select, Option.bind_some]
    dsimp only
    split <;> rfl

variable {db : Database} {p : TokenId} {netId : String} {sourceIds : List TokenId}

theorem Database.mem_tagsOf {tokenIds : List TokenId} :
    p ∈ db.tagsOf tokenIds ↔ ∃ t ∈ tokenIds, (⟨t, p⟩ : ProcessTag) ∈ db.processTags := by
  unfold tagsOf
  rw [List.mem_map]
  constructor
  · rintro ⟨tag, htag, rfl⟩
    obtain ⟨hmem, htoken⟩ := List.mem_filter.mp htag
    exact ⟨tag.tokenId, of_decide_eq_true htoken, hmem⟩
  · rintro ⟨t, ht, hmem⟩
    exact ⟨⟨t, p⟩, List.mem_filter.mpr ⟨hmem, decide_eq_true ht⟩, rfl⟩

/-- Only processes that tag one of the tokens are resolved. -/
theorem Database.mem_resolve (h : p ∈ db.resolve netId sourceIds) : p ∈ db.tagsOf sourceIds := by
  unfold resolve at h
  dsimp only at h
  split at h
  · exact (List.mem_filter.mp (List.mem_dedup.mp h)).1
  · exact List.mem_dedup.mp h

/-- The home filter never leaves a tagged token without a process. -/
theorem Database.resolve_ne_nil (h : db.tagsOf sourceIds ≠ []) : db.resolve netId sourceIds ≠ [] := by
  obtain ⟨p, hp⟩ := List.exists_mem_of_ne_nil _ h
  unfold resolve
  dsimp only
  split
  · assumption
  · exact List.ne_nil_of_mem (List.mem_dedup.mpr hp)

/-- Where a conflict is equality, an insertion adds the row and nothing else. -/
theorem mem_insertNew {α : Type} {conflict : α → Bool} {row x : α} {rows : List α}
    (hconflict : ∀ r, conflict r = true → r = row) :
    x ∈ insertNew conflict row rows ↔ x ∈ rows ∨ x = row := by
  unfold insertNew
  split
  · next hany =>
    obtain ⟨r, hr, hc⟩ := List.any_eq_true.mp hany
    obtain rfl := hconflict r hc
    exact ⟨Or.inl, fun h => h.elim id fun hx => hx ▸ hr⟩
  · rw [List.mem_append, List.mem_singleton]

/-- Tagging adds the tags of the token and keeps those that were there. -/
theorem Database.mem_tag {tokenId : TokenId} {processIds : List TokenId}
    {x : ProcessTag} : x ∈ (db.tag tokenId processIds).processTags ↔
      x ∈ db.processTags ∨ (x.tokenId = tokenId ∧ x.processId ∈ processIds) := by
  have hfold : ∀ (ps : List TokenId) (tags : List ProcessTag), x ∈ ps.foldl (fun tags p =>
      insertNew (fun r => r.tokenId = tokenId && r.processId = p) ⟨tokenId, p⟩ tags) tags ↔
        x ∈ tags ∨ (x.tokenId = tokenId ∧ x.processId ∈ ps) := by
    intro ps
    induction ps with
    | nil =>
      intro tags
      simp
    | cons p ps ih =>
      intro tags
      rw [List.foldl_cons, ih, mem_insertNew, or_assoc, List.mem_cons]
      · refine or_congr_right ?_
        obtain ⟨t, q⟩ := x
        simp only [ProcessTag.mk.injEq]
        constructor
        · rintro (⟨rfl, rfl⟩ | ⟨ht, hq⟩)
          · exact ⟨rfl, Or.inl rfl⟩
          · exact ⟨ht, Or.inr hq⟩
        · rintro ⟨rfl, rfl | hq⟩
          · exact Or.inl ⟨rfl, rfl⟩
          · exact Or.inr ⟨rfl, hq⟩
      · rintro ⟨t, q⟩ hr
        simp only [Bool.and_eq_true, decide_eq_true_eq] at hr
        rw [hr.1, hr.2]
  exact hfold processIds db.processTags

/-- The sending side of a link; a later send takes its place. -/
def linkEgress (signalKey netId : String) (egressSeq : Nat) (linkType : String) : Ingest Unit :=
  write fun db => { db with
    crossLinks := upsert (·.signalKey = signalKey)
      (fun r => { r with egressNet := some netId, egressSeq := some egressSeq })
      ⟨signalKey, some netId, some egressSeq, none, none, linkType⟩ db.crossLinks }

end Causality

end Mekhan
