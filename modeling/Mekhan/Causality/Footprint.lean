import Mekhan.Causality.Ingest

/-!
# What the ingest writes

An invariant of the tables is kept by every part of the ingest that writes none of the columns it is
about. `Blind` collects the columns that only the projections themselves read; what else a part writes
is a hypothesis of its lemma.
-/

namespace Mekhan

namespace Causality

open Infra Program

def Database.homes (db : Database) : List (TokenId × Option String) :=
  db.processes.map fun p => (p.processId, p.netId)

/-- An invariant that does not see the details of the projections. -/
structure Blind (inv : Database → Prop) : Prop where
  events : ∀ db x, inv db → inv { db with events := x }
  dispatches : ∀ db x, inv db → inv { db with dispatches := x }
  lineage : ∀ db x, inv db → inv { db with lineage := x }
  metrics : ∀ db x, inv db → inv { db with metrics := x }
  logs : ∀ db x, inv db → inv { db with logs := x }
  catalogue : ∀ db x, inv db → inv { db with catalogue := x }
  instances : ∀ db x, inv db → inv { db with instances := x }
  processes : ∀ (db : Database) x, (x.map fun p : Process => (p.processId, p.netId)) = db.homes →
    inv db → inv { db with processes := x }

namespace Blind

variable {inv : Database → Prop}

theorem insertEvent (h : Blind inv) (row : EventRow) : (insertEvent row).Always inv :=
  always_write fun db => h.events db _

theorem always_resolveProcessIds (netId : String) (consumedIds readIds : List TokenId) :
    (resolveProcessIds netId consumedIds readIds).Always inv := by
  unfold resolveProcessIds
  dsimp only
  split
  · exact always_pure _
  · refine (always_select _).bind fun homed => ?_
    split
    · exact always_pure _
    · exact always_select _

/-- An update that keeps a process's id and home keeps the homes of all. -/
theorem mapM_homes {update : Process → Option Process} {processId : TokenId}
    (hupdate : ∀ p p', update p = some p' → p'.processId = p.processId ∧ p'.netId = p.netId) :
    ∀ {ps ps' : List Process},
      (ps.mapM fun p => if p.processId = processId then update p else some p) = some ps' →
        (ps'.map fun p => (p.processId, p.netId)) = ps.map fun p => (p.processId, p.netId) := by
  intro ps
  induction ps with
  | nil =>
    intro ps' h
    rw [List.mapM_nil] at h
    rw [← Option.some.inj h]
  | cons p ps ih =>
    intro ps' h
    rw [List.mapM_cons] at h
    obtain ⟨p', hp', h⟩ := Option.bind_eq_some_iff.mp h
    obtain ⟨ps₁, hps₁, h⟩ := Option.bind_eq_some_iff.mp h
    rw [← Option.some.inj h, List.map_cons, List.map_cons, ih hps₁]
    have hsame : p'.processId = p.processId ∧ p'.netId = p.netId := by
      split at hp'
      · exact hupdate p p' hp'
      · rw [← Option.some.inj hp']
        exact ⟨rfl, rfl⟩
    rw [hsame.1, hsame.2]

theorem updateProcess (h : Blind inv) (processId : TokenId) {update : Process → Option Process}
    (hupdate : ∀ p p', update p = some p' → p'.processId = p.processId ∧ p'.netId = p.netId) :
    (updateProcess processId update).Always inv := by
  refine always_tryWrite fun db db' hdb hexec => ?_
  obtain ⟨ps, hps, rfl⟩ := Option.map_eq_some_iff.mp hexec
  exact h.processes db ps (mapM_homes hupdate hps) hdb

section

variable (rd : Reading) (ctx : ProjectorCtx)

theorem writeProgress (h : Blind inv) (processId : TokenId) (progress : Progress) (ts : DateTime) :
    (writeProgress rd processId progress ts).Always inv := by
  refine h.updateProcess processId fun p p' hp' => ?_
  obtain ⟨config, -, rfl⟩ := Option.map_eq_some_iff.mp hp'
  exact ⟨rfl, rfl⟩

theorem always_loadProgress (processId : TokenId) (ts : DateTime) :
    (loadProgress rd processId ts).Always inv := always_select _

theorem recordPhaseEvent (h : Blind inv) (processIds : List TokenId) (name : String)
    (status : PhaseStatus) (message : Option String) (ts : DateTime) :
    (recordPhaseEvent rd processIds name status message ts).Always inv := by
  unfold Causality.recordPhaseEvent
  split
  · exact always_pure _
  · exact always_forM fun pid _ => (always_loadProgress rd pid ts).bind fun _ => h.writeProgress rd _ _ _

theorem recordProgressEvent (h : Blind inv) (processIds : List TokenId) (fraction : F64)
    (message : Option String) (current total : Nat) (ts : DateTime) :
    (recordProgressEvent rd processIds fraction message current total ts).Always inv :=
  always_forM fun pid _ => (always_loadProgress rd pid ts).bind fun _ => h.writeProgress rd _ _ _

theorem closeRunningPhases (h : Blind inv) (processId : TokenId) (status : PhaseStatus)
    (ts : DateTime) : (closeRunningPhases rd processId status ts).Always inv := by
  refine (always_loadProgress rd processId ts).bind fun progress => ?_
  split
  · exact h.writeProgress rd _ _ _
  · exact always_pure _

theorem always_resolved : (resolved ctx).Always inv := always_resolveProcessIds _ _ _

theorem enrichProcesses (h : Blind inv) : (enrichProcesses ctx).Always inv := by
  refine (always_resolved ctx).bind fun processIds => always_forM fun pid _ => ?_
  refine h.updateProcess pid fun p p' hp' => ?_
  rw [← Option.some.inj hp']
  exact ⟨rfl, rfl⟩

theorem completeProcesses (h : Blind inv) : (completeProcesses rd ctx).Always inv := by
  refine (always_resolved ctx).bind fun processIds => always_forM fun pid _ => ?_
  refine (h.updateProcess pid fun p p' hp' => ?_).bind fun _ => h.closeRunningPhases rd _ _ _
  rw [← Option.some.inj hp']
  exact ⟨rfl, rfl⟩

theorem failProcesses (h : Blind inv) : (failProcesses rd ctx).Always inv := by
  refine (always_resolved ctx).bind fun processIds => always_forM fun pid _ => ?_
  refine h.updateProcess pid fun p p' hp' => ?_
  obtain ⟨config, -, rfl⟩ := Option.map_eq_some_iff.mp hp'
  exact ⟨rfl, rfl⟩

theorem projectPhases (h : Blind inv) : (projectPhases rd ctx).Always inv := by
  unfold Causality.projectPhases
  dsimp only
  split
  · exact always_pure _
  · refine (always_resolved ctx).bind fun processIds => ?_
    split
    · exact always_pure _
    · exact always_forM fun c _ => h.recordPhaseEvent rd _ _ _ _ _

theorem projectProgress (h : Blind inv) : (projectProgress rd ctx).Always inv := by
  unfold Causality.projectProgress
  dsimp only
  split
  · exact always_pure _
  · refine (always_resolved ctx).bind fun processIds => ?_
    split
    · exact always_pure _
    · exact always_forM fun u _ => h.recordProgressEvent rd _ _ _ _ _ _

theorem always_resolveSignalKey (consumedIds : List TokenId) : (resolveSignalKey consumedIds).Always inv := by
  unfold resolveSignalKey
  split
  · exact always_pure _
  · exact always_select _

theorem recordMetricEvents (h : Blind inv) : (recordMetricEvents rd ctx).Always inv := by
  unfold Causality.recordMetricEvents
  dsimp only
  split
  · exact always_pure _
  · refine (always_resolved ctx).bind fun processIds => ?_
    split
    · exact always_pure _
    · refine (always_resolveSignalKey _).bind fun key => ?_
      exact always_forM fun pid _ => always_forM fun point _ => always_write fun db => h.metrics db _

theorem recordLogEvents (h : Blind inv) : (recordLogEvents rd ctx).Always inv := by
  unfold Causality.recordLogEvents
  dsimp only
  split
  · exact always_pure _
  · refine (always_resolved ctx).bind fun processIds => ?_
    split
    · exact always_pure _
    · refine (always_resolveSignalKey _).bind fun key => ?_
      exact always_forM fun pid _ => always_forM fun r _ => always_write fun db => h.logs db _

theorem always_sourcePlace (tokenId : Option TokenId) : (sourcePlace tokenId).Always inv := by
  cases tokenId with
  | none => exact always_pure _
  | some tokenId => exact always_select _

theorem always_commitEntry (hcatalogue : ∀ db x, inv db → inv { db with catalogue := x })
    (hlink : ∀ key linkType, (linkEgress key ctx.netId ctx.seq linkType).Always inv)
    (entry : CatalogueEntry) : (commitEntry rd ctx entry).Always inv := by
  refine Always.bind ?_ fun newly => ?_
  · intro db hdb
    refine ⟨fun db' hdb' => ?_, always_pure _⟩
    rw [← Option.some.inj hdb']
    exact hcatalogue db _ hdb
  · split
    · exact always_forM fun key _ => hlink key _
    · exact always_pure _

theorem always_registerCatalogueEntry (hcatalogue : ∀ db x, inv db → inv { db with catalogue := x })
    (hlink : ∀ key linkType, (linkEgress key ctx.netId ctx.seq linkType).Always inv) :
    (registerCatalogueEntry rd ctx).Always inv := by
  unfold Causality.registerCatalogueEntry
  split
  · exact always_pure _
  · refine (always_resolved ctx).bind fun processIds => ?_
    refine (always_sourcePlace _).bind fun place => ?_
    split
    · exact always_pure _
    · exact (always_select _).bind fun createdBy => always_commitEntry rd ctx hcatalogue hlink _

theorem always_spawnNet (hinstances : ∀ db x, inv db → inv { db with instances := x }) :
    (spawnNet rd ctx).Always inv := by
  unfold Causality.spawnNet
  split
  · exact always_pure _
  · split
    · exact always_pure _
    · refine (always_select _).bind fun parent => ?_
      split
      · exact always_pure _
      · refine (always_select _).bind fun child => ?_
        split
        · exact always_pure _
        · exact always_write fun db => hinstances db _

/-- Every projector but that of tasks keeps what is blind to its tables. -/
theorem project_of_ne (h : Blind inv)
    (hlink : ∀ key linkType, (linkEgress key ctx.netId ctx.seq linkType).Always inv)
    {projector : Projector} (hne : projector ≠ .humanTask) : (projector.project rd ctx).Always inv := by
  cases projector with
  | processStart => exact h.enrichProcesses ctx
  | processComplete => exact h.completeProcesses rd ctx
  | processFail => exact h.failProcesses rd ctx
  | processPhase => exact h.projectPhases rd ctx
  | processProgress => exact h.projectProgress rd ctx
  | processLogMetric => exact h.recordMetricEvents rd ctx
  | processLogMessage => exact h.recordLogEvents rd ctx
  | humanTask => exact absurd rfl hne
  | catalogueRegister => exact always_registerCatalogueEntry rd ctx h.catalogue hlink
  | spawnNet => exact always_spawnNet rd ctx h.instances

end

end Blind

section Parts

variable {inv : Database → Prop}

theorem always_insertEventTokens {netId : String} {seq : Nat} {consumed : List (PlaceId × TokenId)}
    {produced read : List (PlaceId × Token)} (h : ∀ db (row : EventTokenRow), row.netId = netId →
      row.tokenId ∈ consumed.map Prod.snd ++ tokenIds produced ++ tokenIds read →
        inv db → inv { db with eventTokens := db.eventTokens ++ [row] }) :
    (insertEventTokens netId seq consumed produced read).Always inv := by
  refine Always.bind (always_forM fun t ht => ?_) fun _ =>
    Always.bind (always_forM fun t ht => ?_) fun _ => always_forM fun t ht => ?_
  · refine always_write fun db => h db _ rfl ?_
    simp only [List.mem_append]
    exact Or.inl (Or.inl (List.mem_map_of_mem ht))
  · refine always_write fun db => h db _ rfl ?_
    simp only [List.mem_append]
    exact Or.inl (Or.inr (List.mem_map_of_mem ht))
  · refine always_write fun db => h db _ rfl ?_
    simp only [List.mem_append]
    exact Or.inr (List.mem_map_of_mem ht)

theorem always_propagateProcessTags {consumedIds readIds producedIds : List TokenId}
    (h : ∀ db, ∀ t ∈ producedIds, inv db → inv (db.tag t (db.tagsOf (consumedIds ++ readIds)))) :
    (propagateProcessTags consumedIds readIds producedIds).Always inv := by
  unfold propagateProcessTags
  dsimp only
  split
  · exact always_pure _
  · split
    · exact always_pure _
    · exact always_forM fun t ht => always_write fun db => h db t ht

theorem always_linkSignal (hb : Blind inv) {netId : String} {seq : Nat}
    (h : ∀ key linkType, (linkEgress key netId seq linkType).Always inv) (signalKey : Option String) :
    (linkSignal netId seq signalKey).Always inv := by
  cases signalKey with
  | none => exact always_pure _
  | some key => exact (h key _).bind fun _ => always_write fun db => hb.dispatches db _

theorem always_insertLineage (hb : Blind inv) (netId signalKey : String) (seq : Nat) :
    (insertLineage netId signalKey seq).Always inv := by
  refine always_write fun db hdb => ?_
  split
  · exact hdb
  · exact hb.lineage db _ hdb

theorem always_insertTask (htasks : ∀ db x, inv db → inv { db with tasks := x }) (task : Task)
    (onConflict : Task → Task) : (tryWrite fun db => db.insertTask task onConflict).Always inv := by
  refine always_tryWrite fun db db' hdb hexec => ?_
  unfold Database.insertTask at hexec
  split at hexec
  · rw [← Option.some.inj hexec]
    exact htasks db _ hdb
  · split at hexec
    · rw [← Option.some.inj hexec]
      exact htasks db _ hdb
    · cases hexec

theorem always_recordTaskEvent (htasks : ∀ db x, inv db → inv { db with tasks := x }) (rd : Reading)
    (ctx : ProjectorCtx) : (recordTaskEvent rd ctx).Always inv := by
  unfold recordTaskEvent
  split
  · exact always_pure _
  · refine (Blind.always_resolved ctx).bind fun processIds => ?_
    dsimp only
    split
    · exact always_pure _
    · exact (always_select _).bind fun workspaceId => always_insertTask htasks _ _

theorem always_projectPoolTaskState (htasks : ∀ db x, inv db → inv { db with tasks := x }) (rd : Reading)
    (netId : String) (placeName : Option String) (tokenId : TokenId) (data : Json) (ts : DateTime) :
    (projectPoolTaskState rd netId placeName tokenId data ts).Always inv := by
  unfold projectPoolTaskState
  split
  · unfold projectOffer
    split
    · exact always_pure _
    · refine Always.bind ?_ fun workspaceId => (Blind.always_resolveProcessIds _ _ _).bind fun ids => ?_
      · unfold resolveCapacityWorkspace
        split
        · exact always_pure _
        · exact always_select _
      · split
        · exact always_pure _
        · exact always_insertTask htasks _ _
  · unfold projectHold
    split
    · exact always_pure _
    · exact always_write fun db => htasks db _
  · exact always_pure _

theorem always_projectPool (htasks : ∀ db x, inv db → inv { db with tasks := x }) (rd : Reading)
    (netId : String) (tokens : List (Option String × Token)) (ts : DateTime) :
    (projectPool rd netId tokens ts).Always inv := by
  unfold projectPool
  split
  · exact always_forM fun t _ => always_projectPoolTaskState htasks rd netId _ _ _ _
  · exact always_pure _

theorem always_dispatchProjector (rd : Reading) {netId : String} {ctx : Uuid → ProjectorCtx}
    (h : ∀ workspaceId (projector : Projector), (projector.project rd (ctx workspaceId)).Always inv)
    (projector : Option Projector) : (dispatchProjector rd netId ctx projector).Always inv := by
  cases projector with
  | none => exact always_pure _
  | some projector => exact (always_select _).bind fun workspaceId => h workspaceId projector

end Parts

end Causality

end Mekhan
