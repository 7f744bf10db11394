import Mekhan.Causality.Footprint
import Mekhan.Infra.Runs

/-!
# Redelivered events

A message of the event stream comes again until it was processed to its end and acknowledged. The tables
of events, of links and of processes have keys that the second time runs into, but the table of event
tokens has none: an attempt that inserted a token leaves a row that the next one inserts again. The rows
of metrics and of logs, which have no keys either, come after it.
-/

namespace Mekhan

namespace IngestRedelivery

open Infra Program Causality

/-! ## Deliveries -/

/-- A message, and after how many statements each attempt but the last was cut; one that came to its end
was not acknowledged. -/
structure Delivery where
  message : Message
  cuts : List Nat

def Delivery.once (d : Delivery) : Delivery := ⟨d.message, []⟩

def deliver (rd : Reading) (db : Database) (d : Delivery) : Option Database :=
  ((process rd d.message).run ((process rd d.message).retried d.cuts db)).map Prod.fst

/-! ## Attempts that leave nothing behind -/

/-- The statements of an event before its first token is inserted, if it has tokens. -/
def beforeTokens : DomainEvent → Option Nat
  | .transitionFired _ _ consumed produced read _ _ =>
    if consumed = [] ∧ produced = [] ∧ read = [] then none else some 1
  | .effectCompleted _ _ consumed produced _ _ read _ _ =>
    if consumed = [] ∧ produced = [] ∧ read = [] then none else some 1
  | .effectFailed _ _ consumed produced _ _ tokensConsumed _ _ =>
    if tokensConsumed ∧ ¬ (consumed = [] ∧ produced = []) then some 1 else none
  | .tokenCreated .. => some 1
  | .tokenBridgedOut .. => some 2
  | _ => none

section Harmless

variable (rd : Reading)

/-- The entry of new content that an event without tokens registers. -/
def newContent (db : Database) (ctx : ProjectorCtx) : Option CatalogueEntry :=
  (rd.registerCommand ctx.effectResult).bind fun cmd => (coupling cmd).bind fun contentHash =>
    let entry : CatalogueEntry := ⟨ctx.workspaceId, contentHash, cmd.artifactId, cmd.executionId,
      ctx.netId, none, none, ctx.processStep.or cmd.processStep, ctx.seq, db.createdBy? ctx.netId⟩
    if db.catalogue.any entry.sameContent then none else some entry

/-- For an event without tokens that registers new content: the statements before the entry is
committed, and the links after it. -/
def registers (db : Database) (netId : String) (e : PersistedEvent) : Option (Nat × Nat) :=
  match e.event with
  | .effectCompleted transitionId _ _ _ handlerId effectResult _ started completed =>
    if projectorFor handlerId = some .catalogueRegister then
      (newContent rd db ⟨netId, (db.netWorkspace? rd netId).getD 0, e.sequence, transitionId.name, [], [],
        effectResult, completed.or started, e.timestamp⟩).map fun entry =>
          (if (strAt effectResult "signal_key").isSome then 5 else 3, (rd.matched entry).length)
    else none
  | _ => none

/-- An attempt stops before the first token; without tokens, it does not stop between the entry it
commits and the last of its links. -/
def Harmless (m : Message) (db : Database) (n : Nat) : Prop :=
  match m with
  | .bridgeTransfer .. => True
  | .domainEvent netId e =>
    match beforeTokens e.event with
    | some k => n ≤ k
    | none =>
      match registers rd db netId e with
      | some (k, links) => n ≤ k ∨ k + links < n
      | none => True

instance (m : Message) (db : Database) (n : Nat) : Decidable (Harmless rd m db n) := by
  unfold Harmless
  split
  · infer_instance
  · split
    · infer_instance
    · split <;> infer_instance

/-- All attempts of a message but the last are harmless. -/
def HarmlessCuts (db : Database) (d : Delivery) : Prop :=
  (process rd d.message).EachAttempt (Harmless rd d.message) db d.cuts

instance (db : Database) (d : Delivery) : Decidable (HarmlessCuts rd db d) :=
  decidableEachAttempt _ _ _ _

end Harmless

/-! ## Statements that are made twice -/

section Twice

variable {inv : Database → Prop} {db : Database}

theorem any_insertNew {α : Type} {conflict : α → Bool} {row : α} (hrow : conflict row = true)
    (rows : List α) : (insertNew conflict row rows).any conflict = true := by
  unfold insertNew
  split
  · assumption
  · rw [List.any_append]
    simp [hrow]

theorem insertNew_of_any {α : Type} {conflict : α → Bool} {row : α} {rows : List α}
    (h : rows.any conflict = true) : insertNew conflict row rows = rows := if_pos h

theorem insertNew_insertNew {α : Type} {conflict : α → Bool} {row : α} (hrow : conflict row = true)
    {rows : List α} : insertNew conflict row (insertNew conflict row rows) =
      insertNew conflict row rows := insertNew_of_any (any_insertNew hrow rows)

theorem upsert_upsert {α : Type} {conflict : α → Bool} {update : α → α} {row : α} {rows : List α}
    (hconflict : ∀ r, conflict r = true → conflict (update r) = true)
    (hupdate : ∀ r, update (update r) = update r) (hrow : conflict row = true) (hsame : update row = row) :
    upsert conflict update row (upsert conflict update row rows) = upsert conflict update row rows := by
  have hmap : ∀ rs : List α, (∀ r ∈ rs, conflict r = true → update r = r) →
      (rs.map fun r => if conflict r then update r else r) = rs := by
    intro rs hrs
    conv_rhs => rw [← List.map_id rs]
    refine List.map_congr_left fun r hr => ?_
    split
    · next hc => exact hrs r hr hc
    · rfl
  unfold upsert
  by_cases hany : rows.any conflict = true
  · have hany' : (rows.map fun r => if conflict r then update r else r).any conflict = true := by
      obtain ⟨r, hr, hc⟩ := List.any_eq_true.mp hany
      refine List.any_eq_true.mpr ⟨_, List.mem_map_of_mem hr, ?_⟩
      rw [if_pos hc]
      exact hconflict r hc
    rw [if_pos hany, if_pos hany']
    refine hmap _ fun r hr hc => ?_
    obtain ⟨r₀, -, rfl⟩ := List.mem_map.mp hr
    split
    · exact hupdate r₀
    · next hne =>
      rw [if_neg hne] at hc
      exact absurd hc hne
  · rw [if_neg hany, if_pos (by rw [List.any_append]; simp [hrow])]
    refine hmap _ fun r hr hc => ?_
    rcases List.mem_append.mp hr with hold | hnew
    · exact absurd (List.any_eq_true.mpr ⟨r, hold, hc⟩) hany
    · rw [List.mem_singleton.mp hnew, hsame]

/-- The signal has a link, and its egress is this one. -/
def Linked (signalKey netId : String) (seq : Nat) (db : Database) : Prop :=
  (db.crossLinks.any (·.signalKey = signalKey)) = true ∧
    ∀ cl ∈ db.crossLinks, cl.signalKey = signalKey → cl.egressNet = some netId ∧ cl.egressSeq = some seq

def withIngress (signalKey targetNetId : String) (db : Database) : Database :=
  { db with
    crossLinks := upsert (·.signalKey = signalKey) (fun r => { r with ingressNet := some targetNetId })
      ⟨signalKey, none, none, some targetNetId, none, "bridge"⟩ db.crossLinks }

theorem withIngress_withIngress (signalKey targetNetId : String) (db : Database) :
    withIngress signalKey targetNetId (withIngress signalKey targetNetId db) =
      withIngress signalKey targetNetId db := by
  unfold withIngress
  dsimp only
  rw [upsert_upsert]
  · exact fun _ h => h
  · exact fun _ => rfl
  · exact decide_eq_true rfl
  · rfl

/-- What `linkEgress` writes. -/
def withEgress (signalKey netId : String) (seq : Nat) (linkType : String) (db : Database) : Database :=
  { db with
    crossLinks := upsert (·.signalKey = signalKey)
      (fun r => { r with egressNet := some netId, egressSeq := some seq })
      ⟨signalKey, some netId, some seq, none, none, linkType⟩ db.crossLinks }

theorem linkEgress_eq (signalKey netId : String) (seq : Nat) (linkType : String) :
    linkEgress signalKey netId seq linkType = write (withEgress signalKey netId seq linkType) := rfl

theorem linked_withEgress (signalKey netId : String) (seq : Nat) (linkType : String) :
    Linked signalKey netId seq (withEgress signalKey netId seq linkType db) := by
  unfold Linked withEgress upsert
  dsimp only
  split
  · next hany =>
    obtain ⟨cl, hcl, hkey⟩ := List.any_eq_true.mp hany
    refine ⟨List.any_eq_true.mpr ⟨_, List.mem_map_of_mem hcl, ?_⟩, fun cl' hcl' hkey' => ?_⟩
    · rw [if_pos hkey]
      exact hkey
    · obtain ⟨cl₀, -, rfl⟩ := List.mem_map.mp hcl'
      split
      · exact ⟨rfl, rfl⟩
      · next hne =>
        rw [if_neg hne] at hkey'
        exact absurd (decide_eq_true hkey') hne
  · next hany =>
    refine ⟨by simp, fun cl hcl hkey => ?_⟩
    rcases List.mem_append.mp hcl with hold | hnew
    · exact absurd (List.any_eq_true.mpr ⟨cl, hold, decide_eq_true hkey⟩) hany
    · rw [List.mem_singleton.mp hnew]
      exact ⟨rfl, rfl⟩

variable {linkType netId signalKey : String} {seq : Nat}

theorem withEgress_of_linked
    (h : Linked signalKey netId seq db) : withEgress signalKey netId seq linkType db = db := by
  have hsame : db.crossLinks.map (fun r : CrossLink => if decide (r.signalKey = signalKey) = true then
      { r with egressNet := some netId, egressSeq := some seq } else r) = db.crossLinks := by
    conv_rhs => rw [← List.map_id db.crossLinks]
    refine List.map_congr_left fun cl hcl => ?_
    split
    · next hkey =>
      obtain ⟨hnet, hseq⟩ := h.2 cl hcl (of_decide_eq_true hkey)
      rw [← hnet, ← hseq, id]
    · rfl
  unfold withEgress upsert
  rw [if_pos h.1, hsame]

theorem linked_withEgress_of_linked {key : String} (h : Linked signalKey netId seq db) :
    Linked signalKey netId seq (withEgress key netId seq linkType db) := by
  by_cases hkey : key = signalKey
  · rw [hkey]
    exact linked_withEgress signalKey netId seq linkType
  · obtain ⟨hany, hall⟩ := h
    obtain ⟨cl, hcl, hcl'⟩ := List.any_eq_true.mp hany
    unfold Linked withEgress upsert
    dsimp only
    split
    · refine ⟨List.any_eq_true.mpr ⟨_, List.mem_map_of_mem hcl, ?_⟩, fun cl' hmem hkey' => ?_⟩
      · rw [if_neg (by rw [of_decide_eq_true hcl']; simpa using Ne.symm hkey)]
        exact hcl'
      · obtain ⟨cl₀, hcl₀, rfl⟩ := List.mem_map.mp hmem
        split
        · exact ⟨rfl, rfl⟩
        · next hne =>
          rw [if_neg hne] at hkey'
          exact hall cl₀ hcl₀ hkey'
    · refine ⟨List.any_eq_true.mpr ⟨cl, List.mem_append_left _ hcl, hcl'⟩, fun cl' hmem hkey' => ?_⟩
      rcases List.mem_append.mp hmem with hold | hnew
      · exact hall cl' hold hkey'
      · rw [List.mem_singleton.mp hnew] at hkey'
        exact absurd hkey' hkey

end Twice

/-! ## New content -/

section Content

variable (rd : Reading) (ctx : ProjectorCtx) {db : Database}

/-- The links to the subscribers of an entry. -/
def linkMatched (entry : CatalogueEntry) (db : Database) : Database :=
  (rd.matched entry).foldl (fun db key =>
    withEgress key ctx.netId ctx.seq "catalogue_subscription" db) db

theorem catalogue_linkMatched (entry : CatalogueEntry) (db : Database) :
    (linkMatched rd ctx entry db).catalogue = db.catalogue := by
  unfold linkMatched
  generalize rd.matched entry = keys
  induction keys generalizing db with
  | nil => rfl
  | cons key keys ih => exact ih _

def Database.insertEntry (db : Database) (entry : CatalogueEntry) : Database :=
  { db with catalogue := insertNew entry.sameContent entry db.catalogue }

theorem commitEntry_eq (entry : CatalogueEntry) : commitEntry rd ctx entry =
    statement (fun db => some (Database.insertEntry db entry)) fun db =>
      if db.catalogue.any entry.sameContent then pure ()
      else (rd.matched entry).forM fun key =>
        write (withEgress key ctx.netId ctx.seq "catalogue_subscription") := by
  unfold commitEntry
  rw [statement_bind]
  congr 1
  funext db
  show (if (!db.catalogue.any entry.sameContent) = true then _ else _) = _
  cases db.catalogue.any entry.sameContent <;> rfl

theorem sameContent_self (entry : CatalogueEntry) : entry.sameContent entry = true := by
  simp [CatalogueEntry.sameContent]

variable {entry : CatalogueEntry}

theorem run_commitEntry_of_any (h : db.catalogue.any entry.sameContent = true) :
    (commitEntry rd ctx entry).run db = some (db, ()) := by
  rw [commitEntry_eq, run_statement, Option.bind_some, if_pos h]
  show some (Database.insertEntry db entry, ()) = _
  unfold Database.insertEntry
  rw [insertNew_of_any h]

theorem attempt_commitEntry_of_any (h : db.catalogue.any entry.sameContent = true) (n : Nat) :
    (commitEntry rd ctx entry).attempt n db = db := by
  cases n with
  | zero => exact attempt_zero _ _
  | succ n =>
    rw [commitEntry_eq, attempt_statement, Option.elim_some, if_pos h, pure_def, attempt_done]
    unfold Database.insertEntry
    rw [insertNew_of_any h]

theorem resumes_commitEntry {n : Nat}
    (h : db.catalogue.any entry.sameContent = false → n = 0 ∨ (rd.matched entry).length < n) :
    (commitEntry rd ctx entry).Resumes n db := by
  cases hany : db.catalogue.any entry.sameContent with
  | true =>
    unfold Resumes
    rw [attempt_commitEntry_of_any rd ctx hany]
  | false =>
    rcases h hany with rfl | hn
    · exact resumes_zero _ _
    · have hnew : ¬ db.catalogue.any entry.sameContent = true := by rw [hany]; simp
      have hattempt : (commitEntry rd ctx entry).attempt n db =
          linkMatched rd ctx entry (Database.insertEntry db entry) := by
        obtain ⟨n, rfl⟩ := Nat.exists_eq_add_of_lt hn
        rw [commitEntry_eq, attempt_statement, Option.elim_some, if_neg hnew]
        exact attempt_forM_write _ (by omega)
      have hrun : (commitEntry rd ctx entry).run db =
          some (linkMatched rd ctx entry (Database.insertEntry db entry), ()) := by
        rw [commitEntry_eq, run_statement, Option.bind_some, if_neg hnew]
        exact run_forM_write _ _ _
      unfold Resumes
      rw [hattempt, hrun]
      refine run_commitEntry_of_any rd ctx ?_
      rw [catalogue_linkMatched]
      exact any_insertNew (sameContent_self entry) _

end Content

/-! ## Events without tokens -/

section Tokenless

variable (rd : Reading) {ctx : ProjectorCtx} {db : Database}

def instance? (db : Database) (netId : String) : Option WorkflowInstance :=
  db.instances.find? (·.netId = netId)

theorem resolved_nil (hconsumed : ctx.consumedIds = []) (hread : ctx.readIds = []) :
    resolved ctx = pure [] := by
  unfold resolved resolveProcessIds
  simp [hconsumed, hread]

theorem project_idle (hconsumed : ctx.consumedIds = []) (hread : ctx.readIds = [])
    {projector : Projector} (hcatalogue : projector ≠ .catalogueRegister)
    (hspawn : projector ≠ .spawnNet) : projector.project rd ctx = pure () := by
  have hresolved := resolved_nil hconsumed hread
  cases projector with
  | processStart => simp [Projector.project, enrichProcesses, hresolved]
  | processComplete => simp [Projector.project, completeProcesses, hresolved]
  | processFail => simp [Projector.project, failProcesses, hresolved]
  | processPhase => simp [Projector.project, projectPhases, hresolved]
  | processProgress => simp [Projector.project, projectProgress, hresolved]
  | processLogMetric => simp [Projector.project, recordMetricEvents, hresolved]
  | processLogMessage => simp [Projector.project, recordLogEvents, hresolved]
  | humanTask =>
    simp only [Projector.project, recordTaskEvent, hresolved]
    split
    · rfl
    · rfl
  | catalogueRegister => exact absurd rfl hcatalogue
  | spawnNet => exact absurd rfl hspawn

theorem register_eq (hconsumed : ctx.consumedIds = []) (hread : ctx.readIds = []) :
    registerCatalogueEntry rd ctx =
      match rd.registerCommand ctx.effectResult with
      | none => pure ()
      | some cmd =>
        match coupling cmd with
        | none => pure ()
        | some contentHash => select (fun db => db.createdBy? ctx.netId) >>= fun createdBy =>
          commitEntry rd ctx ⟨ctx.workspaceId, contentHash, cmd.artifactId, cmd.executionId, ctx.netId,
            none, none, ctx.processStep.or cmd.processStep, ctx.seq, createdBy⟩ := by
  unfold registerCatalogueEntry
  rw [resolved_nil hconsumed hread, hconsumed]
  cases rd.registerCommand ctx.effectResult with
  | none => rfl
  | some cmd =>
    dsimp only
    cases coupling cmd <;> rfl

theorem always_instances_register :
    (registerCatalogueEntry rd ctx).Always fun db' => db'.instances = db.instances :=
  Blind.always_registerCatalogueEntry rd ctx (fun _ _ h => h) fun _ _ => always_write fun _ h => h

theorem resumes_register (hconsumed : ctx.consumedIds = []) (hread : ctx.readIds = []) {n : Nat}
    (h : ∀ entry, newContent rd db ctx = some entry → n ≤ 1 ∨ 1 + (rd.matched entry).length < n) :
    (registerCatalogueEntry rd ctx).Resumes n db := by
  rw [register_eq rd hconsumed hread]
  cases hcmd : rd.registerCommand ctx.effectResult with
  | none => exact resumes_done _ _ _
  | some cmd =>
    dsimp only
    cases hhash : coupling cmd with
    | none => exact resumes_done _ _ _
    | some contentHash =>
      cases n with
      | zero => exact resumes_zero _ _
      | succ n =>
        have hcreated : ∀ entry, ((commitEntry rd ctx entry).attempt n db).createdBy? ctx.netId =
            db.createdBy? ctx.netId := by
          intro entry
          have hkeep : (commitEntry rd ctx entry).Always fun db' => db'.instances = db.instances :=
            Blind.always_commitEntry rd ctx (fun _ _ h => h) (fun _ _ => always_write fun _ h => h) entry
          unfold Database.createdBy?
          rw [hkeep.attempt rfl]
        refine resumes_select (hcreated _) (resumes_commitEntry rd ctx fun hnew => ?_)
        have hentry : newContent rd db ctx = some ⟨ctx.workspaceId, contentHash, cmd.artifactId,
            cmd.executionId, ctx.netId, none, none, ctx.processStep.or cmd.processStep, ctx.seq,
            db.createdBy? ctx.netId⟩ := by
          simp only [newContent, hcmd, hhash, Option.bind_some]
          rw [if_neg (by rw [hnew]; simp)]
        rcases h _ hentry with hn | hn
        · exact Or.inl (by omega)
        · exact Or.inr (by omega)

theorem instance?_insertNew {netId : String} {parent row : WorkflowInstance}
    (h : instance? db netId = some parent) (conflict : WorkflowInstance → Bool) :
    instance? { db with instances := insertNew conflict row db.instances } netId = some parent := by
  unfold instance? insertNew at *
  dsimp only
  split
  · exact h
  · rw [List.find?_append, h, Option.some_or]

theorem always_instance_spawn {netId : String} (parent : WorkflowInstance) :
    (spawnNet rd ctx).Always fun db' => instance? db' netId = some parent := by
  unfold spawnNet
  split
  · exact always_pure _
  · split
    · exact always_pure _
    · refine (always_select _).bind fun found => ?_
      split
      · exact always_pure _
      · refine (always_select _).bind fun child => ?_
        split
        · exact always_pure _
        · exact always_write fun db' h => instance?_insertNew h _

theorem instance?_attempt_spawn (n : Nat) :
    instance? ((spawnNet rd ctx).attempt n db) ctx.netId = instance? db ctx.netId := by
  cases hparent : instance? db ctx.netId with
  | some parent => exact (always_instance_spawn rd parent).attempt hparent
  | none =>
    -- A net that is no instance's spawns nothing.
    have hsame : (spawnNet rd ctx).attempt n db = db := by
      unfold spawnNet
      split
      · exact attempt_done _ _ _
      · split
        · exact attempt_done _ _ _
        · unfold registerSubworkflowChild
          cases n with
          | zero => exact attempt_zero _ _
          | succ n =>
            rw [attempt_select]
            have hfound : db.instances.find? (·.netId = ctx.netId) = none := hparent
            rw [hfound]
            exact attempt_done _ _ _
    rw [hsame, hparent]

theorem resumes_spawn (n : Nat) : (spawnNet rd ctx).Resumes n db := by
  unfold spawnNet
  split
  · exact resumes_done _ _ _
  · next childNetId hchild =>
    split
    · exact resumes_done _ _ _
    · next nodeId hnode =>
      have hspawn : spawnNet rd ctx = registerSubworkflowChild rd ctx.netId nodeId childNetId := by
        unfold spawnNet
        simp only [hchild, hnode]
      have hinstance : instance? ((spawnNet rd ctx).attempt n db) ctx.netId =
          instance? db ctx.netId := instance?_attempt_spawn rd n
      rw [hspawn] at hinstance
      unfold registerSubworkflowChild at hinstance ⊢
      cases n with
      | zero => exact resumes_zero _ _
      | succ n =>
        refine resumes_select hinstance ?_
        split
        · exact resumes_done _ _ _
        · cases n with
          | zero => exact resumes_zero _ _
          | succ n =>
            refine resumes_select rfl ?_
            split
            · exact resumes_done _ _ _
            · cases n with
              | zero => exact resumes_zero _ _
              | succ n =>
                refine resumes_statement fun db' hdb' => ?_
                rw [← Option.some.inj hdb', attempt_done]
                refine ⟨congrArg some ?_, rfl, resumes_done _ _ _⟩
                dsimp only
                rw [insertNew_insertNew]
                simp

theorem instance?_attempt_project (hconsumed : ctx.consumedIds = []) (hread : ctx.readIds = [])
    (projector : Projector) (n : Nat) :
    instance? ((projector.project rd ctx).attempt n db) ctx.netId = instance? db ctx.netId := by
  by_cases hcatalogue : projector = .catalogueRegister
  · have hkept : ((registerCatalogueEntry rd ctx).attempt n db).instances = db.instances :=
      (always_instances_register rd).attempt rfl
    rw [hcatalogue]
    exact congrArg (List.find? _) hkept
  · by_cases hspawn : projector = .spawnNet
    · rw [hspawn]
      exact instance?_attempt_spawn rd n
    · rw [project_idle rd hconsumed hread hcatalogue hspawn, pure_def, attempt_done]

theorem resumes_project (hconsumed : ctx.consumedIds = []) (hread : ctx.readIds = [])
    {projector : Projector} {n : Nat} (h : projector = .catalogueRegister → ∀ entry,
      newContent rd db ctx = some entry → n ≤ 1 ∨ 1 + (rd.matched entry).length < n) :
    (projector.project rd ctx).Resumes n db := by
  by_cases hcatalogue : projector = .catalogueRegister
  · rw [hcatalogue]
    exact resumes_register rd hconsumed hread (h hcatalogue)
  · by_cases hspawn : projector = .spawnNet
    · rw [hspawn]
      exact resumes_spawn rd n
    · rw [project_idle rd hconsumed hread hcatalogue hspawn]
      exact resumes_done _ _ _

end Tokenless

section Effects

variable (rd : Reading) {netId : String} {ctx : Uuid → ProjectorCtx} {db : Database}

theorem always_dispatch {inv : Database → Prop} (hnet : ∀ w, (ctx w).netId = netId) {seq : Nat}
    (hseq : ∀ w, (ctx w).seq = seq) (hconsumed : ∀ w, (ctx w).consumedIds = [])
    (hread : ∀ w, (ctx w).readIds = []) (hcatalogue : ∀ db x, inv db → inv { db with catalogue := x })
    (hinstances : ∀ db x, inv db → inv { db with instances := x })
    (hlink : ∀ key linkType, (linkEgress key netId seq linkType).Always inv)
    (projector : Option Projector) : (dispatchProjector rd netId ctx projector).Always inv := by
  refine always_dispatchProjector rd (fun workspaceId projector => ?_) projector
  by_cases hregister : projector = .catalogueRegister
  · rw [hregister]
    refine Blind.always_registerCatalogueEntry rd _ hcatalogue fun key linkType => ?_
    rw [hnet, hseq]
    exact hlink key linkType
  · by_cases hspawn : projector = .spawnNet
    · rw [hspawn]
      exact Blind.always_spawnNet rd _ hinstances
    · rw [project_idle rd (hconsumed _) (hread _) hregister hspawn]
      exact always_pure _

theorem resumes_dispatch (hnet : ∀ w, (ctx w).netId = netId) (hconsumed : ∀ w, (ctx w).consumedIds = [])
    (hread : ∀ w, (ctx w).readIds = []) {projector : Option Projector} {n : Nat}
    (h : projector = some .catalogueRegister → ∀ entry,
      newContent rd db (ctx ((db.netWorkspace? rd netId).getD 0)) = some entry →
        n ≤ 2 ∨ 2 + (rd.matched entry).length < n) :
    (dispatchProjector rd netId ctx projector).Resumes n db := by
  cases projector with
  | none => exact resumes_done _ _ _
  | some projector =>
    cases n with
    | zero => exact resumes_zero _ _
    | succ n =>
      refine resumes_select ?_ (resumes_project rd (hconsumed _) (hread _) fun hregister entry hentry => ?_)
      · have hsame : ∀ w, instance? ((projector.project rd (ctx w)).attempt n db) netId =
            instance? db netId := by
          intro w
          rw [← hnet w]
          exact instance?_attempt_project rd (hconsumed w) (hread w) projector n
        have hworkspace : ∀ db' : Database, db'.netWorkspace? rd netId =
            (instance? db' netId).bind fun i => rd.templateWorkspace i.templateId := fun _ => rfl
        rw [hworkspace, hworkspace, hsame]
      · rcases h (congrArg some hregister) entry hentry with hn | hn
        · exact Or.inl (by omega)
        · exact Or.inr (by omega)

end Effects

/-! ## Messages -/

section Messages

variable (rd : Reading) {db : Database}

def withEvent (row : EventRow) (db : Database) : Database :=
  { db with
    events := insertNew (fun r => r.netId = row.netId && r.eventSeq = row.eventSeq) row db.events }

theorem withEvent_withEvent (row : EventRow) (db : Database) :
    withEvent row (withEvent row db) = withEvent row db := by
  unfold withEvent
  dsimp only
  rw [insertNew_insertNew]
  simp

theorem resumes_event (row : EventRow) (rest : Unit → Ingest Unit) {n : Nat} (hn : n ≤ 1) :
    (insertEvent row >>= rest).Resumes n db := by
  cases n with
  | zero => exact resumes_zero _ _
  | succ n =>
    obtain rfl : n = 0 := by omega
    refine resumes_write ?_ (resumes_zero _ _)
    rw [attempt_zero]
    exact withEvent_withEvent row db

theorem resumes_event_then (row : EventRow) (rest : Unit → Ingest Unit) {n : Nat}
    (hkeep : (rest ()).Always fun db' => db'.events = (withEvent row db).events)
    (h : ∀ k, n = k + 1 → (rest ()).Resumes k (withEvent row db)) :
    (insertEvent row >>= rest).Resumes n db := by
  cases n with
  | zero => exact resumes_zero _ _
  | succ n =>
    refine resumes_write ?_ (h n rfl)
    have hevents : ((rest ()).attempt n (withEvent row db)).events = (withEvent row db).events :=
      hkeep.attempt rfl
    show withEvent row ((rest ()).attempt n (withEvent row db)) =
      (rest ()).attempt n (withEvent row db)
    generalize (rest ()).attempt n (withEvent row db) = db' at hevents
    have hany : db'.events.any (fun r => r.netId = row.netId && r.eventSeq = row.eventSeq) = true := by
      rw [hevents]
      exact any_insertNew (by simp) _
    unfold withEvent
    rw [insertNew_of_any hany]

/-- The first event that sends a signal is where the signal was dispatched. -/
def withDispatch (signalKey netId : String) (seq : Nat) (db : Database) : Database :=
  { db with dispatches := insertNew (·.signalKey = signalKey) ⟨signalKey, netId, seq⟩ db.dispatches }

variable {netId signalKey : String} {seq : Nat}

theorem withDispatch_of_any
    (h : db.dispatches.any (·.signalKey = signalKey) = true) : withDispatch signalKey netId seq db = db := by
  unfold withDispatch
  rw [insertNew_of_any h]

theorem resumes_linkSignal_then (rest : Unit → Ingest Unit)
    {n : Nat} (hlinked : (rest ()).Always (Linked signalKey netId seq))
    (hdispatched : (rest ()).Always fun db' => db'.dispatches.any (·.signalKey = signalKey) = true)
    (h : ∀ k, n = k + 2 →
      (rest ()).Resumes k (withDispatch signalKey netId seq (withEgress signalKey netId seq "effect" db))) :
    (linkSignal netId seq (some signalKey) >>= rest).Resumes n db := by
  have hassoc : linkSignal netId seq (some signalKey) >>= rest =
      write (withEgress signalKey netId seq "effect") >>= fun _ =>
        write (withDispatch signalKey netId seq) >>= rest := by
    simp only [linkSignal, linkEgress_eq, bind_assoc]
    rfl
  rw [hassoc]
  cases n with
  | zero => exact resumes_zero _ _
  | succ n =>
    refine resumes_write ?_ ?_
    · have hdispatch : (write (withDispatch signalKey netId seq)).Always (Linked signalKey netId seq) :=
        always_write fun _ h => h
      have hkeep : (write (withDispatch signalKey netId seq) >>= rest).Always
          (Linked signalKey netId seq) := hdispatch.bind fun _ => hlinked
      exact withEgress_of_linked (hkeep.attempt (linked_withEgress signalKey netId seq "effect"))
    · cases n with
      | zero => exact resumes_zero _ _
      | succ n =>
        refine resumes_write ?_ (h n rfl)
        exact withDispatch_of_any (hdispatched.attempt (any_insertNew (by simp) _))

theorem resumes_effect {row : EventRow} {ctx : Uuid → ProjectorCtx}
    (hnet : ∀ w, (ctx w).netId = netId) (hseq : ∀ w, (ctx w).seq = seq)
    (hconsumed : ∀ w, (ctx w).consumedIds = []) (hread : ∀ w, (ctx w).readIds = [])
    {signalKey : Option String} {projector : Option Projector} {n : Nat}
    (h : projector = some .catalogueRegister → ∀ entry,
      newContent rd db (ctx ((db.netWorkspace? rd netId).getD 0)) = some entry →
        n ≤ (if signalKey.isSome then 5 else 3) ∨
          (if signalKey.isSome then 5 else 3) + (rd.matched entry).length < n) :
    (insertEvent row >>= fun _ => linkSignal netId seq signalKey >>= fun _ =>
      dispatchProjector rd netId ctx projector).Resumes n db := by
  have htail : ∀ {inv : Database → Prop}, (∀ db x, inv db → inv { db with catalogue := x }) →
      (∀ db x, inv db → inv { db with instances := x }) →
      (∀ key linkType, (linkEgress key netId seq linkType).Always inv) →
        (dispatchProjector rd netId ctx projector).Always inv := fun hcatalogue hinstances hlink =>
    always_dispatch rd hnet hseq hconsumed hread hcatalogue hinstances hlink projector
  have hevents : (dispatchProjector rd netId ctx projector).Always fun db' =>
      db'.events = (withEvent row db).events :=
    htail (fun _ _ h => h) (fun _ _ h => h) fun _ _ => always_write fun _ h => h
  cases signalKey with
  | none =>
    refine resumes_event_then row _ hevents fun k hk => ?_
    refine resumes_dispatch rd hnet hconsumed hread fun hregister entry hentry => ?_
    rcases h hregister entry hentry with hn | hn
    · simp only [Option.isSome_none, Bool.false_eq_true, if_false] at hn
      exact Or.inl (by omega)
    · simp only [Option.isSome_none, Bool.false_eq_true, if_false] at hn
      exact Or.inr (by omega)
  | some key =>
    have hlinked : (dispatchProjector rd netId ctx projector).Always (Linked key netId seq) :=
      htail (fun _ _ h => h) (fun _ _ h => h) fun _ _ =>
        always_write fun _ h => linked_withEgress_of_linked h
    have hdispatched : (dispatchProjector rd netId ctx projector).Always fun db' =>
        db'.dispatches.any (·.signalKey = key) = true :=
      htail (fun _ _ h => h) (fun _ _ h => h) fun _ _ => always_write fun _ h => h
    refine resumes_event_then row _ ?_ fun k hk => ?_
    · have hlink : (linkSignal netId seq (some key)).Always fun db' =>
          db'.events = (withEvent row db).events := by
        refine Always.bind (always_write fun _ h => ?_) fun _ => always_write fun _ h => ?_
        · exact h
        · exact h
      exact hlink.bind fun _ => hevents
    · refine resumes_linkSignal_then _ hlinked hdispatched fun j hj => ?_
      refine resumes_dispatch rd hnet hconsumed hread fun hregister entry hentry => ?_
      rcases h hregister entry hentry with hn | hn
      · simp only [Option.isSome_some, if_true] at hn
        exact Or.inl (by omega)
      · simp only [Option.isSome_some, if_true] at hn
        exact Or.inr (by omega)

/-- **A message can be processed again after a harmless attempt.** -/
theorem resumes_process {m : Message} {n : Nat} (h : Harmless rd m db n) : (process rd m).Resumes n db := by
  cases m with
  | bridgeTransfer targetNetId signalKey =>
    cases n with
    | zero => exact resumes_zero _ _
    | succ n =>
      refine resumes_statement fun db' hdb' => ?_
      rw [← Option.some.inj hdb', attempt_done]
      exact ⟨congrArg some (withIngress_withIngress signalKey targetNetId db), rfl, resumes_done _ _ _⟩
  | domainEvent netId e =>
    unfold Harmless at h
    dsimp only at h
    unfold process processDomainEvent
    dsimp only
    cases hevent : e.event with
    | transitionFired transitionId transitionName consumed produced read started completed =>
      rw [hevent] at h
      by_cases htokens : consumed = [] ∧ produced = [] ∧ read = []
      · obtain ⟨rfl, rfl, rfl⟩ := htokens
        have hpool : projectPool rd netId [] e.timestamp = pure () := by
          unfold projectPool
          split <;> rfl
        refine resumes_event_then _ _ ?_ fun k _ => ?_
        · show (projectPool rd netId [] e.timestamp).Always _
          rw [hpool]
          exact always_pure _
        · show (projectPool rd netId [] e.timestamp).Resumes k _
          rw [hpool]
          exact resumes_done _ _ _
      · simp only [beforeTokens, if_neg htokens] at h
        exact resumes_event _ _ h
    | effectCompleted transitionId transitionName consumed produced handlerId effectResult read started
        completed =>
      rw [hevent] at h
      by_cases htokens : consumed = [] ∧ produced = [] ∧ read = []
      · obtain ⟨rfl, rfl, rfl⟩ := htokens
        show (insertEvent _ >>= fun _ =>
          linkSignal netId e.sequence (strAt effectResult "signal_key") >>= fun _ =>
            dispatchProjector rd netId (fun w => ⟨netId, w, e.sequence, transitionId.name, [], [],
              effectResult, completed.or started, e.timestamp⟩) (projectorFor handlerId)).Resumes n db
        refine resumes_effect rd ?_ ?_ ?_ ?_ ?_
        · intro w
          rfl
        · intro w
          rfl
        · intro w
          rfl
        · intro w
          rfl
        · intro hregister entry hentry
          have hnew : registers rd db netId e = some
              (if (strAt effectResult "signal_key").isSome then 5 else 3, (rd.matched entry).length) := by
            unfold registers
            rw [hevent]
            dsimp only
            rw [if_pos hregister, hentry, Option.map_some]
          rw [hnew] at h
          exact h
      · simp only [beforeTokens, if_neg htokens] at h
        exact resumes_event _ _ h
    | effectFailed transitionId transitionName consumed produced handlerId message tokensConsumed input
        retryable =>
      rw [hevent] at h
      by_cases htokens : tokensConsumed = true ∧ ¬ (consumed = [] ∧ produced = [])
      · simp only [beforeTokens, if_pos htokens] at h
        exact resumes_event _ _ h
      · have hrest : (if tokensConsumed = true then do
            insertEventTokens netId e.sequence consumed produced []
            propagateProcessTags (consumed.map Prod.snd) [] (tokenIds produced)
          else pure () : Ingest Unit) = pure () := by
          split
          · next hconsumed =>
            obtain ⟨rfl, rfl⟩ := not_not.mp (not_and.mp htokens hconsumed)
            rfl
          · rfl
        refine resumes_event_then _ _ ?_ fun k _ => ?_
        · rw [hrest]
          exact always_pure _
        · rw [hrest]
          exact resumes_done _ _ _
    | tokenCreated token placeId placeName workflowId signalKey dedupId =>
      rw [hevent] at h
      exact resumes_event _ _ h
    | tokenBridgedOut token sourcePlaceId sourcePlaceName targetNetId targetPlaceName transitionId
        signalKey producedByEvent replyTo replyChannels =>
      rw [hevent] at h
      have hn : n ≤ 2 := h
      cases n with
      | zero => exact resumes_zero _ _
      | succ n =>
        refine resumes_write ?_ (resumes_event _ _ (by omega))
        refine withEgress_of_linked (Always.attempt ?_ (linked_withEgress _ _ _ _))
        refine Always.bind (always_write fun _ h => ?_) fun _ => always_write fun _ h => ?_
        · exact h
        · exact h
    | _ => exact resumes_done _ _ _

end Messages

/-! ## Runs -/

/-- **Where no attempt but the last does what cannot be done twice, the tables are those of every message
processed once.** -/
theorem redelivery_invisible (rd : Reading) : ∀ {run : List Delivery} {db : Database},
    Along (deliver rd) (HarmlessCuts rd) db run →
      exec (deliver rd) db run = exec (deliver rd) db (run.map Delivery.once) := by
  intro run
  induction run with
  | nil =>
    intro db _
    rfl
  | cons d run ih =>
    intro db h
    have hdeliver : deliver rd db d = deliver rd db d.once := by
      unfold deliver
      rw [run_retried (process rd d.message) (fun _ _ => resumes_process rd) h.1]
      rfl
    rw [List.map_cons, exec, exec, ← hdeliver]
    cases hstep : deliver rd db d with
    | none => rfl
    | some db' => exact ih (h.2 db' hstep)

/-! ## Tokens that are delivered twice -/

section Repeated

def event (netId : String) (sequence : Nat) (event : DomainEvent) : Message :=
  .domainEvent netId ⟨sequence, ⟨0⟩, event, "", none⟩

def token (n : Nat) : Token := Token.new ⟨BitVec.ofNat 128 n⟩ ⟨0⟩ .unit

def seed : Message := event "mekhan-a" 1 (.tokenCreated (token 1) ⟨"p_start"⟩ (some "p_start") none none none)

def firing : Message :=
  event "mekhan-a" 2 (.transitionFired ⟨"t_start"⟩ none [(⟨"p_start"⟩, (token 1).id)]
    [(⟨"p_main"⟩, token 2)] [] none none)

/-- An artifact is registered by an event without tokens. -/
def registration : Message :=
  event "mekhan-a" 3 (.effectCompleted ⟨"t_register"⟩ none [] [] "catalogue_register" (.obj []) [] none none)

/-- A reading by which an effect registers an artifact that one subscription matches. -/
def registering : Reading :=
  { Reading.plain with
    registerCommand := fun _ =>
      some ⟨"exec", "artifact", some "path", none, none, some "hash", false, none, none⟩
    matched := fun _ => ["cat-sub:w:exec:artifact"] }

/-- Attempts that stop in time, or that were not acknowledged when nothing was left to do. -/
def harmless : List Delivery := [⟨seed, [0, 1, 1]⟩, ⟨firing, [1, 0]⟩, ⟨registration, [3, 1, 5, 5, 2]⟩]

theorem redelivery_invisible_harmless : exec (deliver registering) (.initial []) harmless =
      exec (deliver registering) (.initial []) (harmless.map Delivery.once) :=
  redelivery_invisible registering (by decide)

/-- The firing was processed, but the acknowledgement was lost. -/
def unacknowledged : List Delivery := [⟨seed, []⟩, ⟨firing, [100]⟩]

/-- The tokens of the firing are there twice. -/
theorem unacknowledged_doubles : ∃ db once, exec (deliver .plain) (.initial []) unacknowledged = some db ∧
      exec (deliver .plain) (.initial []) (unacknowledged.map Delivery.once) = some once ∧
        db.eventTokens.length = 5 ∧ once.eventTokens.length = 3 ∧ db ≠ once := by
  have hrun : (exec (deliver .plain) (.initial []) unacknowledged).map (·.eventTokens.length) = some 5 := by
    decide
  have honce : (exec (deliver .plain) (.initial []) (unacknowledged.map Delivery.once)).map
      (·.eventTokens.length) = some 3 := by
    decide
  obtain ⟨db, hdb, hfive⟩ := Option.map_eq_some_iff.mp hrun
  obtain ⟨once, hdb', hthree⟩ := Option.map_eq_some_iff.mp honce
  refine ⟨db, once, hdb, hdb', hfive, hthree, fun heq => ?_⟩
  rw [heq, hthree] at hfive
  exact absurd hfive (by decide)

end Repeated

end IngestRedelivery

end Mekhan
