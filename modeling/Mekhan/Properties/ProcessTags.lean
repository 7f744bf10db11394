import Mekhan.Causality.Footprint
import Mekhan.Infra.Runs

/-!
# Process tags and shared pools

A token of a pool has the tags of every instance that held the unit, and a signal of a pool brings a net
only the tags of processes that are home there. What a signal brings is looked up by its key alone: the
link of a key names the net that sent it last. `scheduler_submit` makes the key from the id of the node
and the number of the run, which all instances of a template share, so a link of one instance may name
another, and no quarantine applies to what is no pool.
-/

namespace Mekhan

namespace ProcessTags

open Infra Program Causality

/-! ## Deliveries -/

/-- A message is processed to its end, or only by its first statements. -/
inductive Delivery where
  | complete (m : Message)
  | cut (n : Nat) (m : Message)

def Delivery.message : Delivery → Message
  | complete m => m
  | cut _ m => m

def step (rd : Reading) (db : Database) : Delivery → Option Database
  | .complete m => ((process rd m).run db).map Prod.fst
  | .cut n m => some ((process rd m).attempt n db)

/-! ## Nets and their tokens -/

def tokensOf : DomainEvent → List TokenId
  | .transitionFired _ _ consumed produced read _ _ =>
    consumed.map Prod.snd ++ tokenIds produced ++ tokenIds read
  | .effectCompleted _ _ consumed produced _ _ read _ _ =>
    consumed.map Prod.snd ++ tokenIds produced ++ tokenIds read
  | .effectFailed _ _ consumed produced _ _ _ _ _ => consumed.map Prod.snd ++ tokenIds produced
  | .tokenCreated token _ _ _ _ _ => [token.id]
  | .tokenBridgedOut token _ _ _ _ _ _ _ _ _ => [token.id]
  | _ => []

/-- An event is about tokens of its own net. -/
def Owned (owner : TokenId → String) : Message → Prop
  | .domainEvent netId e => ∀ t ∈ tokensOf e.event, owner t = netId
  | .bridgeTransfer .. => True

instance (owner : TokenId → String) : (m : Message) → Decidable (Owned owner m)
  | .domainEvent netId e => inferInstanceAs (Decidable (∀ t ∈ tokensOf e.event, owner t = netId))
  | .bridgeTransfer .. => inferInstanceAs (Decidable True)

/-- The nets that sent a signal, as the links of its key say, or the catalogue where there is none. -/
def senders (db : Database) (signalKey : String) : List String :=
  match db.crossLinks.filter (·.signalKey = signalKey) with
  | [] => ((subscriptionArtifact signalKey).bind fun artifact =>
      (db.catalogue.find? fun ce => ce.executionId = artifact.1 && ce.id = artifact.2).map
        CatalogueEntry.sourceNet).toList
  | links => links.filterMap CrossLink.egressNet

/-- The senders of a signal that comes to the net are the net itself and pools. -/
def SentHome (a : String) (db : Database) : Message → Prop
  | .domainEvent netId e =>
    match e.event with
    | .tokenCreated _ _ _ _ (some signalKey) _ =>
      netId = a → ∀ net ∈ senders db signalKey, net = a ∨ startsWith net "pool-" = true
    | _ => True
  | .bridgeTransfer .. => True

instance (a : String) (db : Database) : (m : Message) → Decidable (SentHome a db m)
  | .domainEvent netId e => by
    unfold SentHome
    dsimp only
    split <;> infer_instance
  | .bridgeTransfer .. => inferInstanceAs (Decidable True)

/-- No token of one net is tagged with a process that is home in the other, and no event of it resolves
to one. -/
structure Isolated (owner : TokenId → String) (a b : String) (db : Database) : Prop where
  tags : ∀ tag ∈ db.processTags, owner tag.tokenId = a → db.homedIn b tag.processId = false
  resolved : ∀ tokens : List TokenId, (∀ t ∈ tokens, owner t = a) → ∀ p ∈ db.resolve a tokens,
    db.homedIn b p = false

/-! ## What the tables keep -/

/-- Processes are home where their first token is, event tokens where their event is, and the tags of the
net's tokens are of its own processes. -/
structure Tagged (owner : TokenId → String) (a : String) (db : Database) : Prop where
  homes : ∀ home ∈ db.homes, home.2 = some (owner home.1)
  tokens : ∀ et ∈ db.eventTokens, owner et.tokenId = et.netId
  tags : ∀ tag ∈ db.processTags, owner tag.tokenId = a → owner tag.processId = a

variable {owner : TokenId → String} {a b : String} {db : Database}

theorem Tagged.isolated (h : Tagged owner a db) (hab : a ≠ b) : Isolated owner a b db := by
  have hhome : ∀ p, owner p = a → db.homedIn b p = false := by
    intro p hp
    by_contra hhomed
    obtain ⟨row, hrow, hid⟩ := List.any_eq_true.mp (Bool.not_eq_false _ ▸ hhomed)
    simp only [Bool.and_eq_true, decide_eq_true_eq] at hid
    have hnet := h.homes (row.processId, row.netId) (List.mem_map_of_mem hrow)
    rw [hid.1, hid.2, hp] at hnet
    exact hab (Option.some.inj hnet).symm
  refine ⟨fun tag htag howner => hhome _ (h.tags tag htag howner), fun tokens howner p hp => ?_⟩
  obtain ⟨t, ht, htag⟩ := Database.mem_tagsOf.mp (Database.mem_resolve hp)
  exact hhome p (h.tags _ htag (howner t ht))

theorem blind_tagged : Blind (Tagged owner a) where
  events _ _ h := ⟨h.homes, h.tokens, h.tags⟩
  dispatches _ _ h := ⟨h.homes, h.tokens, h.tags⟩
  lineage _ _ h := ⟨h.homes, h.tokens, h.tags⟩
  metrics _ _ h := ⟨h.homes, h.tokens, h.tags⟩
  logs _ _ h := ⟨h.homes, h.tokens, h.tags⟩
  catalogue _ _ h := ⟨h.homes, h.tokens, h.tags⟩
  instances _ _ h := ⟨h.homes, h.tokens, h.tags⟩
  processes db x hx h := by
    refine ⟨fun home hhome => h.homes home ?_, h.tokens, h.tags⟩
    rw [← hx]
    exact hhome

theorem tagged_tasks (db : Database) (x : List Task) (h : Tagged owner a db) :
    Tagged owner a { db with tasks := x } := ⟨h.homes, h.tokens, h.tags⟩

theorem tagged_crossLinks (db : Database) (x : List CrossLink) (h : Tagged owner a db) :
    Tagged owner a { db with crossLinks := x } := ⟨h.homes, h.tokens, h.tags⟩

theorem always_linkEgress (signalKey netId : String) (seq : Nat) (linkType : String) :
    (linkEgress signalKey netId seq linkType).Always (Tagged owner a) :=
  always_write fun db => tagged_crossLinks db _

theorem tagged_tag (h : Tagged owner a db) {t : TokenId} {ps : List TokenId}
    (hps : owner t = a → ∀ p ∈ ps, owner p = a) : Tagged owner a (db.tag t ps) := by
  refine ⟨h.homes, h.tokens, fun tag htag howner => ?_⟩
  rcases Database.mem_tag.mp htag with hold | ⟨ht, hp⟩
  · exact h.tags tag hold howner
  · rw [ht] at howner
    exact hps howner _ hp

theorem tagged_insertEventToken (h : Tagged owner a db) {row : EventTokenRow}
    (hrow : owner row.tokenId = row.netId) :
    Tagged owner a { db with eventTokens := db.eventTokens ++ [row] } := by
  refine ⟨h.homes, fun et het => ?_, h.tags⟩
  rcases List.mem_append.mp het with hold | hnew
  · exact h.tokens et hold
  · rw [List.mem_singleton.mp hnew]
    exact hrow

/-! ## Parts of the ingest -/

variable {netId : String} {seq : Nat}

variable {consumed : List (PlaceId × TokenId)} {produced read : List (PlaceId × Token)}
  {db' : Database} {signalKey : String}

theorem always_tokens
    (h : ∀ t ∈ consumed.map Prod.snd ++ tokenIds produced ++ tokenIds read, owner t = netId) :
    (insertEventTokens netId seq consumed produced read).Always (Tagged owner a) :=
  always_insertEventTokens fun _ row hnet htoken hdb =>
    tagged_insertEventToken hdb ((h row.tokenId htoken).trans hnet.symm)

theorem always_propagate
    (h : ∀ t ∈ consumed.map Prod.snd ++ tokenIds produced ++ tokenIds read, owner t = netId) :
    (propagateProcessTags (consumed.map Prod.snd) (tokenIds read) (tokenIds produced)).Always
      (Tagged owner a) := by
  refine always_propagateProcessTags fun db t ht hdb => tagged_tag hdb fun howner p hp => ?_
  have hproduced : owner t = netId := h t (List.mem_append_left _ (List.mem_append_right _ ht))
  obtain ⟨s, hs, htag⟩ := Database.mem_tagsOf.mp hp
  refine hdb.tags _ htag ?_
  rw [← howner, hproduced]
  rcases List.mem_append.mp hs with hconsumed | hread
  · exact h s (List.mem_append_left _ (List.mem_append_left _ hconsumed))
  · exact h s (List.mem_append_right _ hread)

theorem always_project (rd : Reading) (ctx : ProjectorCtx) (projector : Projector) :
    (projector.project rd ctx).Always (Tagged owner a) := by
  by_cases htask : projector = .humanTask
  · subst htask
    exact always_recordTaskEvent tagged_tasks rd ctx
  · exact blind_tagged.project_of_ne rd ctx (fun key linkType => always_linkEgress _ _ _ _) htask

theorem always_seedToken (rd : Reading) {netId : String} {ts : DateTime} {token : Token}
    (howner : owner token.id = netId) : (seedToken rd netId ts token).Always (Tagged owner a) := by
  refine Always.bind (always_write fun db hdb => tagged_tag hdb fun htoken p hp => ?_) fun _ => ?_
  · rw [List.mem_singleton.mp hp]
    exact htoken
  · refine always_tryWrite fun db db' hdb hexec => ?_
    obtain ⟨instanceId, -, rfl⟩ := Option.map_eq_some_iff.mp hexec
    refine ⟨fun home hhome => ?_, hdb.tokens, hdb.tags⟩
    obtain ⟨p, hp, rfl⟩ := List.mem_map.mp hhome
    unfold upsert at hp
    split at hp
    · obtain ⟨p₀, hp₀, rfl⟩ := List.mem_map.mp hp
      have hnet : p₀.netId = some (owner p₀.processId) :=
        hdb.homes (p₀.processId, p₀.netId) (List.mem_map_of_mem hp₀)
      split
      · simp only [hnet, Option.some_or]
      · exact hnet
    · rcases List.mem_append.mp hp with hold | hnew
      · exact hdb.homes (p.processId, p.netId) (List.mem_map_of_mem hold)
      · rw [List.mem_singleton.mp hnew, ← howner]

theorem tagged_inherit (h : Tagged owner a db) {netId signalKey : String} {token : TokenId}
    (howner : owner token = netId) (hhome : netId = a → ∀ cl ∈ db.crossLinks,
      cl.signalKey = signalKey → ∀ net, cl.egressNet = some net → net = a ∨ startsWith net "pool-" = true) :
    (inheritTags netId signalKey token).Safe (Tagged owner a) db := by
  refine ⟨h, fun db' hdb' => ?_⟩
  rw [← Option.some.inj hdb']
  refine tagged_tag h fun htoken p hp => ?_
  have hnet : netId = a := howner.symm.trans htoken
  obtain ⟨cl, hcl, hp⟩ := List.mem_flatMap.mp hp
  obtain ⟨hcl, hkey⟩ := List.mem_filter.mp hcl
  obtain ⟨hp, hquarantine⟩ := List.mem_filter.mp hp
  obtain ⟨s, hs, hp⟩ := List.mem_flatMap.mp hp
  obtain ⟨et, het, rfl⟩ := List.mem_map.mp hs
  obtain ⟨het, hsent⟩ := List.mem_filter.mp het
  simp only [Bool.and_eq_true, decide_eq_true_eq] at hsent
  rcases hhome hnet cl hcl (of_decide_eq_true hkey) et.netId hsent.1.symm with hself | hpool
  · -- The net sent it to itself.
    obtain ⟨t, ht, htag⟩ := Database.mem_tagsOf.mp hp
    rw [List.mem_singleton.mp ht] at htag
    exact h.tags _ htag ((h.tokens et het).trans hself)
  · -- A pool sent it: only what is home here passes the quarantine.
    rw [← hsent.1, Option.any_some, hpool, Bool.not_true, Bool.false_or] at hquarantine
    obtain ⟨row, hrow, hid⟩ := List.any_eq_true.mp hquarantine
    simp only [Bool.and_eq_true, Bool.or_eq_true, decide_eq_true_eq] at hid
    have hrowHome := h.homes (row.processId, row.netId) (List.mem_map_of_mem hrow)
    rcases hid.2 with hhere | hnowhere
    · rw [hhere, hid.1, hnet] at hrowHome
      exact (Option.some.inj hrowHome).symm
    · rw [hnowhere] at hrowHome
      cases hrowHome

def linkSignalled (netId signalKey : String) (seq : Nat) : Ingest Unit := do
  let linked ← linkIngress netId signalKey seq
  insertLineage netId signalKey seq
  backfillLink linked netId signalKey seq

theorem signalledToken_eq (netId : String) (seq : Nat) (ts : DateTime) (token : Token)
    (signalKey : String) : signalledToken netId seq ts token signalKey =
      linkSignalled netId signalKey seq >>= fun _ => inheritTags netId signalKey token.id >>= fun _ =>
        completeTask signalKey (extractTaskStatus token.color) ts := by
  simp only [signalledToken, linkSignalled, bind_assoc]

theorem always_linkSignalled (netId signalKey : String) (seq : Nat) :
    (linkSignalled netId signalKey seq).Always (Tagged owner a) := by
  refine Always.bind ?_ fun linked => (always_insertLineage blind_tagged _ _ _).bind fun _ => ?_
  · intro db hdb
    refine ⟨fun db' hdb' => ?_, always_pure _⟩
    rw [← Option.some.inj hdb']
    exact tagged_crossLinks db _ hdb
  · unfold backfillLink
    split
    · exact always_pure _
    · refine always_write fun db hdb => ?_
      split
      · exact hdb
      · exact tagged_crossLinks db _ hdb

theorem run_insertLineage (h : (insertLineage netId signalKey seq).run db = some (db', ())) :
    db'.crossLinks = db.crossLinks ∧ db'.catalogue = db.catalogue := by
  obtain rfl := (Prod.mk.inj (Option.some.inj h)).1
  dsimp only
  split <;> exact ⟨rfl, rfl⟩

theorem run_linkSignalled (h : (linkSignalled netId signalKey seq).run db = some (db', ())) :
    ∀ cl ∈ db'.crossLinks, cl.signalKey = signalKey → ∀ net, cl.egressNet = some net →
      net ∈ senders db signalKey := by
  unfold linkSignalled at h
  obtain ⟨db₁, linked, hlink, h⟩ := run_bind_eq_some.mp h
  obtain ⟨db₂, ⟨⟩, hlineage, hbackfill⟩ := run_bind_eq_some.mp h
  obtain ⟨hdb₁, hlinked⟩ := Prod.mk.inj (Option.some.inj hlink)
  obtain ⟨hlinks, hcatalogue⟩ := run_insertLineage hlineage
  have holds : ∀ cl ∈ db₂.crossLinks, cl.signalKey = signalKey → ∃ cl₀ ∈ db.crossLinks,
      cl₀.signalKey = signalKey ∧ cl₀.egressNet = cl.egressNet := by
    intro cl hcl hkey
    rw [hlinks, ← hdb₁] at hcl
    obtain ⟨cl₀, hcl₀, rfl⟩ := List.mem_map.mp hcl
    refine ⟨cl₀, hcl₀, ?_⟩
    split at hkey
    · exact ⟨hkey, by rw [if_pos (by assumption)]⟩
    · exact ⟨hkey, by rw [if_neg (by assumption)]⟩
  have hkept : ∀ cl ∈ db₂.crossLinks, cl.signalKey = signalKey → ∀ net, cl.egressNet = some net →
      net ∈ senders db signalKey := by
    intro cl hcl hkey net hnet
    obtain ⟨cl₀, hcl₀, hkey₀, hnet₀⟩ := holds cl hcl hkey
    have hmem : cl₀ ∈ db.crossLinks.filter (·.signalKey = signalKey) :=
      List.mem_filter.mpr ⟨hcl₀, decide_eq_true hkey₀⟩
    unfold senders
    split
    · next hnil =>
      rw [hnil] at hmem
      cases hmem
    · exact List.mem_filterMap.mpr ⟨cl₀, hmem, hnet₀.trans hnet⟩
  unfold backfillLink at hbackfill
  split at hbackfill
  · obtain rfl := (Prod.mk.inj (Option.some.inj hbackfill)).1
    exact hkept
  · next execId artId hartifact =>
    obtain rfl := (Prod.mk.inj (Option.some.inj hbackfill)).1
    cases hfalse : linked with
    | true =>
      rw [hfalse, if_pos rfl] at hartifact
      cases hartifact
    | false =>
      rw [hfalse, if_neg (by simp)] at hartifact
      rw [hfalse] at hlinked
      have hfilter : db.crossLinks.filter (·.signalKey = signalKey) = [] := by
        rw [List.filter_eq_nil_iff]
        intro cl hcl hkey
        exact absurd (List.any_eq_true.mpr ⟨cl, hcl, hkey⟩) (by rw [hlinked]; simp)
      dsimp only
      split
      · exact hkept
      · next ce hfound =>
        intro cl hcl hkey net hnet
        unfold upsert at hcl
        split at hcl
        · next hany =>
          obtain ⟨cl₁, hcl₁, hkey₁⟩ := List.any_eq_true.mp hany
          obtain ⟨cl₀, hcl₀, hkey₀, -⟩ := holds cl₁ hcl₁ (of_decide_eq_true hkey₁)
          exact absurd (List.any_eq_true.mpr ⟨cl₀, hcl₀, decide_eq_true hkey₀⟩) (by rw [hlinked]; simp)
        · rcases List.mem_append.mp hcl with hold | hnew
          · exact hkept cl hold hkey net hnet
          · rw [List.mem_singleton.mp hnew] at hnet
            rw [hcatalogue, ← hdb₁] at hfound
            simp only [senders, hfilter, hartifact, Option.bind_some]
            rw [hfound]
            simpa using (Option.some.inj hnet).symm

theorem safe_signalledToken (h : Tagged owner a db) {netId signalKey : String} {seq : Nat}
    {ts : DateTime} {token : Token} (howner : owner token.id = netId)
    (hhome : netId = a → ∀ net ∈ senders db signalKey, net = a ∨ startsWith net "pool-" = true) :
    (signalledToken netId seq ts token signalKey).Safe (Tagged owner a) db := by
  rw [signalledToken_eq]
  refine ((always_linkSignalled netId signalKey seq).safe h).bind fun db' _ hrun hdb' => ?_
  refine (tagged_inherit hdb' howner fun hnet cl hcl hkey net hegress => ?_).bind fun db'' _ _ hdb'' => ?_
  · exact hhome hnet net (run_linkSignalled hrun cl hcl hkey net hegress)
  · have hcomplete : (completeTask signalKey (extractTaskStatus token.color) ts).Always
        (Tagged owner a) := always_write fun db hdb => tagged_tasks db _ hdb
    exact hcomplete.safe hdb''

/-! ## Messages -/

theorem safe_createdToken (h : Tagged owner a db) (rd : Reading) {netId : String} {seq : Nat}
    {ts : DateTime} {token : Token} {signalKey : Option String} (howner : owner token.id = netId)
    (hhome : ∀ key, signalKey = some key → netId = a → ∀ net ∈ senders db key,
      net = a ∨ startsWith net "pool-" = true) :
    (createdToken rd netId seq ts token signalKey).Safe (Tagged owner a) db := by
  cases signalKey with
  | some key => exact safe_signalledToken h howner (hhome key rfl)
  | none =>
    unfold createdToken
    dsimp only
    split
    · exact (always_seedToken rd howner).safe h
    · exact (always_pure _).safe h

theorem always_insertEventToken {t : TokenId} {role : Role}
    {placeId : String} {placeName : Option String} {data : Option Json} (howner : owner t = netId) :
    (insertEventToken netId seq t role placeId placeName data).Always (Tagged owner a) :=
  always_write fun _ hdb => tagged_insertEventToken hdb howner

theorem safe_process (rd : Reading) (h : Tagged owner a db) {m : Message} (howned : Owned owner m)
    (hhome : SentHome a db m) : (process rd m).Safe (Tagged owner a) db := by
  cases m with
  | bridgeTransfer targetNetId signalKey =>
    have hbridge : (processBridgeTransfer targetNetId signalKey).Always (Tagged owner a) :=
      always_write fun db hdb => tagged_crossLinks db _ hdb
    exact hbridge.safe h
  | domainEvent netId e =>
    have htokens : ∀ t ∈ tokensOf e.event, owner t = netId := howned
    unfold process processDomainEvent
    dsimp only
    cases hevent : e.event with
    | transitionFired transitionId transitionName consumed produced read started completed =>
      rw [hevent] at htokens
      refine Always.safe ?_ h
      refine (blind_tagged.insertEvent _).bind fun _ => (always_tokens htokens).bind fun _ => ?_
      exact (always_propagate htokens).bind fun _ => always_projectPool tagged_tasks rd _ _ _
    | effectCompleted transitionId transitionName consumed produced handlerId effectResult read started
        completed =>
      rw [hevent] at htokens
      refine Always.safe ?_ h
      refine (blind_tagged.insertEvent _).bind fun _ => (always_tokens htokens).bind fun _ => ?_
      refine (always_propagate htokens).bind fun _ => Always.bind ?_ fun _ => ?_
      · exact always_linkSignal blind_tagged (fun key linkType => always_linkEgress _ _ _ _) _
      · exact always_dispatchProjector rd (fun workspaceId projector => always_project rd _ _) _
    | effectFailed transitionId transitionName consumed produced handlerId message tokensConsumed input
        retryable =>
      rw [hevent] at htokens
      have hfired : ∀ t ∈ consumed.map Prod.snd ++ tokenIds produced ++ tokenIds [], owner t = netId := by
        intro t ht
        rcases List.mem_append.mp ht with hfired | hread
        · exact htokens t hfired
        · cases hread
      refine Always.safe ?_ h
      refine (blind_tagged.insertEvent _).bind fun _ => ?_
      split
      · exact (always_tokens hfired).bind fun _ => always_propagate hfired
      · exact always_pure _
    | tokenCreated token placeId placeName workflowId signalKey dedupId =>
      rw [hevent] at htokens
      have howner : owner token.id = netId := htokens token.id (List.mem_singleton_self _)
      have hsent : ∀ key, signalKey = some key → netId = a → ∀ net ∈ senders db key,
          net = a ∨ startsWith net "pool-" = true := by
        rintro key rfl
        unfold SentHome at hhome
        simp only [hevent] at hhome
        exact hhome
      -- Neither of the two rows that come first is about a link or the catalogue.
      refine ((blind_tagged.insertEvent _).safe h).bind fun db₁ _ hevents h₁ => ?_
      refine ((always_insertEventToken howner).safe h₁).bind fun db₂ _ htoken h₂ => ?_
      obtain rfl := (Prod.mk.inj (Option.some.inj hevents)).1
      obtain rfl := (Prod.mk.inj (Option.some.inj htoken)).1
      refine (safe_createdToken h₂ rd howner hsent).bind fun db₃ _ _ h₃ => ?_
      exact (always_projectPool tagged_tasks rd _ _ _).safe h₃
    | tokenBridgedOut token sourcePlaceId sourcePlaceName targetNetId targetPlaceName transitionId
        signalKey producedByEvent replyTo replyChannels =>
      rw [hevent] at htokens
      refine Always.safe ?_ h
      refine (always_linkEgress _ _ _ _).bind fun _ => (blind_tagged.insertEvent _).bind fun _ => ?_
      exact always_insertEventToken (htokens token.id (List.mem_singleton_self _))
    | _ => exact h

/-! ## Runs -/

theorem tagged_step (rd : Reading) {db db' : Database} {d : Delivery} (h : Tagged owner a db)
    (howned : Owned owner d.message) (hhome : SentHome a db d.message) (hstep : step rd db d = some db') :
    Tagged owner a db' := by
  cases d with
  | complete m =>
    obtain ⟨⟨db₁, ⟨⟩⟩, hrun, rfl⟩ := Option.map_eq_some_iff.mp hstep
    exact (safe_process rd h howned hhome).run hrun
  | cut n m =>
    rw [← Option.some.inj hstep]
    exact (safe_process rd h howned hhome).attempt

theorem tagged_initial (instances : List WorkflowInstance) : Tagged owner a (.initial instances) where
  homes _ h := absurd h List.not_mem_nil
  tokens _ h := absurd h List.not_mem_nil
  tags _ h := absurd h List.not_mem_nil

/-- **While the senders of every signal to a net are the net and pools, no tag of another net gets into
it.** -/
theorem tags_isolated (rd : Reading) (owner : TokenId → String) {a b : String} (hab : a ≠ b)
    (instances : List WorkflowInstance) {run : List Delivery} {db : Database}
    (howned : ∀ d ∈ run, Owned owner d.message)
    (hhome : Along (step rd) (fun db d => SentHome a db d.message) (.initial instances) run)
    (h : exec (step rd) (.initial instances) run = some db) : Isolated owner a b db := by
  have hboth : Along (step rd) (fun db d => Owned owner d.message ∧ SentHome a db d.message)
      (.initial instances) run := (along_of_forall howned).and hhome
  have htagged : Tagged owner a db := exec_invariant_along
    (fun _ _ _ hdb hd hstep => tagged_step rd hdb hd.1 hd.2 hstep) (tagged_initial instances) hboth h
  exact htagged.isolated hab

/-! ## Two instances of a template -/

section Instances

def netOf (t : TokenId) : String :=
  match t.uuid.toNat % 3 with
  | 0 => "pool-r"
  | 1 => "mekhan-a"
  | _ => "mekhan-b"

def message (netId : String) (sequence : Nat) (event : DomainEvent) : Delivery :=
  .complete (.domainEvent netId ⟨sequence, ⟨0⟩, event, "", none⟩)

def token (n : Nat) : Token := Token.new ⟨BitVec.ofNat 128 n⟩ ⟨0⟩ .unit

def created (n : Nat) (place : String) (signalKey : Option String) : DomainEvent :=
  .tokenCreated (token n) ⟨place⟩ (some place) none signalKey none

def fired (transition : String) (consumed produced : List (String × Nat)) : DomainEvent :=
  .transitionFired ⟨transition⟩ none (consumed.map fun t => (⟨t.1⟩, (token t.2).id))
    (produced.map fun t => (⟨t.1⟩, token t.2)) [] none none

def bridged (n : Nat) (target place signalKey : String) (producedBy : Nat) : DomainEvent :=
  .tokenBridgedOut (token n) ⟨"out"⟩ "out" target place ⟨"t"⟩ signalKey (some producedBy) none none

def seeds : List Delivery :=
  [message "pool-r" 1 (created 0 "available" none), message "mekhan-a" 1 (created 1 "p_start" none),
    message "mekhan-b" 1 (created 2 "p_start" none)]

/-- The `k`-th lease of the unit: the net claims it, the pool grants it, and the grant comes. -/
def lease (net : String) (holder unit k : Nat) (claimKey grantKey : String) : List Delivery :=
  [message net 2 (fired "t_claim" [("p_input", holder)] [("p_claim_out", 9 * k + holder)]),
    message net 3 (bridged (9 * k + holder) "pool-r" "claim_inbox" claimKey 2),
    message "pool-r" (4 * k) (created (9 * k) "claim_inbox" (some claimKey)),
    message "pool-r" (4 * k + 1) (fired "t_grant" [("claim_inbox", 9 * k), ("available", unit)]
      [("grants", 9 * k + 3), ("available", 9 * k + 6)]),
    message "pool-r" (4 * k + 2) (bridged (9 * k + 3) net "grant_inbox" grantKey (4 * k + 1)),
    message net 4 (created (9 * k + 3 + holder) "grant_inbox" (some grantKey))]

/-- Both instances lease the unit, one after the other. -/
def leases : List Delivery :=
  seeds ++ lease "mekhan-b" 2 0 1 "k1" "k2" ++ lease "mekhan-a" 1 15 2 "k3" "k4"

/-- The unit has the tags of both holders, and none of them the other's. -/
theorem tags_isolated_leases : ∃ db, exec (step .plain) (.initial []) leases = some db ∧
    db.tagsOf [(token 24).id] = [(token 2).id, (token 1).id] ∧ Isolated netOf "mekhan-a" "mekhan-b" db := by
  have hrun : (exec (step .plain) (.initial []) leases).isSome = true := by decide
  obtain ⟨db, hdb⟩ := Option.isSome_iff_exists.mp hrun
  have htags : (exec (step .plain) (.initial []) leases).map (·.tagsOf [(token 24).id]) =
      some [(token 2).id, (token 1).id] := by decide
  rw [hdb] at htags
  exact ⟨db, hdb, Option.some.inj htags, tags_isolated .plain netOf (by decide) [] (by decide)
    (by decide) hdb⟩

/-- A net exchanges tokens with pools alone. -/
def OnlyPools (net : String) : Message → Prop
  | .domainEvent netId e =>
    match e.event with
    | .tokenBridgedOut _ _ _ targetNetId _ _ _ _ _ _ =>
      (netId = net → startsWith targetNetId "pool-" = true) ∧
        (targetNetId = net → startsWith netId "pool-" = true)
    | _ => True
  | .bridgeTransfer .. => True

instance (net : String) : (m : Message) → Decidable (OnlyPools net m)
  | .domainEvent netId e => by
    unfold OnlyPools
    dsimp only
    split <;> infer_instance
  | .bridgeTransfer .. => inferInstanceAs (Decidable True)

/-- A job is submitted: the key is made of the node and the number of the run. -/
def submitted (consumed produced : Nat) : DomainEvent :=
  .effectCompleted ⟨"t_train_submit"⟩ none [(⟨"p_train_inbox"⟩, (token consumed).id)]
    [(⟨"p_train_submitted"⟩, token produced)] "scheduler_submit"
    (.obj [("signal_key", .str "train:0")]) [] none none

/-- Two instances of a template submit the job of one node, then the first hears of its own. -/
def sharedKey : List Delivery :=
  seeds ++ [message "mekhan-a" 2 (submitted 1 4), message "mekhan-b" 2 (submitted 2 5),
    message "mekhan-a" 3 (created 7 "p_train_sig_running" (some "train:0"))]

/-- The tags of the second instance get into the first. -/
theorem sharedKey_leaks : ∃ db, exec (step .plain) (.initial []) sharedKey = some db ∧
    (∀ d ∈ sharedKey, Owned netOf d.message ∧ OnlyPools "mekhan-a" d.message ∧
      OnlyPools "mekhan-b" d.message) ∧ ¬ Isolated netOf "mekhan-a" "mekhan-b" db := by
  have hrun : (exec (step .plain) (.initial []) sharedKey).isSome = true := by decide
  obtain ⟨db, hdb⟩ := Option.isSome_iff_exists.mp hrun
  have hleak : (exec (step .plain) (.initial []) sharedKey).map (fun db =>
      (decide (⟨(token 7).id, (token 2).id⟩ ∈ db.processTags), db.homedIn "mekhan-b" (token 2).id)) =
        some (true, true) := by decide
  rw [hdb] at hleak
  obtain ⟨htag, hhome⟩ := Prod.mk.inj (Option.some.inj hleak)
  refine ⟨db, hdb, by decide, fun hisolated => ?_⟩
  have hfree := hisolated.tags _ (of_decide_eq_true htag) (by decide)
  rw [hhome] at hfree
  cases hfree

end Instances

end ProcessTags

end Mekhan
