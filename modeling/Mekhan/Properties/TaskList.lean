import Mekhan.Causality.Footprint
import Mekhan.Infra.Runs

/-!
# The task list and the net

The ingest follows the offers, the holds and the results of a pooled human task in one row of the task
list. Its insert does nothing for an id that has a row, and an activation of the same step in the same
instance has the same id. So the second offer of a task that has been completed stays listed as
completed. The HTTP handlers `complete_task` and `cancel_task` write the status of a row too; they are left out.
-/

namespace Mekhan

namespace TaskList

open Infra Program Causality

/-- The status that the task list shows for an id. -/
def status? (db : Database) (g : String) : Option String := (db.task? g).map Task.status

/-! ## Moves -/

/-- What an event says about a task: it is offered, by a token with a process tag or without one, it is
held, or it has its result. -/
inductive TaskMove where
  | offer (tagged : Bool)
  | hold
  | result (status : String)

namespace TaskMove

def status : TaskMove → String
  | offer _ => "offered"
  | hold => "claimed"
  | result status => status

def isOpen (status : String) : Bool := status = "pending" || status = "offered" || status = "claimed"

def apply : TaskMove → Option String → Option String
  | offer tagged, none => if tagged then some "offered" else none
  | offer _, some st => some st
  | hold, st => if st = some "offered" then some "claimed" else st
  | result r, st => if st.any isOpen then some r else st

/-- The moves that lead where they say: an offer without a row, or with one that is offered; a hold of
an offered or a claimed task; a result of an open one, or of one that has it. -/
def Fits : TaskMove → Option String → Prop
  | offer tagged, st => (st = none ∧ tagged = true) ∨ st = some "offered"
  | hold, st => st = some "offered" ∨ st = some "claimed"
  | result r, st => r ∈ ["completed", "cancelled", "failed"] ∧ (st.any isOpen = true ∨ st = some r)

instance : (mv : TaskMove) → (st : Option String) → Decidable (mv.Fits st)
  | offer _, _ => inferInstanceAs (Decidable (_ ∨ _))
  | hold, _ => inferInstanceAs (Decidable (_ ∨ _))
  | result _, _ => inferInstanceAs (Decidable (_ ∧ _))

/-- A status that a move has been made before. -/
def Past : TaskMove → Option String → Prop
  | offer _, st => st ≠ none
  | hold, st => st ≠ none ∧ st ≠ some "offered"
  | result _, st => st ≠ none ∧ st.any isOpen = false

theorem isOpen_terminal {r : String} (h : r ∈ ["completed", "cancelled", "failed"]) : isOpen r = false := by
  revert h r
  decide

variable {mv : TaskMove} {st : Option String}

/-- **A move leads to its status exactly if it fits.** -/
theorem apply_eq_iff (hresult : ∀ r, mv = result r → r ∈ ["completed", "cancelled", "failed"]) :
    mv.apply st = some mv.status ↔ mv.Fits st := by
  cases mv with
  | offer tagged =>
    cases st with
    | none => cases tagged <;> simp [apply, status, Fits]
    | some s => simp [apply, status, Fits]
  | hold =>
    simp only [apply, status, Fits]
    by_cases h : st = some "offered"
    · simp [h]
    · simp [h]
  | result r =>
    have hr := hresult r rfl
    simp only [apply, status, Fits]
    by_cases h : st.any isOpen = true
    · simp [h, hr]
    · simp [h, hr]

theorem result_terminal (h : mv.Fits st) : ∀ r, mv = result r → r ∈ ["completed", "cancelled", "failed"] := by
  rintro r rfl
  exact h.1

theorem past_of_fits (h : mv.Fits st) : mv.Past (some mv.status) := by
  cases mv with
  | offer tagged => exact Option.some_ne_none _
  | hold => exact ⟨Option.some_ne_none _, by simp [status]⟩
  | result r => exact ⟨Option.some_ne_none _, isOpen_terminal h.1⟩

theorem apply_of_past (h : mv.Past st) : mv.apply st = st := by
  cases mv with
  | offer tagged =>
    cases st with
    | none => exact absurd rfl h
    | some s => rfl
  | hold => exact if_neg h.2
  | result r => exact if_neg (by simp [h.2])

theorem past_mono {mv' : TaskMove} (hpast : mv.Past st) (hfits : mv'.Fits st) :
    mv.Past (some mv'.status) := by
  cases mv with
  | offer tagged => exact Option.some_ne_none _
  | hold =>
    refine ⟨Option.some_ne_none _, ?_⟩
    cases mv' with
    | offer tagged =>
      rcases hfits with ⟨hnone, -⟩ | hoffered
      · exact absurd hnone hpast.1
      · exact absurd hoffered hpast.2
    | hold => simp [status]
    | result r =>
      intro hr
      have hopen := isOpen_terminal hfits.1
      rw [show r = "offered" from Option.some.inj hr] at hopen
      exact absurd hopen (by decide)
  | result r =>
    refine ⟨Option.some_ne_none _, ?_⟩
    cases mv' with
    | offer tagged =>
      rcases hfits with ⟨hnone, -⟩ | hoffered
      · exact absurd hnone hpast.1
      · exact absurd hpast.2 (by rw [hoffered]; decide)
    | hold =>
      rcases hfits with h | h
      · exact absurd hpast.2 (by rw [h]; decide)
      · exact absurd hpast.2 (by rw [h]; decide)
    | result r' => exact isOpen_terminal hfits.1

end TaskMove

/-- What a token in a pool's place says about a task. -/
def poolMove (g : String) (tagged : Bool) (placeName : Option String) (data : Json) : Option TaskMove :=
  if strAt data "grant_id" = some g then
    match placeName with
    | some "offers" => some (.offer tagged)
    | some "in_use" => some .hold
    | _ => none
  else none

/-- What an event says about a task, in order. A token is tagged if it or what it was made from is. -/
def moves (g : String) (db : Database) : Message → List TaskMove
  | .domainEvent netId e =>
    match e.event with
    | .transitionFired _ _ consumed produced read _ _ =>
      if startsWith netId "pool-" then
        produced.filterMap fun t =>
          poolMove g (db.tagsOf (t.2.id :: (consumed.map Prod.snd ++ tokenIds read)) ≠ [])
            (some t.1.name) (colorJson t.2.color)
      else []
    | .tokenCreated token _ placeName _ signalKey _ =>
      (if signalKey = some g then [.result (extractTaskStatus token.color)] else []) ++
        if startsWith netId "pool-" then
          (poolMove g (db.tagsOf [token.id] ≠ []) placeName (colorJson token.color)).toList
        else []
    | _ => []
  | .bridgeTransfer .. => []

/-- Each move fits the status that those before it lead to. -/
def AllFit (st : Option String) : List TaskMove → Prop
  | [] => True
  | mv :: mvs => mv.Fits st ∧ AllFit (some mv.status) mvs

instance decidableAllFit : (st : Option String) → (mvs : List TaskMove) → Decidable (AllFit st mvs)
  | _, [] => inferInstanceAs (Decidable True)
  | st, mv :: mvs =>
    have := decidableAllFit (some mv.status) mvs
    inferInstanceAs (Decidable (mv.Fits st ∧ AllFit (some mv.status) mvs))

/-! ## Deliveries -/

/-- A message comes for the first time, or again. -/
inductive Delivery where
  | fresh (m : Message)
  | again (m : Message)

/-- The tables, the messages so far, and the status by the latest of what they say about a task. -/
structure State where
  db : Database
  seen : List Message
  latest : Option String

variable (rd : Reading) (g : String)

def step (s : State) : Delivery → Option State
  | .fresh m => ((process rd m).run s.db).map fun r =>
    ⟨r.1, m :: s.seen, (moves g s.db m).foldl (fun _ mv => some mv.status) s.latest⟩
  | .again m => if m ∈ s.seen then ((process rd m).run s.db).map fun r => { s with db := r.1 } else none

def State.initial (instances : List WorkflowInstance) : State := ⟨.initial instances, [], none⟩

/-- The task has the status of the latest of what the events say. -/
def Follows (s : State) : Prop := ∀ st, s.latest = some st → status? s.db g = some st

/-- What a message says fits, when it comes for the first time. -/
def Timely (s : State) : Delivery → Prop
  | .fresh m => AllFit (status? s.db g) (moves g s.db m)
  | .again _ => True

instance (s : State) : (d : Delivery) → Decidable (Timely g s d)
  | .fresh _ => decidableAllFit _ _
  | .again _ => inferInstanceAs (Decidable True)

/-! ## The rows of the tasks -/

section Rows

variable {g : String} {db db' : Database}

theorem status?_congr (h : db'.tasks = db.tasks) : status? db' g = status? db g := by
  unfold status? Database.task?
  rw [h]

theorem task?_updateWhere {cond : Task → Bool} {update : Task → Task} (hid : ∀ t, (update t).id = t.id)
    (tasks : List Task) : (updateWhere cond update tasks).find? (·.id = g) =
      (tasks.find? (·.id = g)).map fun t => if cond t then update t else t := by
  have hsame : ∀ t, (if cond t then update t else t).id = t.id := by
    intro t
    split
    · exact hid t
    · rfl
  unfold updateWhere
  rw [List.find?_map]
  congr 2
  funext t
  rw [Function.comp_apply, hsame]

theorem status?_updateWhere {cond : Task → Bool} {update : Task → Task} (hid : ∀ t, (update t).id = t.id) :
    status? { db with tasks := updateWhere cond update db.tasks } g =
      (db.task? g).map fun t => if cond t then (update t).status else t.status := by
  unfold status? Database.task?
  rw [task?_updateWhere hid, Option.map_map]
  congr 1
  funext t
  rw [Function.comp_apply]
  split <;> rfl

theorem task?_id {t : Task} (h : db.task? g = some t) : t.id = g := by
  have hid := List.find?_some h
  simpa using hid

theorem status?_insertTask {task : Task} {onConflict : Task → Task}
    (hkeeps : ∀ t, (onConflict t).id = t.id ∧ (onConflict t).status = t.status)
    (h : db.insertTask task onConflict = some db') :
    status? db' g = if g = task.id then (status? db g).or (some task.status) else status? db g := by
  unfold Database.insertTask at h
  split at h
  · next hany =>
    cases h
    have hsame : status? { db with tasks := updateWhere (·.id = task.id) onConflict db.tasks } g =
        status? db g := by
      rw [status?_updateWhere fun t => (hkeeps t).1]
      unfold status?
      congr 1
      funext t
      split
      · exact (hkeeps t).2
      · rfl
    rw [hsame]
    split
    · next hg =>
      obtain ⟨t, ht, hid⟩ := List.any_eq_true.mp hany
      have hsome : (status? db g).isSome = true := by
        unfold status? Database.task?
        rw [Option.isSome_map, List.find?_isSome]
        exact ⟨t, ht, by rw [hg]; exact hid⟩
      obtain ⟨st, hst⟩ := Option.isSome_iff_exists.mp hsome
      rw [hst, Option.some_or]
    · rfl
  · next hany =>
    split at h
    · cases h
      unfold status? Database.task?
      rw [List.find?_append]
      have hnone : g = task.id → db.tasks.find? (·.id = g) = none := by
        intro hg
        rw [List.find?_eq_none]
        intro t ht htid
        refine hany (List.any_eq_true.mpr ⟨t, ht, ?_⟩)
        rw [← hg]
        exact htid
      split
      · next hg =>
        rw [hnone hg, Option.map_none, Option.none_or, Option.none_or]
        simp [hg]
      · next hg =>
        have hid : ([task].find? fun t => t.id = g) = none := by
          rw [List.find?_singleton, if_neg]
          simpa using Ne.symm hg
        rw [hid, Option.or_none]
    · cases h

end Rows

/-! ## What a part of the ingest does to a task -/

theorem blind_tasks (tasks : List Task) : Blind fun db => db.tasks = tasks :=
  ⟨fun _ _ h => h, fun _ _ h => h, fun _ _ h => h, fun _ _ h => h, fun _ _ h => h, fun _ _ h => h,
    fun _ _ h => h, fun _ _ _ h => h⟩

theorem tasks_linkEgress (tasks : List Task) (key netId : String) (seq : Nat) (linkType : String) :
    (linkEgress key netId seq linkType).Always fun db => db.tasks = tasks :=
  always_write fun _ h => h

theorem tasks_propagate (tasks : List Task) (consumedIds readIds producedIds : List TokenId) :
    (propagateProcessTags consumedIds readIds producedIds).Always fun db => db.tasks = tasks :=
  always_propagateProcessTags fun _ _ _ h => h

theorem blind_tag (x : ProcessTag) : Blind fun db => x ∈ db.processTags :=
  ⟨fun _ _ h => h, fun _ _ h => h, fun _ _ h => h, fun _ _ h => h, fun _ _ h => h, fun _ _ h => h,
    fun _ _ h => h, fun _ _ _ h => h⟩

section Parts

variable {g : String} {db db' : Database}

variable {ts : DateTime} {data : Json}

theorem run_completeTask {key status : String} (h : (completeTask key status ts).run db = some (db', ())) :
    db'.processTags = db.processTags ∧ status? db' g =
      if key = g then (TaskMove.result status).apply (status? db g) else status? db g := by
  obtain rfl := (Prod.mk.inj (Option.some.inj h)).1
  refine ⟨rfl, ?_⟩
  dsimp only
  rw [status?_updateWhere]
  swap
  · exact fun _ => rfl
  unfold status?
  cases htask : db.task? g with
  | none => simp [TaskMove.apply]
  | some t =>
    have hid := task?_id htask
    simp only [Option.map_some, TaskMove.apply, Option.any_some]
    by_cases hkey : key = g
    · rw [if_pos hkey]
      by_cases hopen : TaskMove.isOpen t.status = true
      · rw [if_pos hopen, if_pos]
        simp only [TaskMove.isOpen] at hopen
        simp [hid, hkey, hopen]
      · rw [if_neg hopen, if_neg]
        simp only [TaskMove.isOpen] at hopen
        simp [hopen]
    · rw [if_neg hkey, if_neg]
      simp [hid, Ne.symm hkey]

theorem run_projectHold (h : (projectHold data ts).run db = some (db', ())) :
    db'.processTags = db.processTags ∧ status? db' g =
      if strAt data "grant_id" = some g then TaskMove.hold.apply (status? db g)
      else status? db g := by
  unfold projectHold at h
  split at h
  · next hgrant =>
    obtain rfl := (Prod.mk.inj (Option.some.inj h)).1
    rw [hgrant]
    exact ⟨rfl, rfl⟩
  · next grantId hgrant =>
    obtain rfl := (Prod.mk.inj (Option.some.inj h)).1
    refine ⟨rfl, ?_⟩
    dsimp only
    rw [hgrant, status?_updateWhere]
    swap
    · exact fun _ => rfl
    unfold status?
    cases htask : db.task? g with
    | none => simp [TaskMove.apply]
    | some t =>
      have hid := task?_id htask
      simp only [Option.map_some, TaskMove.apply, Option.some.injEq]
      by_cases hkey : grantId = g
      · simp [hid, hkey]
        split <;> rfl
      · simp [hid, hkey, Ne.symm hkey]

theorem run_resolveCapacityWorkspace (rd : Reading) (capacityId : Option Uuid) (db : Database) :
    ∃ workspaceId, (resolveCapacityWorkspace rd capacityId).run db = some (db, workspaceId) := by
  cases capacityId with
  | none => exact ⟨none, rfl⟩
  | some id => exact ⟨_, rfl⟩

theorem processTags_insertTask {task : Task} {onConflict : Task → Task}
    (h : db.insertTask task onConflict = some db') : db'.processTags = db.processTags := by
  unfold Database.insertTask at h
  split at h
  · rw [← Option.some.inj h]
  · split at h
    · rw [← Option.some.inj h]
    · cases h

variable {netId : String} {tokenId : TokenId} {placeName : Option String}

theorem run_projectOffer {rd : Reading}
    (h : (projectOffer rd netId tokenId data ts).run db = some (db', ())) :
    db'.processTags = db.processTags ∧ status? db' g =
      if strAt data "grant_id" = some g then (TaskMove.offer (db.tagsOf [tokenId] ≠ [])).apply (status? db g)
      else status? db g := by
  unfold projectOffer at h
  split at h
  · next hgrant =>
    obtain rfl := (Prod.mk.inj (Option.some.inj h)).1
    rw [hgrant]
    exact ⟨rfl, rfl⟩
  · next grantId hgrant =>
    dsimp only at h
    obtain ⟨db₁, workspaceId, hworkspace, h⟩ := run_bind_eq_some.mp h
    obtain ⟨_, hworkspace'⟩ := run_resolveCapacityWorkspace rd _ db
    obtain ⟨rfl, -⟩ := Prod.mk.inj (Option.some.inj (hworkspace'.symm.trans hworkspace))
    obtain ⟨db₂, processIds, hresolve, h⟩ := run_bind_eq_some.mp h
    rw [run_resolveProcessIds] at hresolve
    cases hresolve
    rw [hgrant]
    split at h
    · next hnone =>
      obtain rfl := (Prod.mk.inj (Option.some.inj h)).1
      have htags : db.tagsOf [tokenId] = [] := by
        by_contra hne
        exact Database.resolve_ne_nil hne (List.head?_eq_none_iff.mp hnone)
      refine ⟨rfl, ?_⟩
      rw [htags]
      cases status? db g with
      | none => simp [TaskMove.apply]
      | some st => simp [TaskMove.apply]
    · next processId hsome =>
      have htags : db.tagsOf [tokenId] ≠ [] :=
        List.ne_nil_of_mem (Database.mem_resolve (List.mem_of_mem_head? hsome))
      rw [run_tryWrite, Option.map_eq_some_iff] at h
      obtain ⟨db₁, hinsert, heq⟩ := h
      obtain rfl := (Prod.mk.inj heq).1
      refine ⟨processTags_insertTask hinsert, ?_⟩
      rw [status?_insertTask (fun _ => ⟨rfl, rfl⟩) hinsert]
      dsimp only
      by_cases hg : g = grantId
      · rw [if_pos hg, if_pos (by rw [hg])]
        cases status? db g with
        | none => simp [TaskMove.apply, htags]
        | some st => simp [TaskMove.apply]
      · rw [if_neg hg, if_neg (by simpa using Ne.symm hg)]

theorem poolMove_other {tagged : Bool}
    (hoffers : placeName = some "offers" → False) (hinUse : placeName = some "in_use" → False) :
    poolMove g tagged placeName data = none := by
  unfold poolMove
  split
  · split
    · exact (hoffers rfl).elim
    · exact (hinUse rfl).elim
    · rfl
  · rfl

theorem run_projectPoolTaskState {rd : Reading}
    (h : (projectPoolTaskState rd netId placeName tokenId data ts).run db = some (db', ())) :
    db'.processTags = db.processTags ∧ status? db' g =
      (poolMove g (db.tagsOf [tokenId] ≠ []) placeName data).elim (status? db g)
        fun mv => mv.apply (status? db g) := by
  unfold projectPoolTaskState at h
  split at h
  · obtain ⟨htags, hstatus⟩ := run_projectOffer h
    refine ⟨htags, ?_⟩
    rw [hstatus]
    unfold poolMove
    split <;> rfl
  · obtain ⟨htags, hstatus⟩ := run_projectHold h
    refine ⟨htags, ?_⟩
    rw [hstatus]
    unfold poolMove
    split <;> rfl
  · next hoffers hinUse =>
    obtain rfl := (Prod.mk.inj (Option.some.inj h)).1
    refine ⟨rfl, ?_⟩
    rw [poolMove_other hoffers hinUse]
    rfl

theorem run_recordTaskEvent {rd : Reading} {ctx : ProjectorCtx}
    (h : (recordTaskEvent rd ctx).run db = some (db', ())) :
    status? db' g = status? db g ∨ (status? db g = none ∧ status? db' g = some "pending") := by
  unfold recordTaskEvent at h
  split at h
  · obtain rfl := (Prod.mk.inj (Option.some.inj h)).1
    exact Or.inl rfl
  · next taskId htask =>
    dsimp only at h
    obtain ⟨db₁, processIds, hresolve, h⟩ := run_bind_eq_some.mp h
    unfold resolved at hresolve
    rw [run_resolveProcessIds] at hresolve
    cases hresolve
    split at h
    · obtain rfl := (Prod.mk.inj (Option.some.inj h)).1
      exact Or.inl rfl
    · obtain ⟨db₂, workspaceId, hworkspace, h⟩ := run_bind_eq_some.mp h
      obtain ⟨rfl, -⟩ := Prod.mk.inj (Option.some.inj hworkspace)
      rw [run_tryWrite, Option.map_eq_some_iff] at h
      obtain ⟨db₁, hinsert, heq⟩ := h
      obtain rfl := (Prod.mk.inj heq).1
      have hkeeps : ∀ t : Task, ({ t with detail := ctx.effectResult } : Task).id = t.id ∧
          ({ t with detail := ctx.effectResult } : Task).status = t.status := fun _ => ⟨rfl, rfl⟩
      rw [status?_insertTask hkeeps hinsert]
      split
      · cases hstatus : status? db g with
        | none => exact Or.inr ⟨rfl, rfl⟩
        | some st => exact Or.inl rfl
      · exact Or.inl rfl

end Parts

/-! ## Sequences of moves -/

/-- The same move, perhaps with a tag that came with the event. -/
inductive Later : TaskMove → TaskMove → Prop where
  | same (mv : TaskMove) : Later mv mv
  | tagged : Later (.offer false) (.offer true)

variable {a b : Bool} {mv mv' : TaskMove}

theorem Later.offer (h : a = true → b = true) : Later (.offer a) (.offer b) := by
  cases a <;> cases b
  · exact .same _
  · exact .tagged
  · exact absurd (h rfl) (by simp)
  · exact .same _

variable {st : Option String} {mvs : List TaskMove}

theorem Later.apply_of_fits (h : Later mv mv') (hfits : mv.Fits st) : mv'.apply st = some mv.status := by
  cases h with
  | same => exact (TaskMove.apply_eq_iff (TaskMove.result_terminal hfits)).mpr hfits
  | tagged =>
    rcases hfits with ⟨-, habsurd⟩ | rfl
    · cases habsurd
    · rfl

theorem Later.apply_of_past (h : Later mv mv') (hpast : mv.Past st) : mv'.apply st = st := by
  cases h with
  | same => exact TaskMove.apply_of_past hpast
  | tagged =>
    have htrue : (TaskMove.offer true).Past st := hpast
    exact TaskMove.apply_of_past htrue

/-- The moves lead from one status to the other, up to later news of them. -/
def Leads (mvs : List TaskMove) (st st' : Option String) : Prop :=
  ∃ mvs', List.Forall₂ Later mvs mvs' ∧ st' = mvs'.foldl (fun st mv => mv.apply st) st

theorem Leads.nil (st : Option String) : Leads [] st st := ⟨[], .nil, rfl⟩

theorem Leads.append {mvs₁ : List TaskMove} {st₁ st₂ : Option String} (h : Leads mvs st st₁)
    (h₁ : Leads mvs₁ st₁ st₂) : Leads (mvs ++ mvs₁) st st₂ := by
  obtain ⟨ms, hms, rfl⟩ := h
  obtain ⟨ms₁, hms₁, rfl⟩ := h₁
  exact ⟨ms ++ ms₁, List.rel_append hms hms₁, List.foldl_append.symm⟩

theorem leads_of_fits : ∀ {st st' : Option String}, Leads mvs st st' →
    AllFit st mvs → st' = mvs.foldl (fun _ mv => some mv.status) st := by
  induction mvs with
  | nil =>
    rintro st st' ⟨mvs', hmvs, rfl⟩ _
    cases hmvs
    rfl
  | cons mv mvs ih =>
    rintro st st' ⟨mvs', hmvs, rfl⟩ ⟨hfits, hall⟩
    obtain ⟨mv', rest, hmv, hrest, rfl⟩ := List.forall₂_cons_left_iff.mp hmvs
    rw [List.foldl_cons, List.foldl_cons, hmv.apply_of_fits hfits]
    exact ih ⟨rest, hrest, rfl⟩ hall

theorem leads_of_past : ∀ {st st' : Option String}, Leads mvs st st' →
    (∀ mv ∈ mvs, mv.Past st) → st' = st := by
  induction mvs with
  | nil =>
    rintro st st' ⟨mvs', hmvs, rfl⟩ _
    cases hmvs
    rfl
  | cons mv mvs ih =>
    rintro st st' ⟨mvs', hmvs, rfl⟩ hpast
    obtain ⟨mv', rest, hmv, hrest, rfl⟩ := List.forall₂_cons_left_iff.mp hmvs
    rw [List.foldl_cons, hmv.apply_of_past (hpast mv List.mem_cons_self)]
    exact ih ⟨rest, hrest, rfl⟩ fun m hm => hpast m (List.mem_cons_of_mem _ hm)

theorem leads_poolMove {g : String} (hab : a = true → b = true) {placeName : Option String}
    {data : Json} {st st' : Option String}
    (h : st' = (poolMove g b placeName data).elim st fun mv => mv.apply st) :
    Leads (poolMove g a placeName data).toList st st' := by
  subst h
  unfold poolMove
  split
  · split
    · exact ⟨[.offer b], .cons (Later.offer hab) .nil, rfl⟩
    · exact ⟨[.hold], .cons (.same _) .nil, rfl⟩
    · exact Leads.nil st
  · exact Leads.nil st

/-! ## Messages -/

section Messages

variable {rd : Reading} {g : String} {db db' : Database}

theorem tagsOf_congr (h : db'.processTags = db.processTags) (ts : List TokenId) :
    db'.tagsOf ts = db.tagsOf ts := by
  unfold Database.tagsOf
  rw [h]

variable {netId : String} {ts : DateTime}

variable {tokens : List (Option String × Token)} {seq : Nat}

theorem run_projectTokens {tagged : Option String × Token → Bool} : ∀ {db : Database},
      (∀ t ∈ tokens, tagged t = true → db.tagsOf [t.2.id] ≠ []) →
      (tokens.forM fun t => projectPoolTaskState rd netId t.1 t.2.id (colorJson t.2.color) ts).run db =
        some (db', ()) → Leads (tokens.filterMap fun t => poolMove g (tagged t) t.1 (colorJson t.2.color))
        (status? db g) (status? db' g) := by
  induction tokens with
  | nil =>
    intro db _ h
    obtain rfl := (Prod.mk.inj (Option.some.inj h)).1
    exact Leads.nil _
  | cons t tokens ih =>
    intro db htagged h
    rw [run_forM_cons, Option.bind_eq_some_iff] at h
    obtain ⟨⟨db₁, ⟨⟩⟩, hfirst, hrest⟩ := h
    obtain ⟨htags, hstatus⟩ := run_projectPoolTaskState (g := g) hfirst
    have hhead : Leads (poolMove g (tagged t) t.1 (colorJson t.2.color)).toList (status? db g)
        (status? db₁ g) :=
      leads_poolMove (fun h => decide_eq_true (htagged t List.mem_cons_self h)) hstatus
    have htail := ih (fun t' ht' h => by
      rw [tagsOf_congr htags]
      exact htagged t' (List.mem_cons_of_mem _ ht') h) hrest
    have hcons : ((t :: tokens).filterMap fun t => poolMove g (tagged t) t.1 (colorJson t.2.color)) =
        (poolMove g (tagged t) t.1 (colorJson t.2.color)).toList ++
          tokens.filterMap fun t => poolMove g (tagged t) t.1 (colorJson t.2.color) := by
      rw [List.filterMap_cons]
      cases poolMove g (tagged t) t.1 (colorJson t.2.color) <;> rfl
    rw [hcons]
    exact hhead.append htail

theorem run_projectPool (tagged : Option String × Token → Bool)
    (htagged : ∀ t ∈ tokens, tagged t = true → db.tagsOf [t.2.id] ≠ [])
    (h : (projectPool rd netId tokens ts).run db = some (db', ())) : Leads (if startsWith netId "pool-" then
        tokens.filterMap fun t => poolMove g (tagged t) t.1 (colorJson t.2.color)
      else []) (status? db g) (status? db' g) := by
  unfold projectPool at h
  split at h
  · next hpool =>
    rw [if_pos hpool]
    exact run_projectTokens htagged h
  · next hpool =>
    obtain rfl := (Prod.mk.inj (Option.some.inj h)).1
    rw [if_neg hpool]
    exact Leads.nil _

theorem run_propagate {consumedIds readIds producedIds : List TokenId}
    (h : (propagateProcessTags consumedIds readIds producedIds).run db = some (db', ())) :
    ∀ t ∈ producedIds, ∀ p ∈ db.tagsOf (consumedIds ++ readIds), (⟨t, p⟩ : ProcessTag) ∈ db'.processTags := by
  unfold propagateProcessTags at h
  dsimp only at h
  split at h
  · next hnil =>
    intro t ht
    rw [hnil] at ht
    cases ht
  · split at h
    · next hnil =>
      intro t _ p hp
      rw [hnil] at hp
      obtain ⟨s, hs, -⟩ := Database.mem_tagsOf.mp hp
      cases hs
    · rw [run_forM_write] at h
      obtain rfl := (Prod.mk.inj (Option.some.inj h)).1
      clear h
      -- A tag that is there stays, and every token gets those of the sources.
      have hfold : ∀ (ts : List TokenId) (db₀ : Database),
          (∀ x ∈ db₀.processTags, x ∈ (ts.foldl (fun db t =>
            db.tag t (db.tagsOf (consumedIds ++ readIds))) db₀).processTags) ∧
          ∀ t ∈ ts, ∀ p ∈ db₀.tagsOf (consumedIds ++ readIds), (⟨t, p⟩ : ProcessTag) ∈
            (ts.foldl (fun db t => db.tag t (db.tagsOf (consumedIds ++ readIds))) db₀).processTags := by
        intro ts
        induction ts with
        | nil =>
          intro db₀
          exact ⟨fun x hx => hx, fun t ht => absurd ht List.not_mem_nil⟩
        | cons t ts ih =>
          intro db₀
          obtain ⟨hkeep, hnew⟩ := ih (db₀.tag t (db₀.tagsOf (consumedIds ++ readIds)))
          have hgrow : ∀ x ∈ db₀.processTags,
              x ∈ (db₀.tag t (db₀.tagsOf (consumedIds ++ readIds))).processTags := fun x hx =>
            Database.mem_tag.mpr (Or.inl hx)
          refine ⟨fun x hx => hkeep x (hgrow x hx), fun t' ht' p hp => ?_⟩
          rcases List.mem_cons.mp ht' with rfl | ht'
          · exact hkeep _ (Database.mem_tag.mpr (Or.inr ⟨rfl, hp⟩))
          · refine hnew t' ht' p ?_
            obtain ⟨s, hs, hmem⟩ := Database.mem_tagsOf.mp hp
            exact Database.mem_tagsOf.mpr ⟨s, hs, hgrow _ hmem⟩
      intro t ht p hp
      exact (hfold _ db).2 t ht p hp

theorem always_signalled {inv : Database → Prop} (hb : Blind inv)
    (hlinks : ∀ db x, inv db → inv { db with crossLinks := x })
    (htag : ∀ db t ps, inv db → inv (Database.tag db t ps)) (netId key : String) (seq : Nat)
    (token : Token) :
    (do
      let linked ← linkIngress netId key seq
      insertLineage netId key seq
      backfillLink linked netId key seq
      inheritTags netId key token.id : Ingest Unit).Always inv := by
  refine Always.bind ?_ fun linked => (always_insertLineage hb _ _ _).bind fun _ => Always.bind ?_ fun _ => ?_
  · intro db hdb
    refine ⟨fun db' hdb' => ?_, always_pure _⟩
    rw [← Option.some.inj hdb']
    exact hlinks db _ hdb
  · unfold backfillLink
    split
    · exact always_pure _
    · refine always_write fun db hdb => ?_
      split
      · exact hdb
      · exact hlinks db _ hdb
  · exact always_write fun db => htag db _ _

theorem always_seedToken {inv : Database → Prop} (htag : ∀ db t ps, inv db → inv (Database.tag db t ps))
    (hprocesses : ∀ db x, inv db → inv { db with processes := x }) (netId : String) (ts : DateTime)
    (token : Token) : (seedToken rd netId ts token).Always inv := by
  refine Always.bind (always_write fun db => htag db _ _) fun _ => ?_
  refine always_tryWrite fun db db' hdb hexec => ?_
  obtain ⟨instanceId, -, rfl⟩ := Option.map_eq_some_iff.mp hexec
  exact hprocesses db _ hdb

theorem run_createdToken {token : Token} {signalKey : Option String}
    (h : (createdToken rd netId seq ts token signalKey).run db = some (db', ())) :
    Leads (if signalKey = some g then [.result (extractTaskStatus token.color)] else [])
        (status? db g) (status? db' g) ∧ ∀ x ∈ db.processTags, x ∈ db'.processTags := by
  have htagMem : ∀ x db t ps, x ∈ db.processTags → x ∈ (Database.tag db t ps).processTags :=
    fun x db t ps hx => Database.mem_tag.mpr (Or.inl hx)
  cases signalKey with
  | some key =>
    have hrun : (createdToken rd netId seq ts token (some key)).run db = ((do
        let linked ← linkIngress netId key seq
        insertLineage netId key seq
        backfillLink linked netId key seq
        inheritTags netId key token.id : Ingest Unit) >>= fun _ =>
          completeTask key (extractTaskStatus token.color) ts).run db := by
      simp only [createdToken, signalledToken, bind_assoc]
    rw [hrun, run_bind_eq_some] at h
    obtain ⟨db₁, ⟨⟩, hlead, hresult⟩ := h
    have htasks : db₁.tasks = db.tasks :=
      (always_signalled (blind_tasks db.tasks) (fun _ _ h => h) (fun _ _ _ h => h) netId key seq
        token).run rfl hlead
    have htags : ∀ x ∈ db.processTags, x ∈ db₁.processTags := fun x hx =>
      (always_signalled (blind_tag x) (fun _ _ h => h) (htagMem x) netId key seq token).run hx hlead
    obtain ⟨hsame, hstatus⟩ := run_completeTask (g := g) hresult
    rw [hsame, hstatus, status?_congr htasks]
    refine ⟨?_, htags⟩
    by_cases hkey : key = g
    · rw [if_pos hkey, if_pos (by rw [hkey])]
      exact ⟨_, .cons (.same _) .nil, rfl⟩
    · rw [if_neg hkey, if_neg (by simpa using hkey)]
      exact Leads.nil _
  | none =>
    have hkeep : db'.tasks = db.tasks ∧ ∀ x ∈ db.processTags, x ∈ db'.processTags := by
      simp only [createdToken] at h
      split at h
      · have htasks : (seedToken rd netId ts token).Always fun d => d.tasks = db.tasks :=
          always_seedToken (fun _ _ _ h => h) (fun _ _ h => h) netId ts token
        exact ⟨htasks.run rfl h, fun x hx =>
          (always_seedToken (htagMem x) (fun _ _ h => h) netId ts token).run hx h⟩
      · obtain rfl := (Prod.mk.inj (Option.some.inj h)).1
        exact ⟨rfl, fun _ hx => hx⟩
    rw [status?_congr hkeep.1, if_neg (by simp)]
    exact ⟨Leads.nil _, hkeep.2⟩

theorem run_firing_lead {row : EventRow}
    {consumed : List (PlaceId × TokenId)} {produced read : List (PlaceId × Token)}
    {db₁ db₂ : Database} (hevent : (insertEvent row).run db = some (db₁, ()))
    (htokens : (insertEventTokens netId seq consumed produced read).run db₁ = some (db₂, ()))
    (hpropagate : (propagateProcessTags (consumed.map Prod.snd) (tokenIds read)
      (tokenIds produced)).run db₂ = some (db', ())) : db'.tasks = db.tasks ∧ ∀ t ∈ produced,
      db.tagsOf (t.2.id :: (consumed.map Prod.snd ++ tokenIds read)) ≠ [] → db'.tagsOf [t.2.id] ≠ [] := by
  have htagMem : ∀ x db t ps, x ∈ db.processTags → x ∈ (Database.tag db t ps).processTags :=
    fun x db t ps hx => Database.mem_tag.mpr (Or.inl hx)
  have hsame : db₂.tasks = db.tasks ∧ db₂.processTags = db.processTags := by
    have hkeeps : (insertEventTokens netId seq consumed produced read).Always fun d =>
        d.tasks = db₁.tasks ∧ d.processTags = db₁.processTags :=
      always_insertEventTokens fun _ _ _ _ h => h
    have h₁ := hkeeps.run ⟨rfl, rfl⟩ htokens
    obtain rfl := (Prod.mk.inj (Option.some.inj hevent)).1
    exact h₁
  constructor
  · rw [← hsame.1]
    exact (tasks_propagate db₂.tasks _ _ _).run rfl hpropagate
  · intro t ht htagged
    obtain ⟨p, hp⟩ := List.exists_mem_of_ne_nil _ htagged
    obtain ⟨s, hs, hmem⟩ := Database.mem_tagsOf.mp hp
    rw [← hsame.2] at hmem
    refine List.ne_nil_of_mem (a := p)
      (Database.mem_tagsOf.mpr ⟨t.2.id, List.mem_singleton_self _, ?_⟩)
    rcases List.mem_cons.mp hs with rfl | hs
    · exact (always_propagateProcessTags fun d t' _ => htagMem ⟨t.2.id, p⟩ d t' _).run hmem hpropagate
    · exact run_propagate hpropagate t.2.id (List.mem_map_of_mem ht) p
        (Database.mem_tagsOf.mpr ⟨s, hs, hmem⟩)
theorem run_dispatchProjector {ctx : Uuid → ProjectorCtx} {projector : Option Projector}
    (h : (dispatchProjector rd netId ctx projector).run db = some (db', ())) :
    status? db' g = status? db g ∨ (status? db g = none ∧ status? db' g = some "pending") := by
  cases projector with
  | none =>
    obtain rfl := (Prod.mk.inj (Option.some.inj h)).1
    exact Or.inl rfl
  | some projector =>
    obtain ⟨db₁, workspaceId, hworkspace, h⟩ := run_bind_eq_some.mp h
    obtain ⟨rfl, -⟩ := Prod.mk.inj (Option.some.inj hworkspace)
    by_cases htask : projector = .humanTask
    · subst htask
      exact run_recordTaskEvent h
    · have hkeeps := (blind_tasks db.tasks).project_of_ne rd (ctx workspaceId)
        (fun key linkType => tasks_linkEgress db.tasks key _ _ linkType) htask
      exact Or.inl (status?_congr (hkeeps.run rfl h))

theorem run_process {m : Message} (h : (process rd m).run db = some (db', ())) :
    Leads (moves g db m) (status? db g) (status? db' g) ∨
      (moves g db m = [] ∧ status? db g = none ∧ status? db' g = some "pending") := by
  have hkeep : db'.tasks = db.tasks → moves g db m = [] →
      Leads (moves g db m) (status? db g) (status? db' g) := by
    intro htasks hmoves
    rw [hmoves, status?_congr htasks]
    exact Leads.nil _
  cases m with
  | bridgeTransfer targetNetId signalKey =>
    obtain rfl := (Prod.mk.inj (Option.some.inj h)).1
    exact Or.inl (hkeep rfl rfl)
  | domainEvent netId e =>
    unfold process processDomainEvent at h
    dsimp only at h
    cases hevent : e.event with
    | transitionFired transitionId transitionName consumed produced read started completed =>
      rw [hevent] at h
      obtain ⟨db₁, ⟨⟩, hinsert, h⟩ := run_bind_eq_some.mp h
      obtain ⟨db₂, ⟨⟩, htokens, h⟩ := run_bind_eq_some.mp h
      obtain ⟨db₃, ⟨⟩, hpropagate, hpool⟩ := run_bind_eq_some.mp h
      obtain ⟨htasks, htags⟩ := run_firing_lead hinsert htokens hpropagate
      have hleads := run_projectPool (g := g)
        (fun t => db.tagsOf (t.2.id :: (consumed.map Prod.snd ++ tokenIds read)) ≠ [])
        (fun t ht htagged => by
          obtain ⟨t', ht', rfl⟩ := List.mem_map.mp ht
          exact htags t' ht' (of_decide_eq_true htagged)) hpool
      rw [List.filterMap_map, status?_congr htasks] at hleads
      refine Or.inl ?_
      simp only [moves, hevent]
      exact hleads
    | effectCompleted transitionId transitionName consumed produced handlerId effectResult read started
        completed =>
      rw [hevent] at h
      obtain ⟨db₁, ⟨⟩, hinsert, h⟩ := run_bind_eq_some.mp h
      obtain ⟨db₂, ⟨⟩, htokens, h⟩ := run_bind_eq_some.mp h
      obtain ⟨db₃, ⟨⟩, hpropagate, h⟩ := run_bind_eq_some.mp h
      obtain ⟨db₄, ⟨⟩, hlink, hproject⟩ := run_bind_eq_some.mp h
      have hlead : db₄.tasks = db.tasks := by
        rw [(always_linkSignal (blind_tasks db₃.tasks) (fun key linkType =>
          tasks_linkEgress db₃.tasks key netId _ linkType) _).run rfl hlink]
        exact (run_firing_lead hinsert htokens hpropagate).1
      have hmoves : moves g db (.domainEvent netId e) = [] := by simp only [moves, hevent]
      rcases run_dispatchProjector hproject with htasks | ⟨hnone, hpending⟩
      · rw [status?_congr hlead] at htasks
        rw [hmoves, htasks]
        exact Or.inl (Leads.nil _)
      · rw [status?_congr hlead] at hnone
        exact Or.inr ⟨hmoves, hnone, hpending⟩
    | effectFailed transitionId transitionName consumed produced handlerId message tokensConsumed input
        retryable =>
      rw [hevent] at h
      obtain ⟨db₁, ⟨⟩, hinsert, h⟩ := run_bind_eq_some.mp h
      have hmoves : moves g db (.domainEvent netId e) = [] := by simp only [moves, hevent]
      refine Or.inl (hkeep ?_ hmoves)
      split at h
      · obtain ⟨db₂, ⟨⟩, htokens, hpropagate⟩ := run_bind_eq_some.mp h
        exact (run_firing_lead hinsert htokens hpropagate).1
      · obtain rfl := (Prod.mk.inj (Option.some.inj h)).1
        exact ((blind_tasks db.tasks).insertEvent _).run rfl hinsert
    | tokenCreated token placeId placeName workflowId signalKey dedupId =>
      rw [hevent] at h
      obtain ⟨db₁, ⟨⟩, hinsert, h⟩ := run_bind_eq_some.mp h
      obtain ⟨db₂, ⟨⟩, htoken, h⟩ := run_bind_eq_some.mp h
      obtain ⟨db₃, ⟨⟩, hcreated, hpool⟩ := run_bind_eq_some.mp h
      obtain rfl := (Prod.mk.inj (Option.some.inj hinsert)).1
      obtain rfl := (Prod.mk.inj (Option.some.inj htoken)).1
      obtain ⟨hresult, htags⟩ := run_createdToken (g := g) hcreated
      have hleads := run_projectPool (g := g) (fun t => db.tagsOf [t.2.id] ≠ [])
        (fun t _ htagged => by
          obtain ⟨p, hp⟩ := List.exists_mem_of_ne_nil _ (of_decide_eq_true htagged)
          obtain ⟨s, hs, hmem⟩ := Database.mem_tagsOf.mp hp
          exact List.ne_nil_of_mem (Database.mem_tagsOf.mpr ⟨s, hs, htags _ hmem⟩)) hpool
      refine Or.inl ?_
      simp only [moves, hevent]
      refine hresult.append ?_
      rw [List.filterMap_cons, List.filterMap_nil] at hleads
      dsimp only at hleads
      cases hmove : poolMove g (decide (db.tagsOf [token.id] ≠ [])) placeName (colorJson token.color) with
      | none =>
        rw [hmove] at hleads
        exact hleads
      | some mv =>
        rw [hmove] at hleads
        exact hleads
    | tokenBridgedOut token sourcePlaceId sourcePlaceName targetNetId targetPlaceName transitionId
        signalKey producedByEvent replyTo replyChannels =>
      rw [hevent] at h
      obtain ⟨db₁, ⟨⟩, hlink, h⟩ := run_bind_eq_some.mp h
      obtain ⟨db₂, ⟨⟩, hinsert, htoken⟩ := run_bind_eq_some.mp h
      obtain rfl := (Prod.mk.inj (Option.some.inj hlink)).1
      obtain rfl := (Prod.mk.inj (Option.some.inj hinsert)).1
      obtain rfl := (Prod.mk.inj (Option.some.inj htoken)).1
      exact Or.inl (hkeep rfl (by simp only [moves, hevent]))
    | _ =>
      rw [hevent] at h
      obtain rfl := (Prod.mk.inj (Option.some.inj h)).1
      exact Or.inl (hkeep rfl (by simp [moves, hevent]))

end Messages

/-! ## Runs -/

section Runs

variable {rd : Reading} {g : String}

variable {mv : TaskMove} {m : Message} {s : State}

theorem ne_none_of_past {st : Option String} (h : mv.Past st) : st ≠ none := by
  cases mv with
  | offer tagged => exact h
  | hold => exact h.1
  | result r => exact h.1

/-- The status at the end of moves that fit. -/
def final (mvs : List TaskMove) (st : Option String) : Option String :=
  mvs.foldl (fun _ mv => some mv.status) st

theorem past_final {mvs : List TaskMove} : ∀ {st : Option String}, mv.Past st →
    AllFit st mvs → mv.Past (final mvs st) := by
  induction mvs with
  | nil =>
    intro st h _
    exact h
  | cons mv' mvs ih =>
    intro st h hall
    exact ih (TaskMove.past_mono h hall.1) hall.2

theorem past_of_allFit {mvs : List TaskMove} : ∀ {st : Option String}, AllFit st mvs →
    ∀ mv ∈ mvs, mv.Past (final mvs st) := by
  induction mvs with
  | nil =>
    intro st _ mv hmv
    cases hmv
  | cons mv' mvs ih =>
    intro st hall mv hmv
    rcases List.mem_cons.mp hmv with rfl | hmv
    · show mv.Past (final mvs (some mv.status))
      exact past_final (TaskMove.past_of_fits hall.1) hall.2
    · exact ih hall.2 mv hmv

theorem poolMove_past {a b : Bool} {placeName : Option String} {data : Json}
    (h : poolMove g a placeName data = some mv) :
    ∃ mv', poolMove g b placeName data = some mv' ∧ ∀ st, mv'.Past st → mv.Past st := by
  unfold poolMove at h ⊢
  split at h
  · next hgrant =>
    rw [if_pos hgrant]
    split at h
    · cases h
      exact ⟨_, rfl, fun _ hpast => hpast⟩
    · cases h
      exact ⟨_, rfl, fun _ hpast => hpast⟩
    · cases h
  · cases h

theorem moves_past (db db' : Database) {mv : TaskMove} (h : mv ∈ moves g db m) :
    ∃ mv' ∈ moves g db' m, ∀ st, mv'.Past st → mv.Past st := by
  unfold moves at h ⊢
  split at h
  · next netId e =>
    split at h
    · split at h
      · next hpool =>
        obtain ⟨t, ht, hmv⟩ := List.mem_filterMap.mp h
        obtain ⟨mv', hmv', hpast⟩ := poolMove_past hmv
        rw [if_pos hpool]
        exact ⟨mv', List.mem_filterMap.mpr ⟨t, ht, hmv'⟩, hpast⟩
      · cases h
    · rcases List.mem_append.mp h with h | h
      · exact ⟨mv, List.mem_append_left _ h, fun _ hpast => hpast⟩
      · split at h
        · next hpool =>
          obtain ⟨mv', hmv', hpast⟩ := poolMove_past (Option.mem_toList.mp h)
          refine ⟨mv', List.mem_append_right _ ?_, hpast⟩
          rw [if_pos hpool]
          exact Option.mem_toList.mpr hmv'
        · cases h
    · cases h
  · cases h

/-- The task follows the net, and what was said is past. -/
structure Listed (g : String) (s : State) : Prop where
  follows : Follows g s
  past : ∀ m ∈ s.seen, ∀ db, ∀ mv ∈ moves g db m, mv.Past (status? s.db g)

theorem listed_fresh {db' : Database} (h : Listed g s) (htimely : AllFit (status? s.db g) (moves g s.db m))
    (hrun : (process rd m).run s.db = some (db', ())) :
    Listed g ⟨db', m :: s.seen, final (moves g s.db m) s.latest⟩ := by
  rcases run_process (g := g) hrun with hleads | ⟨hmoves, hnone, hpending⟩
  · have hstatus : status? db' g = final (moves g s.db m) (status? s.db g) :=
      leads_of_fits hleads htimely
    constructor
    · intro st hlatest
      show status? db' g = some st
      rw [hstatus]
      cases hm : moves g s.db m with
      | nil =>
        rw [hm] at hlatest
        exact h.follows st hlatest
      | cons mv mvs =>
        rw [hm] at hlatest
        exact hlatest
    · intro m' hm' db mv hmv
      show mv.Past (status? db' g)
      rw [hstatus]
      rcases List.mem_cons.mp hm' with rfl | hm'
      · obtain ⟨mv', hmv', hpast⟩ := moves_past db s.db hmv
        exact hpast _ (past_of_allFit htimely mv' hmv')
      · exact past_final (h.past m' hm' db mv hmv) htimely
  · have hlatest : s.latest = none := by
      cases hlast : s.latest with
      | none => rfl
      | some st => exact absurd ((h.follows st hlast).symm.trans hnone) (by simp)
    constructor
    · intro st hst
      rw [hmoves, hlatest] at hst
      exact absurd hst (by simp [final])
    · intro m' hm' db mv hmv
      rcases List.mem_cons.mp hm' with rfl | hm'
      · obtain ⟨mv', hmv', -⟩ := moves_past db s.db hmv
        rw [hmoves] at hmv'
        cases hmv'
      · exact absurd hnone (ne_none_of_past (h.past m' hm' db mv hmv))

theorem listed_again {db' : Database} (h : Listed g s) (hm : m ∈ s.seen)
    (hrun : (process rd m).run s.db = some (db', ())) : Listed g { s with db := db' } := by
  rcases run_process (g := g) hrun with hleads | ⟨-, hnone, -⟩
  · have hstatus : status? db' g = status? s.db g :=
      leads_of_past hleads fun mv hmv => h.past m hm s.db mv hmv
    constructor
    · intro st hlatest
      exact hstatus.trans (h.follows st hlatest)
    · intro m' hm' db mv hmv
      show mv.Past (status? db' g)
      rw [hstatus]
      exact h.past m' hm' db mv hmv
  · constructor
    · intro st hlatest
      exact absurd ((h.follows st hlatest).symm.trans hnone) (by simp)
    · intro m' hm' db mv hmv
      exact absurd hnone (ne_none_of_past (h.past m' hm' db mv hmv))

theorem listed_step {s' : State} {d : Delivery} (h : Listed g s) (htimely : Timely g s d)
    (hstep : step rd g s d = some s') : Listed g s' := by
  cases d with
  | fresh m =>
    obtain ⟨⟨db', ⟨⟩⟩, hrun, rfl⟩ := Option.map_eq_some_iff.mp hstep
    exact listed_fresh h htimely hrun
  | again m =>
    unfold step at hstep
    dsimp only at hstep
    split at hstep
    · next hm =>
      obtain ⟨⟨db', ⟨⟩⟩, hrun, rfl⟩ := Option.map_eq_some_iff.mp hstep
      exact listed_again h hm hrun
    · cases hstep

theorem listed_initial (instances : List WorkflowInstance) : Listed g (.initial instances) where
  follows st hst := absurd hst (by simp [State.initial])
  past m hm := absurd hm List.not_mem_nil

/-- **While every offer, hold and result fits, the task has the status of the latest of them.** -/
theorem task_follows (rd : Reading) (g : String) (instances : List WorkflowInstance)
    {run : List Delivery} {s : State} (htimely : Along (step rd g) (Timely g) (.initial instances) run)
    (h : exec (step rd g) (.initial instances) run = some s) : Follows g s :=
  (exec_invariant_along (fun _ _ _ => listed_step) (listed_initial instances) htimely h).follows

end Runs

/-! ## A task that is offered again -/

section Again

def token (n : Nat) (fields : List (String × Json)) : Token :=
  Token.new ⟨BitVec.ofNat 128 n⟩ ⟨0⟩ (.data (.obj fields))

def message (netId : String) (sequence : Nat) (event : DomainEvent) : Message :=
  .domainEvent netId ⟨sequence, ⟨0⟩, event, "", none⟩

def fired (transition : String) (consumed : List (String × Nat)) (produced : List (String × Token)) :
    DomainEvent :=
  .transitionFired ⟨transition⟩ none (consumed.map fun t => (⟨t.1⟩, ⟨BitVec.ofNat 128 t.2⟩))
    (produced.map fun t => (⟨t.1⟩, t.2)) [] none none

/-- An activation of the task: the claim goes to the pool, where it is offered. -/
def offer (n : Nat) (key : String) : List Message :=
  [message "mekhan-a" (4 * n + 1) (fired "t_review_claim" [("p_review_input", 0)]
      [("p_review_claim_out", token (4 * n + 1) [])]),
    message "mekhan-a" (4 * n + 2) (.tokenBridgedOut (token (4 * n + 1) []) ⟨"p_review_claim_out"⟩
      "Offer Task" "pool-r" "claim_inbox" ⟨"t_review_claim"⟩ key (some (4 * n + 1)) none none),
    message "pool-r" (4 * n + 1) (.tokenCreated (token (4 * n + 2) []) ⟨"claim_inbox"⟩
      (some "claim_inbox") none (some key) none),
    message "pool-r" (4 * n + 2) (fired "t_post_offer" [("claim_inbox", 4 * n + 2)]
      [("offers", token (4 * n + 3) [("grant_id", .str "a:review")])])]

/-- The task is claimed, and its result comes. -/
def claimAndComplete : List Message :=
  [message "pool-r" 3 (fired "t_register" [("register_inbox", 4)]
      [("in_use", token 4 [("grant_id", .str "a:review"), ("runner_id", .str "ada")])]),
    message "mekhan-a" 3 (.tokenCreated (token 40 [("status", .str "completed")]) ⟨"p_review_signal"⟩
      (some "p_review_signal") none (some "a:review") none)]

def seed : Message :=
  message "mekhan-a" 0 (.tokenCreated (token 0 []) ⟨"p_start"⟩ (some "p_start") none none none)

/-- One activation, with its offer and its result delivered twice. -/
def once : List Delivery :=
  (seed :: offer 0 "k0").map .fresh ++ (offer 0 "k0").map .again ++ claimAndComplete.map .fresh ++
    (claimAndComplete ++ offer 0 "k0").map .again

theorem task_follows_once : ∃ s, exec (step .plain "a:review") (.initial []) once = some s ∧
    s.latest = some "completed" ∧ Follows "a:review" s := by
  have hrun : (exec (step .plain "a:review") (.initial []) once).isSome = true := by decide
  obtain ⟨s, hs⟩ := Option.isSome_iff_exists.mp hrun
  have hlatest : (exec (step .plain "a:review") (.initial []) once).bind State.latest =
      some "completed" := by decide
  rw [hs] at hlatest
  exact ⟨s, hs, hlatest, task_follows .plain "a:review" [] (by decide) hs⟩

/-- Two activations, the second one parked in the pool. -/
def twice : List Delivery := (seed :: offer 0 "k0" ++ claimAndComplete ++ offer 1 "k1").map .fresh

/-- The second offer of the task, which is parked in the pool, is listed as completed. -/
theorem second_offer_not_listed : ∃ s, exec (step .plain "a:review") (.initial []) twice = some s ∧
      s.latest = some "offered" ∧ status? s.db "a:review" = some "completed" ∧ ¬ Follows "a:review" s := by
  have hrun : (exec (step .plain "a:review") (.initial []) twice).isSome = true := by decide
  obtain ⟨s, hs⟩ := Option.isSome_iff_exists.mp hrun
  have hlatest : (exec (step .plain "a:review") (.initial []) twice).bind State.latest =
      some "offered" := by decide
  have hstatus : (exec (step .plain "a:review") (.initial []) twice).bind
      (fun s => status? s.db "a:review") = some "completed" := by decide
  rw [hs] at hlatest hstatus
  refine ⟨s, hs, hlatest, hstatus, fun hfollows => ?_⟩
  exact absurd (hstatus.symm.trans (hfollows "offered" hlatest)) (by decide)

end Again

end TaskList

end Mekhan
