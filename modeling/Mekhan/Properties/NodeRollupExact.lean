import Mekhan.Infra.Runs
import Mekhan.Projections.NodeRollup
import Mekhan.Properties.StepOutcomes

/-!
# The node rollup and the rows

A batch counts again the buckets of the statuses that it writes. The bucket of the status that a row had
before is counted again only where that is the same: the rollup is the aggregate of the rows as long as no
row leaves a terminal status (`rollup_exact`).

It is not otherwise, and the projection does make such rows: of two activations of a node that overlap, both
are projected onto the second one's row, so a completed row fails (`bucket_stranded`).
-/

namespace Mekhan

namespace StepExecutions

open Infra

/-! ## What a statement does to an aggregate -/

namespace Db

variable {durationMs : DateTime → DateTime → Int} {db : Db} {template : TemplateVersion} {nodeId : String}
  {status : StepStatus}

variable {ctx : InstanceContext} {row : StepExecutionRow}

theorem key_upserted {old : Option StoredRow} (hold : ∀ r, old = some r → r.key = (ctx.instanceId, row.key)) :
    (upserted ctx old row).key = (ctx.instanceId, row.key) := by
  cases old with
  | none => rfl
  | some r => exact Prod.ext (congrArg (·.1) (hold r rfl)) rfl

@[simp] theorem status_upserted (ctx : InstanceContext) (old : Option StoredRow) (row : StepExecutionRow) :
    (upserted ctx old row).row.status = row.status := by
  cases old <;> rfl

@[simp] theorem nodeId_upserted (ctx : InstanceContext) (old : Option StoredRow) (row : StepExecutionRow) :
    (upserted ctx old row).row.nodeId = row.nodeId := by
  cases old <;> rfl

theorem aggregate_upsertRow_of_ne (hnew : (row.nodeId, row.status) ≠ (nodeId, status))
    (hold : ∀ r, db.stepExecution.get? (ctx.instanceId, row.key) = some r → row.lastSequence < r.row.lastSequence ∨
      (row.nodeId, r.row.status) ≠ (nodeId, status)) :
    (db.upsertRow ctx row).aggregate durationMs template nodeId status =
      db.aggregate durationMs template nodeId status := by
  unfold upsertRow
  dsimp only
  split
  · rfl
  · next hstale =>
    have hkey : (upserted ctx (db.stepExecution.get? (ctx.instanceId, row.key)) row).key =
        (ctx.instanceId, row.key) := key_upserted fun r hr => KeyedList.key_of_get? hr
    have hsame := KeyedList.filter_insert_of_not (m := db.stepExecution)
      (a := upserted ctx (db.stepExecution.get? (ctx.instanceId, row.key)) row)
      (p := inBucket template nodeId status) ?new ?old
    case new =>
      by_contra hin
      simp only [inBucket, status_upserted, nodeId_upserted, Bool.not_eq_false, Bool.and_eq_true,
        decide_eq_true_iff] at hin
      exact hnew (Prod.ext hin.1.2 hin.2)
    case old =>
      intro r hr
      rw [hkey] at hr
      have hnode : r.row.nodeId = row.nodeId := congrArg (·.2.1) (KeyedList.key_of_get? hr)
      have hfresh : ¬ row.lastSequence < r.row.lastSequence := by
        simpa [isStale, hr] using hstale
      by_contra hin
      simp only [inBucket, Bool.not_eq_false, Bool.and_eq_true, decide_eq_true_iff] at hin
      rcases hold r hr with hlt | hne
      · exact hfresh hlt
      · exact hne (Prod.ext (hnode ▸ hin.1.2) hin.2)
    show (_, _) = (_, _)
    rw [hsame]

@[simp] theorem nodeRollup_upsertRow (db : Db) (ctx : InstanceContext) (row : StepExecutionRow) :
    (db.upsertRow ctx row).nodeRollup = db.nodeRollup := by
  unfold upsertRow
  dsimp only
  split <;> rfl

theorem bucketValue_upsertRow (db : Db) (ctx : InstanceContext) (row : StepExecutionRow) :
    (db.upsertRow ctx row).bucketValue template nodeId status = db.bucketValue template nodeId status := by
  rw [bucketValue, nodeRollup_upsertRow, bucketValue]

theorem aggregate_refreshBucket (nodeId' : String) (status' : StepStatus) :
    (db.refreshBucket durationMs template nodeId' status').aggregate durationMs template nodeId status =
      db.aggregate durationMs template nodeId status := rfl

theorem bucketValue_refreshBucket (nodeId' : String) (status' : StepStatus) :
    (db.refreshBucket durationMs template nodeId' status').bucketValue template nodeId status =
      if (nodeId, status) = (nodeId', status') then db.aggregate durationMs template nodeId status
      else db.bucketValue template nodeId status := by
  unfold bucketValue refreshBucket
  dsimp only
  rw [KeyedList.get?_insert]
  by_cases heq : (nodeId, status) = (nodeId', status')
  · cases heq
    have hkey : (template, nodeId, status) = (db.counted durationMs template nodeId status).key := rfl
    rw [if_pos rfl, if_pos hkey]
    rfl
  · have hkey : (template, nodeId, status) ≠ (db.counted durationMs template nodeId' status').key :=
      fun h => heq (Prod.mk.inj h).2
    rw [if_neg heq, if_neg hkey]

end Db

/-! ## The invariant -/

/-- A batch still has to recount the bucket. -/
def System.Owes (s : System) (b : String × StepStatus) : Prop :=
  ∃ net, ∃ batch ∈ (s.nets net).pending, b ∈ batch.touched

/-- Every bucket is exact or still to be counted. -/
structure RollupInv (fleet : Fleet) (s : System) : Prop where
  exactOrOwed : ∀ nodeId status, status.isTerminal →
    s.db.bucketValue fleet.template nodeId status = s.db.aggregate fleet.durationMs fleet.template nodeId status ∨
      s.Owes (nodeId, status)
  terminalOnly : ∀ b ∈ s.db.nodeRollup.toList, b.status.isTerminal

/-- The row that an upsert replaces does not leave a terminal status. -/
def keepsTerminal (fleet : Fleet) (s : System) : Action → Bool
  | .upsert net row =>
    match s.db.stepExecution.get? ((fleet.ctx net).instanceId, row.key) with
    | some r => !r.row.status.isTerminal || decide (row.lastSequence < r.row.lastSequence) || row.status = r.row.status
    | none => true
  | _ => true

variable {fleet : Fleet} {s s' : System}

theorem keepsTerminal_upsert {net : String} {row : StepExecutionRow} (h : keepsTerminal fleet s (.upsert net row))
    {r : StoredRow} (hr : s.db.stepExecution.get? ((fleet.ctx net).instanceId, row.key) = some r)
    (hterm : r.row.status.isTerminal) : row.lastSequence < r.row.lastSequence ∨ row.status = r.row.status := by
  simpa [keepsTerminal, hr, hterm] using h

/-! ## Debts -/

namespace System

theorem pending_setNet (s : System) (net net' : String) (p : NetProcess) :
    ((s.setNet net p).nets net').pending = if net' = net then p.pending else (s.nets net').pending := by
  show (Function.update s.nets net p net').pending = _
  by_cases h : net' = net
  · rw [if_pos h, h, Function.update_self]
  · rw [if_neg h, Function.update_of_ne h]

theorem Owes.setNet {b : String × StepStatus} (h : s.Owes b) {net : String} {p : NetProcess}
    (hkeep : ∀ batch ∈ (s.nets net).pending, b ∈ batch.touched → ∃ batch' ∈ p.pending, b ∈ batch'.touched) :
    (s.setNet net p).Owes b := by
  obtain ⟨net', batch, hmem, hb⟩ := h
  by_cases heq : net' = net
  · subst heq
    obtain ⟨batch', hmem', hb'⟩ := hkeep batch hmem hb
    exact ⟨net', batch', by rwa [pending_setNet, if_pos rfl], hb'⟩
  · exact ⟨net', batch, by rwa [pending_setNet, if_neg heq], hb⟩

end System

theorem rollupInv_start : RollupInv fleet .start where
  exactOrOwed _ _ _ := Or.inl rfl
  terminalOnly _ hb := absurd hb List.not_mem_nil

/-! ## Steps -/

theorem RollupInv.setNet (h : RollupInv fleet s) {net : String} {p : NetProcess}
    (hkeep : ∀ b, ∀ batch ∈ (s.nets net).pending, b ∈ batch.touched → ∃ batch' ∈ p.pending, b ∈ batch'.touched) :
    RollupInv fleet (s.setNet net p) where
  exactOrOwed nodeId status hterm := (h.exactOrOwed nodeId status hterm).imp_right (·.setNet (hkeep _))
  terminalOnly := h.terminalOnly

/-- A row is written. The bucket of its status is owed by its own batch; the one that it leaves is no
terminal one. -/
theorem RollupInv.upsert (h : RollupInv fleet s) {net : String} {row : StepExecutionRow} {batch : Batch}
    {batches : List Batch} (hpending : (s.nets net).pending = batch :: batches) (hrow : row ∈ batch.upserts)
    (hkeeps : keepsTerminal fleet s (.upsert net row)) :
    RollupInv fleet { s.setNet net ⟨(s.nets net).entry, batch.afterUpsert row :: batches⟩ with
      db := s.db.upsertRow (fleet.ctx net) row } where
  exactOrOwed nodeId status hterm := by
    by_cases hnew : (row.nodeId, row.status) = (nodeId, status)
    · right
      cases hnew
      refine ⟨net, batch.afterUpsert row, ?_, batch.covers row hrow hterm⟩
      rw [show ∀ db, (System.nets { s.setNet net _ with db := db } net).pending =
        ((s.setNet net ⟨(s.nets net).entry, batch.afterUpsert row :: batches⟩).nets net).pending from fun _ => rfl,
        System.pending_setNet, if_pos rfl]
      exact List.mem_cons_self ..
    · rcases h.exactOrOwed nodeId status hterm with hexact | howed
      · left
        rw [Db.bucketValue_upsertRow, Db.aggregate_upsertRow_of_ne hnew, hexact]
        intro r hr
        by_cases hold : r.row.status.isTerminal
        · refine (keepsTerminal_upsert hkeeps hr hold).imp_right fun heq => ?_
          rwa [← heq]
        · exact Or.inr fun heq => hold ((Prod.mk.inj heq).2 ▸ hterm)
      · right
        refine howed.setNet fun batch' hmem hb => ?_
        rw [hpending] at hmem
        rcases List.mem_cons.mp hmem with rfl | hmem
        · exact ⟨_, List.mem_cons_self .., hb⟩
        · exact ⟨batch', List.mem_cons_of_mem _ hmem, hb⟩
  terminalOnly := by
    show ∀ b ∈ (s.db.upsertRow (fleet.ctx net) row).nodeRollup.toList, _
    rw [Db.nodeRollup_upsertRow]
    exact h.terminalOnly

theorem RollupInv.refresh (h : RollupInv fleet s) {net nodeId : String} {status : StepStatus} {batch : Batch}
    {batches : List Batch} (hpending : (s.nets net).pending = batch :: batches)
    (hb : (nodeId, status) ∈ batch.touched) :
    RollupInv fleet { s.setNet net ⟨(s.nets net).entry, batch.afterRefresh (nodeId, status) :: batches⟩ with
      db := s.db.refreshBucket fleet.durationMs fleet.template nodeId status } where
  exactOrOwed nodeId' status' hterm := by
    rw [Db.bucketValue_refreshBucket, Db.aggregate_refreshBucket]
    by_cases heq : (nodeId', status') = (nodeId, status)
    · exact Or.inl (if_pos heq)
    · rw [if_neg heq]
      refine (h.exactOrOwed nodeId' status' hterm).imp_right fun howed => ?_
      refine howed.setNet fun batch' hmem hb' => ?_
      rw [hpending] at hmem
      rcases List.mem_cons.mp hmem with rfl | hmem
      · exact ⟨_, List.mem_cons_self .., (List.mem_erase_of_ne heq).mpr hb'⟩
      · exact ⟨batch', List.mem_cons_of_mem _ hmem, hb'⟩
  terminalOnly b hmem := by
    rcases List.mem_append.mp hmem with hmem | hmem
    · exact h.terminalOnly b (List.mem_of_mem_filter hmem)
    · rw [List.mem_singleton.mp hmem]
      exact batch.terminal _ hb

theorem RollupInv.step (h : RollupInv fleet s) {a : Action} (hkeeps : keepsTerminal fleet s a)
    (hstep : s.step fleet a = some s') : RollupInv fleet s' := by
  cases a with
  | message net ev history =>
    simp only [System.step] at hstep
    split at hstep
    · next hidle =>
      rw [← Option.some.inj hstep]
      rw [Bool.and_eq_true, List.isEmpty_iff] at hidle
      refine h.setNet fun b batch hmem => ?_
      rw [hidle.1] at hmem
      cases hmem
    · cases hstep
  | upsert net row =>
    cases hpending : (s.nets net).pending with
    | nil => simp [System.step, hpending] at hstep
    | cons batch batches =>
      simp only [System.step, hpending] at hstep
      split at hstep
      · next hrow =>
        rw [← Option.some.inj hstep]
        exact h.upsert hpending hrow hkeeps
      · cases hstep
  | refresh net nodeId status =>
    cases hpending : (s.nets net).pending with
    | nil => simp [System.step, hpending] at hstep
    | cons batch batches =>
      simp only [System.step, hpending] at hstep
      split at hstep
      · next hready =>
        rw [← Option.some.inj hstep]
        rw [Bool.and_eq_true, decide_eq_true_iff] at hready
        exact h.refresh hpending hready.2
      · cases hstep
  | batchDone net =>
    cases hpending : (s.nets net).pending with
    | nil => simp [System.step, hpending] at hstep
    | cons batch batches =>
      simp only [System.step, hpending] at hstep
      split at hstep
      · next hdone =>
        rw [← Option.some.inj hstep]
        rw [Bool.and_eq_true, List.isEmpty_iff, List.isEmpty_iff] at hdone
        refine h.setNet fun b batch' hmem hb => ?_
        rw [hpending] at hmem
        rcases List.mem_cons.mp hmem with rfl | hmem
        · rw [hdone.2] at hb
          cases hb
        · exact ⟨batch', hmem, hb⟩
      · cases hstep
  | evict net =>
    rw [← Option.some.inj hstep]
    exact h.setNet fun b batch hmem hb => ⟨batch, hmem, hb⟩

theorem RollupInv.exact (h : RollupInv fleet s) (hsettled : s.Settled) :
    s.db.RollupExact fleet.durationMs fleet.template := by
  have hnodes : ∀ nodeId status, status.isTerminal →
      s.db.bucketValue fleet.template nodeId status = s.db.aggregate fleet.durationMs fleet.template nodeId status := by
    intro nodeId status hterm
    rcases h.exactOrOwed nodeId status hterm with hexact | ⟨net, batch, hmem, -⟩
    · exact hexact
    · rw [hsettled net] at hmem
      cases hmem
  refine ⟨fun b hmem htemplate => ?_, hnodes⟩
  have hget : s.db.nodeRollup.get? (fleet.template, b.nodeId, b.status) = some b :=
    KeyedList.get?_eq_some_iff.mpr ⟨hmem, by rw [← htemplate]; rfl⟩
  have := hnodes b.nodeId b.status (h.terminalOnly b hmem)
  rwa [Db.bucketValue, hget] at this

/-- **The rollup is the aggregate of the rows** whenever no statement is left, in every run in which no row
that is stored with a terminal status gets another one. -/
theorem rollup_exact (fleet : Fleet) {as : List Action} {s : System}
    (hrun : exec (System.step fleet) .start as = some s)
    (hkeeps : Along (System.step fleet) (fun s a => keepsTerminal fleet s a) .start as) (hsettled : s.Settled) :
    s.db.RollupExact fleet.durationMs fleet.template :=
  (exec_invariant_along (I := RollupInv fleet) (fun _ _ _ h hk hs => h.step hk hs) rollupInv_start hkeeps
    hrun).exact hsettled

/-! ## A bucket that stays behind -/

def Action.net : Action → String
  | .message net .. | .upsert net _ | .refresh net .. | .batchDone net | .evict net => net

theorem nets_setNet_of_ne {net net' : String} {p : NetProcess} (h : net ≠ net') :
    (s.setNet net p).nets net' = s.nets net' := Function.update_of_ne h.symm ..

theorem nets_of_step {a : Action} {net : String} (hne : a.net ≠ net) (h : s.step fleet a = some s') :
    s'.nets net = s.nets net := by
  cases a
  all_goals
    simp only [System.step] at h
    repeat' split at h
  all_goals
    cases h
    try exact nets_setNet_of_ne hne

namespace RollupRuns

open MapRuns

def mapFleet : Fleet where
  template := ⟨0, 1⟩
  instanceId _ := 0
  registry _ := registry
  log _ := [scattered, parked 1, submitFailed 2]
  durationMs started completed := completed.nanos - started.nanos

def openedRow (iteration : Nat) : StepExecutionRow :=
  (StepExecutionRow.opened "body" iteration .automatedStep (some ⟨0⟩)).addInbound "input" .null

def completedRow : StepExecutionRow :=
  (openedRow 1).fire (.build registry) "body" [(⟨"p_body_data"⟩, token 3)] [] 1 ⟨1⟩

def failedRow : StepExecutionRow :=
  completedRow.failure (State.failurePayload "boom" false true none) 2 ⟨2⟩

/-- The two items enter, and one of them is done. -/
def untilParked : List Action :=
  [.message "n" scattered 1, .upsert "n" (openedRow 0), .upsert "n" (openedRow 1), .batchDone "n",
    .message "n" (parked 1) 2, .upsert "n" completedRow, .refresh "n" "body" .completed, .batchDone "n"]

def untilFailed : List Action :=
  untilParked ++
    [.message "n" (submitFailed 2) 3, .upsert "n" failedRow, .refresh "n" "body" .failed, .batchDone "n"]

theorem settled_of_exec {s : System} {as : List Action} (hnet : ∀ a ∈ as, Action.net a = "n")
    (hrun : exec (System.step mapFleet) .start as = some s) (hn : (s.nets "n").pending = []) : s.Settled := by
  intro net
  by_cases heq : net = "n"
  · rwa [heq]
  · have hidle : s.nets net = System.start.nets net :=
      exec_invariant_along (I := fun s => s.nets net = System.start.nets net)
        (fun _ _ _ h ha hs => (nets_of_step ha hs).trans h) rfl
        (along_of_forall (P := fun a => Action.net a ≠ net) fun a ha hnet' => heq ((hnet a ha ▸ hnet').symm)) hrun
    rw [hidle]
    rfl

end RollupRuns

open RollupRuns

/-- The row of the second item leaves the bucket of the completed ones, which still counts it. -/
theorem bucket_stranded : ¬ ∀ (fleet : Fleet) (as : List Action) (s : System),
    exec (System.step fleet) .start as = some s → s.Settled →
      s.db.RollupExact fleet.durationMs fleet.template := by
  intro h
  cases hrun : exec (System.step mapFleet) .start untilFailed with
  | none => exact absurd (congrArg Option.isSome hrun) (by decide)
  | some s =>
    have hs : s = (exec (System.step mapFleet) .start untilFailed).getD .start := by rw [hrun, Option.getD_some]
    have hsettled : s.Settled := settled_of_exec (by decide) hrun (by rw [hs]; decide)
    have hbucket := (h mapFleet untilFailed s hrun hsettled).nodes "body" .completed rfl
    rw [hs] at hbucket
    exact absurd hbucket (by decide)

/-- Until then it is the aggregate: one item is done. -/
theorem rollup_exact_until_parked :
    ∃ s, exec (System.step mapFleet) .start untilParked = some s ∧ s.db.RollupExact mapFleet.durationMs mapFleet.template ∧
      s.db.bucketValue mapFleet.template "body" .completed = (1, 1) := by
  cases hrun : exec (System.step mapFleet) .start untilParked with
  | none => exact absurd (congrArg Option.isSome hrun) (by decide)
  | some s =>
    have hs : s = (exec (System.step mapFleet) .start untilParked).getD .start := by rw [hrun, Option.getD_some]
    refine ⟨s, rfl, ?_, ?_⟩
    · exact rollup_exact mapFleet hrun (by decide)
        (settled_of_exec (by decide) hrun (by rw [hs]; decide))
    · rw [hs]
      decide

end StepExecutions

end Mekhan
