import Mekhan.Executor.Worker

/-!
# Jobs off the queue

A delivery that cannot make the run directory or its lock file returns without a report, and the handler acknowledges
it like any other. Where the lock file is one that a crashed worker has left, nobody is going to report.
-/

namespace Mekhan

namespace JobSettled

open Infra Worker

variable {cfg : Config} {s s' : Fleet} {e : String}

/-- `execute` has not returned. -/
def Executing : Phase → Prop
  | .delivered | .accepted | .prepared | .locked | .registered _ | .running _ | .reported _ _ | .deregistered _ => True
  | .returned | .turnedAway | .acknowledged | .crashed => False

/-- The delivery has won the lock and its terminal status is still to come. -/
def Holds : Phase → Prop
  | .locked | .registered _ | .running _ => True
  | _ => False

instance : DecidablePred Executing
  | .delivered | .accepted | .prepared | .locked | .registered _ | .running _ | .reported _ _ | .deregistered _ =>
    .isTrue trivial
  | .returned | .turnedAway | .acknowledged | .crashed => .isFalse id

instance : DecidablePred Holds
  | .locked | .registered _ | .running _ => .isTrue trivial
  | .delivered | .accepted | .prepared | .reported _ _ | .deregistered _ | .returned | .turnedAway | .acknowledged
  | .crashed => .isFalse id

/-- A terminal status of the execution was published. -/
def Reported (s : Fleet) (e : String) : Prop := ∃ p ∈ s.published, p.1 = e ∧ isTerminal p.2 = true

/-- A delivery of the execution holds its lock. -/
def Held (s : Fleet) (e : String) : Prop := ∃ d ∈ s.deliveries, d.job.executionId = e ∧ Holds d.phase

instance (s : Fleet) (e : String) : Decidable (Reported s e) := inferInstanceAs (Decidable (∃ p ∈ s.published, _))

instance (s : Fleet) (e : String) : Decidable (Held s e) := inferInstanceAs (Decidable (∃ d ∈ s.deliveries, _))

/-- An acknowledged job that no worker is executing has a terminal status. -/
def Settled (s : Fleet) : Prop :=
  ∀ e ∈ s.acknowledged, (∀ d ∈ s.deliveries, d.job.executionId = e → ¬Executing d.phase) → Reported s e

instance (s : Fleet) : Decidable (Settled s) := inferInstanceAs (Decidable (∀ e ∈ s.acknowledged, _))

/-- The move ends `execute` without a report. -/
def TurnsAway : Move → Phase → Prop
  | .createDir false, .accepted | .lock false, .prepared => True
  | _, _ => False

instance (move : Move) (phase : Phase) : Decidable (TurnsAway move phase) := by
  unfold TurnsAway
  split <;> infer_instance

/-- A delivery is turned away only from a job that is reported or held, and a holder that has not reported does not
crash when the job is acknowledged or another worker is about to acknowledge it unreported. -/
def Careful (s : Fleet) : Action → Prop
  | .advance i move => ∀ d ∈ s.deliveries[i]?, TurnsAway move d.phase →
      Reported s d.job.executionId ∨ Held s d.job.executionId
  | .crash worker => ∀ d ∈ s.deliveries, d.worker = worker → Holds d.phase →
      Reported s d.job.executionId ∨ d.job.executionId ∉ s.acknowledged ∧
        ∀ d' ∈ s.deliveries, d'.worker ≠ worker → d'.job.executionId = d.job.executionId → d'.phase ≠ .turnedAway
  | .deliver _ _ | .cancel _ _ => True

instance (s : Fleet) : ∀ a, Decidable (Careful s a)
  | .advance _ _ => inferInstanceAs (Decidable (∀ _ ∈ _, _))
  | .crash _ => inferInstanceAs (Decidable (∀ _ ∈ _, _))
  | .deliver _ _ | .cancel _ _ => inferInstanceAs (Decidable True)

/-! ## The invariant -/

/-- Somebody has returned, or is reported to have returned, without knowing that the job is reported. -/
def Away (s : Fleet) (e : String) : Prop :=
  e ∈ s.acknowledged ∨ ∃ d ∈ s.deliveries, d.job.executionId = e ∧ d.phase = .turnedAway

/-- The delivery has published a terminal status. -/
def Done : Phase → Prop
  | .reported _ _ | .deregistered _ | .returned => True
  | _ => False

/-- Whoever has left the queue is reported or being run. -/
structure Inv (s : Fleet) : Prop where
  covered : ∀ e, Away s e → Reported s e ∨ Held s e
  done : ∀ d ∈ s.deliveries, Done d.phase → Reported s d.job.executionId

theorem Inv.settled (h : Inv s) : Settled s := by
  intro e he hidle
  refine (h.covered e (.inl he)).resolve_right ?_
  rintro ⟨d, hd, hde, hholds⟩
  refine hidle d hd hde ?_
  cases hphase : d.phase <;> simp [hphase, Holds, Executing] at hholds ⊢

theorem inv_empty : Inv .empty where
  covered e := by simp [Away, Fleet.empty]
  done _ hd := absurd hd List.not_mem_nil

theorem Reported.mono (h : ∀ p ∈ s.published, p ∈ s'.published) (hr : Reported s e) : Reported s' e :=
  let ⟨p, hp, hpe⟩ := hr
  ⟨p, h p hp, hpe⟩

/-- **What a delivery may do**: a holder goes on holding or reports, whoever has a report behind it has published one,
and nobody is turned away or acknowledges a job that is neither reported nor held. -/
theorem Inv.move (h : Inv s) {i : Nat} {d : Worker.Delivery} (hd : s.deliveries[i]? = some d) {phase : Phase}
    (hdeliveries : s'.deliveries = s.deliveries.set i { d with phase })
    (hpublished : ∀ p ∈ s.published, p ∈ s'.published)
    (hacknowledged : ∀ e ∈ s'.acknowledged, e ∈ s.acknowledged ∨ e = d.job.executionId ∧ (Reported s e ∨ Held s e))
    (haway : phase = .turnedAway → Reported s d.job.executionId ∨ Held s d.job.executionId)
    (hholds : Holds d.phase → Holds phase ∨ Reported s' d.job.executionId)
    (hdone : Done phase → Reported s' d.job.executionId) : Inv s' where
  covered e he := by
    have hbefore : Reported s e ∨ Held s e := by
      rcases he with hack | ⟨d', hd', rfl, hturned⟩
      · rcases hacknowledged e hack with hold | ⟨_, hnew⟩
        · exact h.covered e (.inl hold)
        · exact hnew
      · rw [hdeliveries] at hd'
        rcases List.mem_or_eq_of_mem_set hd' with hold | rfl
        · exact h.covered _ (.inr ⟨d', hold, rfl, hturned⟩)
        · exact haway hturned
    rcases hbefore with hreported | ⟨d', hd', rfl, hheld⟩
    · exact .inl (hreported.mono hpublished)
    · rcases eq_or_mem_set (b := { d with phase }) hd hd' with rfl | hmem
      · rcases hholds hheld with hnew | hreported
        · refine .inr ⟨{ d' with phase }, ?_, rfl, hnew⟩
          rw [hdeliveries]
          exact mem_set_self hd
        · exact .inl hreported
      · refine .inr ⟨d', ?_, rfl, hheld⟩
        rw [hdeliveries]
        exact hmem
  done d' hd' hdone' := by
    rw [hdeliveries] at hd'
    rcases List.mem_or_eq_of_mem_set hd' with hold | rfl
    · exact (h.done d' hold hdone').mono hpublished
    · exact hdone hdone'

/-! ## Steps -/

variable {d : Worker.Delivery}

theorem reported_report {status : ExecutionStatus} {i : Nat} {phase : Phase} (h : isTerminal status = true) :
    Reported ((s.report d status).setPhase i d phase) d.job.executionId :=
  ⟨_, List.mem_append_right _ (List.mem_singleton_self _), rfl, h⟩

theorem inv_advance (h : Inv s) {i : Nat} {d : Worker.Delivery} {move : Move} (hd : s.deliveries[i]? = some d)
    (hcareful : TurnsAway move d.phase → Reported s d.job.executionId ∨ Held s d.job.executionId)
    (hs : s.advance cfg i d move = some s') : Inv s' := by
  have hdone : Done d.phase → Reported s d.job.executionId := h.done d (List.mem_of_getElem? hd)
  have hsame : ∀ p ∈ s.published, p ∈ s.published := fun _ hp => hp
  have hmore : ∀ status, ∀ p ∈ s.published, p ∈ s.published ++ [(d.job.executionId, status)] :=
    fun _ p hp => List.mem_append_left _ hp
  have hacked : ∀ e ∈ s.acknowledged, e ∈ s.acknowledged ∨ e = d.job.executionId ∧ (Reported s e ∨ Held s e) :=
    fun _ he => .inl he
  unfold Fleet.advance at hs
  split at hs
  case h_1 _ hphase =>
    cases hs
    exact h.move hd rfl (hmore _) hacked (by simp) (by simp [hphase, Holds]) (by simp [Done])
  case h_2 _ hphase =>
    split at hs
    · cases hs
    · cases hs
      exact h.move hd rfl (hmore _) hacked (by simp) (by simp [hphase, Holds]) fun _ => reported_report rfl
  case h_3 succeeds hphase =>
    split at hs
    · cases hs
      cases succeeds with
      | true => exact h.move hd rfl hsame hacked (by simp) (by simp [hphase, Holds]) (by simp [Done])
      | false =>
        refine h.move hd rfl hsame hacked (fun _ => hcareful ?_) (by simp [hphase, Holds]) (by simp [Done])
        rw [hphase]
        trivial
    · cases hs
  case h_4 hphase =>
    split at hs
    · cases hs
    · cases hs
      exact h.move hd rfl hsame hacked (by simp) (by simp [hphase, Holds]) (by simp [Done])
  case h_5 hphase =>
    cases hs
    refine h.move hd rfl hsame hacked (fun _ => hcareful ?_) (by simp [hphase, Holds]) (by simp [Done])
    rw [hphase]
    trivial
  case h_6 hphase =>
    cases hs
    exact h.move hd rfl hsame hacked (by simp) (by simp [Holds]) (by simp [Done])
  case h_7 token hphase =>
    cases hs
    exact h.move hd rfl hsame hacked (by simp) (by simp [Holds]) (by simp [Done])
  case h_8 token hphase =>
    cases hs
    exact h.move hd rfl (hmore _) hacked (by simp) (fun _ => .inr (reported_report rfl)) fun _ => reported_report rfl
  case h_9 status token hphase =>
    split at hs
    · next hterminal =>
      cases hs
      exact h.move hd rfl (hmore _) hacked (by simp) (fun _ => .inr (reported_report hterminal))
        fun _ => reported_report hterminal
    · cases hs
  case h_10 token ending hphase =>
    have hreported : Reported s d.job.executionId := hdone (by rw [hphase]; trivial)
    cases ending with
    | none =>
      cases hs
      exact h.move hd rfl hsame hacked (by simp) (by simp [hphase, Holds]) fun _ => hreported
    | some status =>
      cases hs
      exact h.move hd rfl hsame hacked (by simp) (by simp [hphase, Holds]) fun _ => hreported
  case h_11 removed ending hphase =>
    have hreported : Reported s d.job.executionId := hdone (by rw [hphase]; trivial)
    split at hs
    · cases hs
      exact h.move hd rfl hsame hacked (by simp) (by simp [hphase, Holds]) fun _ => hreported
    · cases hs
      exact h.move hd rfl hsame hacked (by simp) (by simp [hphase, Holds]) fun _ => hreported
  case h_12 hphase =>
    cases hs
    refine h.move hd rfl hsame (fun e he => ?_) (by simp) (by simp [hphase, Holds]) (by simp [Done])
    rcases List.mem_cons.mp he with rfl | hold
    · exact .inr ⟨rfl, .inl (hdone (by rw [hphase]; trivial))⟩
    · exact .inl hold
  case h_13 hphase =>
    cases hs
    refine h.move hd rfl hsame (fun e he => ?_) (by simp) (by simp [hphase, Holds]) (by simp [Done])
    rcases List.mem_cons.mp he with rfl | hold
    · exact .inr ⟨rfl, h.covered _ (.inr ⟨d, List.mem_of_getElem? hd, rfl, hphase⟩)⟩
    · exact .inl hold
  case h_14 => cases hs

theorem inv_deliver (h : Inv s) (worker : Nat) (job : ExecutionJob) :
    Inv { s with deliveries := s.deliveries ++ [⟨worker, job, .delivered, false⟩] } where
  covered e he := by
    have hbefore : Away s e := by
      refine he.imp id ?_
      rintro ⟨d, hd, hde, hturned⟩
      rcases List.mem_append.mp hd with hold | hnew
      · exact ⟨d, hold, hde, hturned⟩
      · rw [List.mem_singleton.mp hnew] at hturned
        cases hturned
    refine (h.covered e hbefore).imp id ?_
    rintro ⟨d, hd, hholds⟩
    exact ⟨d, List.mem_append_left _ hd, hholds⟩
  done d hd hdone := by
    rcases List.mem_append.mp hd with hold | hnew
    · exact h.done d hold hdone
    · rw [List.mem_singleton.mp hnew] at hdone
      exact hdone.elim

theorem askDelivery_phase (worker : Nat) (executionId : String) (d : Worker.Delivery) :
    (Fleet.askDelivery worker executionId d).phase = d.phase ∧ (Fleet.askDelivery worker executionId d).job = d.job := by
  unfold Fleet.askDelivery
  split <;> exact ⟨rfl, rfl⟩

theorem inv_cancel (h : Inv s) (worker : Nat) (executionId : String) : Inv { s with
      cancelled := (s.registries worker executionId).toList ++ s.cancelled
      deliveries := s.deliveries.map (Fleet.askDelivery worker executionId) } where
  covered e he := by
    have hbefore : Away s e := by
      refine he.imp id ?_
      rintro ⟨d, hd, hde, hturned⟩
      obtain ⟨d, hmem, rfl⟩ := List.mem_map.mp hd
      rw [(askDelivery_phase ..).2] at hde
      rw [(askDelivery_phase ..).1] at hturned
      exact ⟨d, hmem, hde, hturned⟩
    refine (h.covered e hbefore).imp id ?_
    rintro ⟨d, hd, hde, hholds⟩
    refine ⟨_, List.mem_map_of_mem hd, ?_, ?_⟩
    · rw [(askDelivery_phase ..).2, hde]
    · rw [(askDelivery_phase ..).1]
      exact hholds
  done d hd hdone := by
    obtain ⟨d, hmem, rfl⟩ := List.mem_map.mp hd
    rw [(askDelivery_phase ..).1] at hdone
    rw [(askDelivery_phase ..).2]
    exact h.done d hmem hdone

theorem crashDelivery_of_ne {worker : Nat} (h : d.worker ≠ worker) :
    Fleet.crashDelivery worker d = d := if_neg h

theorem phase_crashDelivery (d : Worker.Delivery) :
    (Fleet.crashDelivery d.worker d).phase = .acknowledged ∨ (Fleet.crashDelivery d.worker d).phase = .crashed := by
  rw [Fleet.crashDelivery, if_pos rfl]
  cases d.phase <;> simp [Phase.crash]

theorem inv_crash (h : Inv s) {worker : Nat} (hcareful : Careful s (.crash worker)) : Inv { s with
      deliveries := s.deliveries.map (Fleet.crashDelivery worker)
      registries := Function.update s.registries worker .new } where
  covered e he := by
    have haway : e ∈ s.acknowledged ∨
        ∃ d ∈ s.deliveries, d.worker ≠ worker ∧ d.job.executionId = e ∧ d.phase = .turnedAway := by
      refine he.imp id ?_
      rintro ⟨d, hd, hde, hturned⟩
      obtain ⟨d, hmem, rfl⟩ := List.mem_map.mp hd
      by_cases hw : d.worker = worker
      · subst hw
        rcases phase_crashDelivery d with hphase | hphase <;> rw [hphase] at hturned <;> cases hturned
      · rw [crashDelivery_of_ne hw] at hde hturned
        exact ⟨d, hmem, hw, hde, hturned⟩
    have hbefore : Away s e := haway.imp id fun ⟨d, hd, _, hde⟩ => ⟨d, hd, hde⟩
    rcases h.covered e hbefore with hreported | ⟨d, hd, rfl, hholds⟩
    · exact .inl hreported
    · by_cases hw : d.worker = worker
      · -- The holder crashes, so nobody has been turned away, or there is a report.
        rcases hcareful d hd hw hholds with hreported | ⟨hack, hturned⟩
        · exact .inl hreported
        · rcases haway with hacked | ⟨d', hd', hw', hde', hphase⟩
          · exact absurd hacked hack
          · exact absurd hphase (hturned d' hd' hw' hde')
      · refine .inr ⟨d, ?_, rfl, hholds⟩
        exact List.mem_map.mpr ⟨d, hd, crashDelivery_of_ne hw⟩
  done d hd hdone := by
    obtain ⟨d, hmem, rfl⟩ := List.mem_map.mp hd
    by_cases hw : d.worker = worker
    · subst hw
      rcases phase_crashDelivery d with hphase | hphase <;> rw [hphase] at hdone <;> exact hdone.elim
    · rw [crashDelivery_of_ne hw] at hdone ⊢
      exact h.done d hmem hdone

theorem inv_step (s : Fleet) (a : Action) (s' : Fleet) (h : Inv s) (hcareful : Careful s a)
    (hs : s.step cfg a = some s') : Inv s' := by
  cases a with
  | deliver worker job => exact Option.some.inj hs ▸ inv_deliver h worker job
  | advance i move =>
    obtain ⟨d, hd, hs⟩ := Option.bind_eq_some_iff.mp hs
    exact inv_advance h hd (hcareful d hd) hs
  | cancel worker executionId => exact Option.some.inj hs ▸ inv_cancel h worker executionId
  | crash worker => exact Option.some.inj hs ▸ inv_crash h hcareful

/-- **An acknowledged job that no worker is executing has a terminal status**, in every run in which deliveries are
turned away only from jobs that are reported or held, and no holder crashes after that. -/
theorem job_settled {as : List Action} (hcareful : Along (Fleet.step cfg) Careful .empty as)
    (hrun : exec (Fleet.step cfg) .empty as = some s) : Settled s :=
  (exec_invariant_along inv_step inv_empty hcareful hrun).settled

/-! ## Runs -/

def twoWorkers : Config := ⟨fun _ _ => true, fun _ => .immediate⟩

def pythonJob : ExecutionJob := ⟨"run-1", "python"⟩

def upToLock (worker i : Nat) (succeeds : Bool) : List Action :=
  [.deliver worker pythonJob, .advance i .accept, .advance i (.createDir true), .advance i (.lock succeeds)]

/-- A worker crashes with the lock; the job is delivered to another one, which leaves it alone. -/
theorem job_lost : ¬∀ (cfg : Config) (as : List Action) (s : Fleet),
    exec (Fleet.step cfg) .empty as = some s → Settled s := by
  intro h
  have hlost : (exec (Fleet.step twoWorkers) .empty
      (upToLock 0 0 true ++ [.crash 0] ++ upToLock 1 1 false ++ [.advance 1 .ack])).any
        (fun s => !decide (Settled s)) = true := by decide
  obtain ⟨s, hs, hnot⟩ := (Option.any_eq_true ..).mp hlost
  simp [h _ _ s hs] at hnot

/-- A duplicate is turned away while the job runs. -/
def duplicateRun : List Action :=
  upToLock 0 0 true ++ upToLock 1 1 false ++
    [.advance 1 .ack, .advance 0 .register, .advance 0 (.stage true), .advance 0 (.finish .completed),
      .advance 0 .deregister, .advance 0 (.cleanUp true), .advance 0 .ack]

theorem job_settled_duplicate :
    ∃ s, exec (Fleet.step twoWorkers) .empty duplicateRun = some s ∧ s.acknowledged = ["run-1", "run-1"] ∧ Settled s := by
  have hrun : ((exec (Fleet.step twoWorkers) .empty duplicateRun).map (·.acknowledged)) = some ["run-1", "run-1"] := by
    decide
  obtain ⟨s, hs, hack⟩ := Option.map_eq_some_iff.mp hrun
  exact ⟨s, hs, hack, job_settled (by decide) hs⟩

end JobSettled

end Mekhan
