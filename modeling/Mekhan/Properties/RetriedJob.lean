import Mekhan.Infra.Runs
import Mekhan.Service.RetryTopology

/-!
# A retried job

A run of the lifecycle with its retry policy: any number of jobs come in, any signals, and the timers
fire at any moment after they were scheduled. Which transition fires when, and on which tokens, is left
open. A script that fails fails the net, and nothing fires any more.
-/

namespace Mekhan

namespace RetriedJob

open Infra RetryTopology
open ExecutorLifecycle (controlLeaves isMeta failedJob?)
open Rhai (prop int increment increment_int)

abbrev StepMarking := ColouredMarking StepPlace JobToken

/-! ## Runs -/

structure State where
  marking : StepMarking
  jobs : List RhaiMap
  /-- The calls of the executor to submit, by job. -/
  dispatches : List Nat
  exhausted : List Nat
  /-- The delays that were asked for, with the number of the attempt that failed, from zero. -/
  delays : List (Nat × Json)
  failed : Bool

def init : State := ⟨0, [], [], [], [], false⟩

/-- What the clockmaster puts on the payload of a timer that it fires. -/
structure TimerStamps where
  driftMs : Json
  scheduledAt : Json
  triggeredAt : Json

def TimerStamps.stamp (stamps : TimerStamps) (payload : RhaiMap) : RhaiMap :=
  [("drift_ms", stamps.driftMs), ("scheduled_at", stamps.scheduledAt), ("triggered_at", stamps.triggeredAt)] ++
    payload

inductive Action where
  /-- A job comes in, with these fields besides what it is prepared with. -/
  | arrive (fields : RhaiMap)
  /-- A status signal or a request to cancel. -/
  | signal (place : LifecyclePlace) (token : RhaiMap)
  | fireTimer (token : JobToken) (stamps : TimerStamps)
  | fire (t : StepTransition) (tokens : List JobToken) (answer : ClientAnswer)

def isSignal : LifecyclePlace → Bool
  | .sig _ | .cancelRequest => true
  | _ => false

section

variable (node : RetryNode)

/-- What `prepare` puts on a job. -/
def prepared (fields : RhaiMap) : RhaiMap :=
  [("run", int 0), ("retries", int 0), ("max_retries", int node.policy.maxRetries)] ++ fields

def attempt (s : State) (o : Nat) : Nat := s.dispatches.count o - 1

def record (s : State) (t : StepTransition) (tokens : List JobToken) (m : StepMarking) : State :=
  match t, tokens with
  | .lifecycle .submit, [x] => { s with marking := m, dispatches := x.origin :: s.dispatches }
  | .retryArm, [x] =>
    { s with
      marking := m
      delays := (delay node x.colour).toList.map (attempt s x.origin, ·) ++ s.delays }
  | .exhausted, [x] => { s with marking := m, exhausted := x.origin :: s.exhausted }
  | _, _ => { s with marking := m }

/-- The net fails; where that is what is left to do for an exhausted job, it is exhausted. -/
def fail (s : State) (t : StepTransition) (tokens : List JobToken) : State :=
  match t, tokens with
  | .exhaustedDeadend, [x] => { s with failed := true, exhausted := x.origin :: s.exhausted }
  | _, _ => { s with failed := true }

def step (s : State) : Action → Option State
  | .arrive fields =>
    some { s with
      marking := (.lifecycle .inbox, ⟨prepared node fields, s.jobs.length⟩) ::ₘ s.marking
      jobs := s.jobs ++ [prepared node fields] }
  | .signal place token =>
    if isSignal place then
      some { s with marking := (.lifecycle place, ⟨token, 0⟩) ::ₘ s.marking }
    else none
  | .fireTimer token stamps =>
    if (.armed, token) ∈ s.marking then
      some { s with
        marking := (.retryFire, ⟨stamps.stamp token.colour, token.origin⟩) ::ₘ
          s.marking.erase (.armed, token) }
    else none
  | .fire t tokens answer =>
    if s.failed then none
    else (stepNet node answer t).bind fun transition =>
      ((tracedNet transition).fire? s.marking tokens).map fun m =>
        if throws node t (tokens.map Traced.colour) then fail s t tokens
        else record node s t tokens m

/-! ## The property -/

/-- Where a job that is not exhausted can be at rest: it waits for the executor or for its timer, or
it has ended otherwise. -/
def isWaiting : StepPlace → Bool
  | .lifecycle .submitted | .lifecycle .accepted | .lifecycle .running | .lifecycle .cancelling
  | .lifecycle .completed | .lifecycle .cancelled | .lifecycle .deadLetter | .armed => true
  | _ => false

/-- What a retried step promises for each job. -/
structure Lawful (s : State) : Prop where
  dispatched : ∀ o, s.dispatches.count o ≤ node.policy.maxRetries + 1
  exhausted : ∀ o, s.exhausted.count o ≤ 1 ∧
    (o ∈ s.exhausted → s.dispatches.count o = node.policy.maxRetries + 1)
  /-- At rest a job that is nowhere else is exhausted. -/
  exhausts : ∀ answer, s.failed = false →
    Quiescent (fun t => (stepNet node answer t).map tracedNet) s.marking →
    ∀ o < s.jobs.length, o ∈ s.exhausted ∨
      ∃ p x, (p, x) ∈ s.marking ∧ x.origin = o ∧ isWaiting p = true
  /-- The net fails only where a job is exhausted. -/
  fails : s.failed = true → s.exhausted ≠ []
  delays : ∀ x ∈ s.delays, (∃ n, x.2 = int n) ∧
    (node.policy.backoff = .exponential → x.2 = int (node.policy.baseDelayMs * 2 ^ x.1))
  leaves : ∀ x, (.lifecycle .completed, x) ∈ s.marking →
    ∃ job, s.jobs[x.origin]? = some job ∧ controlLeaves x.colour = controlLeaves job

/-- Whether the delay of the job's next retry fits. -/
def delayFits (f : RhaiMap) : Bool :=
  match node.policy.backoff, prop f "retries" with
  | .exponential, .num (.posInt k) => node.policy.baseDelayMs * 2 ^ k < 2 ^ 63
  | _, _ => node.policy.baseDelayMs < 2 ^ 63

/-- The transitions that take a failed job on. -/
def isFailure : LifecycleTransition → Bool
  | .tFailed | .tFailedPreRun | .tTimeout | .tTimeoutPreRun => true
  | _ => false

/-- Only jobs without control leaves fail, delays fit, and timers are scheduled. -/
def kept : Action → Bool
  | .fire (.lifecycle t) (x :: _) _ => !isFailure t || (controlLeaves x.colour).isEmpty
  | .fire .retryArm [x] _ => delayFits node x.colour
  | .fire .retrySchedule _ (.error _ _) => false
  | _ => true

/-! ## The invariant -/

inductive Kind where
  | ready
  /-- A job that is to be dispatched when its timer has fired. -/
  | delayed
  | dispatched
  | failing
  | completed
  /-- What is left of a job that was cancelled, or could not be dispatched. -/
  | ended
  | exhausted
  | timer
  /-- The error of a call on behalf of a job. -/
  | error
  | aside
  deriving DecidableEq

def kind : StepPlace → Kind
  | .lifecycle .inbox => .ready
  | .armed | .retryFire => .delayed
  | .lifecycle .submitted | .lifecycle .accepted | .lifecycle .running | .lifecycle .cancelling =>
    .dispatched
  | .lifecycle .failed | .lifecycle .timedOut | .failure => .failing
  | .lifecycle .completed => .completed
  | .lifecycle .cancelled | .lifecycle .deadLetter => .ended
  | .error => .exhausted
  | .retryTimer => .timer
  | .lifecycle .effectErrors => .error
  | _ => .aside

/-- The job has its number of retries on it. -/
structure Carries (c : RhaiMap) (k : Nat) : Prop where
  retries : prop c "retries" = int k
  maxRetries : prop c "max_retries" = int node.policy.maxRetries
  le : k ≤ node.policy.maxRetries

/-- Control leaves the step as it came in. -/
def Leaves (jobs : List RhaiMap) (o : Nat) (c : RhaiMap) : Prop :=
  ∃ job, jobs[o]? = some job ∧ controlLeaves c = controlLeaves job

/-- What is known of the token of a job that was dispatched `n` times. -/
def Rel (jobs : List RhaiMap) (n : Nat) (x : JobToken) : Kind → Prop
  | .ready => Leaves jobs x.origin x.colour ∧ Carries node x.colour n
  | .delayed => node.policy.backoff ≠ .immediate ∧ Leaves jobs x.origin x.colour ∧
      Carries node x.colour n
  | .dispatched => Leaves jobs x.origin x.colour ∧ ∃ k, n = k + 1 ∧ Carries node x.colour k
  | .failing => Leaves jobs x.origin [] ∧ ∃ k, n = k + 1 ∧ Carries node x.colour k
  | .completed => Leaves jobs x.origin x.colour ∧ n ≤ node.policy.maxRetries + 1
  | .ended => n ≤ node.policy.maxRetries + 1
  | .exhausted => n = node.policy.maxRetries + 1
  | .timer => ∃ payload k delayMs, n = k + 1 ∧ prop x.colour "payload" = .obj payload ∧
      prop x.colour "delay_ms" = int delayMs ∧ Leaves jobs x.origin payload ∧
      Carries node payload (k + 1) ∧ node.policy.backoff ≠ .immediate
  | .error => ∃ job k, n = k + 1 ∧ failedJob? x.colour = some job ∧ Leaves jobs x.origin job ∧
      Carries node job k
  | .aside => True

def originAt (x : StepPlace × JobToken) : Multiset Nat :=
  if kind x.1 = .aside then 0 else {x.2.origin}

def exhaustedAt (x : StepPlace × JobToken) : Multiset Nat :=
  if kind x.1 = .exhausted then {x.2.origin} else 0

/-- Each token belongs to a job, and says how often it was tried. -/
structure Inv (s : State) : Prop where
  rel : ∀ p x, (p, x) ∈ s.marking → Rel node s.jobs (s.dispatches.count x.origin) x (kind p)
  once : total originAt s.marking = Multiset.range s.jobs.length
  known : ∀ o ∈ s.dispatches, o < s.jobs.length
  exhausted : s.failed = false → total exhaustedAt s.marking = ↑s.exhausted
  exhaustedOnce : ∀ o, s.exhausted.count o ≤ 1 ∧
    (o ∈ s.exhausted → s.dispatches.count o = node.policy.maxRetries + 1)
  fails : s.failed = true → s.exhausted ≠ []
  delays : ∀ x ∈ s.delays, (∃ n, x.2 = int n) ∧
    (node.policy.backoff = .exponential → x.2 = int (node.policy.baseDelayMs * 2 ^ x.1))

variable {node}

theorem inv_init : Inv node init := by
  constructor <;> simp [init]

variable {s : State} {c : RhaiMap} {k n : Nat} {x : JobToken} {answer : ClientAnswer}
  {m : StepMarking} {jobs : List RhaiMap}

theorem Inv.ne_of_mem (h : Inv node s) {rest : StepMarking}
    {y z : StepPlace × JobToken} (hm : s.marking = y ::ₘ rest) (hy : kind y.1 ≠ .aside)
    (hz : z ∈ rest) (hz' : kind z.1 ≠ .aside) : z.2.origin ≠ y.2.origin := by
  obtain ⟨rest', rfl⟩ := Multiset.exists_cons_of_mem hz
  have hnodup : (total originAt s.marking).Nodup := h.once ▸ Multiset.nodup_range _
  rw [hm] at hnodup
  intro heq
  simp [originAt, hy, hz', heq] at hnodup

theorem exhaustedAt_le (x : StepPlace × JobToken) : exhaustedAt x ≤ originAt x := by
  unfold exhaustedAt originAt
  split
  · next hx => rw [if_neg (by rw [hx]; simp)]
  · exact Multiset.zero_le _

theorem total_exhaustedAt_le (m : StepMarking) : total exhaustedAt m ≤ total originAt m := by
  induction m using Multiset.induction_on with
  | empty => simp
  | cons x m ih =>
    rw [total_cons, total_cons]
    exact add_le_add (exhaustedAt_le x) ih

theorem exhaustedOnce_of_total
    (hrel : ∀ p x, (p, x) ∈ s.marking → Rel node s.jobs (s.dispatches.count x.origin) x (kind p))
    (honce : total originAt s.marking = Multiset.range n)
    (hexhausted : total exhaustedAt s.marking = ↑s.exhausted) (o : Nat) : s.exhausted.count o ≤ 1 ∧
      (o ∈ s.exhausted → s.dispatches.count o = node.policy.maxRetries + 1) := by
  constructor
  · have hle := Multiset.count_le_of_le o (total_exhaustedAt_le s.marking)
    rw [hexhausted, honce, Multiset.coe_count] at hle
    exact hle.trans (Multiset.nodup_iff_count_le_one.mp (Multiset.nodup_range n) o)
  · intro ho
    have hmem : o ∈ total exhaustedAt s.marking := by
      rw [hexhausted]
      exact Multiset.mem_coe.mpr ho
    obtain ⟨⟨p, x⟩, hx, hmem⟩ := mem_total.mp hmem
    unfold exhaustedAt at hmem
    split at hmem
    · next hp =>
      obtain rfl := Multiset.mem_singleton.mp hmem
      have hrel' := hrel p x hx
      rw [show kind p = .exhausted from hp] at hrel'
      exact hrel'
    · exact absurd hmem (Multiset.notMem_zero o)

theorem Inv.not_exhausted (h : Inv node s) (hrun : s.failed = false) {p : StepPlace}
    {x : JobToken} (hx : (p, x) ∈ s.marking) (hp : kind p ≠ .aside ∧ kind p ≠ .exhausted) :
    x.origin ∉ s.exhausted := by
  intro hmem
  have htotal : x.origin ∈ total exhaustedAt s.marking := by
    rw [h.exhausted hrun]
    exact Multiset.mem_coe.mpr hmem
  obtain ⟨⟨q, y⟩, hy, hmem⟩ := mem_total.mp htotal
  unfold exhaustedAt at hmem
  split at hmem
  · next hq =>
    have hq' : kind q = .exhausted := hq
    obtain ⟨rest, hm⟩ := Multiset.exists_cons_of_mem hx
    have hrest : (q, y) ∈ rest := by
      rw [hm] at hy
      refine (Multiset.mem_cons.mp hy).resolve_left fun heq => hp.2 ?_
      rw [← (Prod.mk.inj heq).1]
      exact hq'
    exact h.ne_of_mem hm hp.1 hrest (by simp [hq']) (Multiset.mem_singleton.mp hmem).symm
  · exact absurd hmem (Multiset.notMem_zero _)

/-! ## A firing moves the token of one job -/

/-- What a firing that moves the token of a job does to the rest of the state. -/
structure Moved (s s' : State) (p p' : StepPlace) (x x' : JobToken) : Prop where
  marking : ∃ rest before after : StepMarking, s.marking = (p, x) ::ₘ (before + rest) ∧
    s'.marking = (p', x') ::ₘ (after + rest) ∧ (∀ y ∈ before, kind y.1 = .aside) ∧
    ∀ y ∈ after, kind y.1 = .aside
  jobs : s'.jobs = s.jobs
  running : s.failed = false
  failed : s'.failed = s.failed
  origin : x'.origin = x.origin
  dispatches : ∀ o, o ≠ x.origin → s'.dispatches.count o = s.dispatches.count o
  exhausted : s'.exhausted = (if kind p' = .exhausted then [x.origin] else []) ++ s.exhausted

theorem total_aside {weight : StepPlace × JobToken → Multiset Nat}
    (hweight : ∀ y, kind y.1 = .aside → weight y = 0) (hm : ∀ y ∈ m, kind y.1 = .aside) :
    total weight m = 0 := by
  refine Multiset.sum_eq_zero fun v hv => ?_
  obtain ⟨y, hy, rfl⟩ := Multiset.mem_map.mp hv
  exact hweight y (hm y hy)

theorem originAt_aside (y : StepPlace × JobToken) (hy : kind y.1 = .aside) : originAt y = 0 := by
  simp [originAt, hy]

theorem exhaustedAt_aside (y : StepPlace × JobToken) (hy : kind y.1 = .aside) : exhaustedAt y = 0 := by
  simp [exhaustedAt, hy]

variable {p' : StepPlace} {x' : JobToken} {key : String} {v : Json} {c' f : RhaiMap}
  {rest : StepMarking} {t : StepTransition}

theorem Inv.moved {s' : State} {p : StepPlace} (h : Inv node s)
    (hmoved : Moved s s' p p' x x') (hp : kind p ≠ .aside ∧ kind p ≠ .exhausted) (hp' : kind p' ≠ .aside)
    (hrel : Rel node s.jobs (s'.dispatches.count x.origin) x' (kind p'))
    (hdelays : ∀ y ∈ s'.delays, (∃ n, y.2 = int n) ∧
      (node.policy.backoff = .exponential → y.2 = int (node.policy.baseDelayMs * 2 ^ y.1))) :
    Inv node s' := by
  obtain ⟨rest, before, after, hm, hm', hbefore, hafter⟩ := hmoved.marking
  have hrels : ∀ q y, (q, y) ∈ s'.marking →
      Rel node s'.jobs (s'.dispatches.count y.origin) y (kind q) := by
    intro q y hy
    rw [hmoved.jobs]
    rw [hm'] at hy
    rcases Multiset.mem_cons.mp hy with heq | hy
    · cases heq
      rw [hmoved.origin]
      exact hrel
    · rcases Multiset.mem_add.mp hy with hy | hy
      · rw [show kind q = .aside from hafter _ hy]
        trivial
      · have hmem : (q, y) ∈ s.marking := by
          rw [hm]
          exact Multiset.mem_cons_of_mem (Multiset.mem_add.mpr (Or.inr hy))
        by_cases hq : kind q = .aside
        · rw [hq]
          trivial
        · have hne := h.ne_of_mem hm hp.1 (Multiset.mem_add.mpr (Or.inr hy)) hq
          rw [hmoved.dispatches y.origin hne]
          exact h.rel q y hmem
  have honce : total originAt s'.marking = Multiset.range s.jobs.length := by
    rw [← h.once, hm, hm', total_cons, total_cons, total_add, total_add,
      total_aside originAt_aside hbefore, total_aside originAt_aside hafter]
    simp [originAt, hp.1, hp', hmoved.origin]
  have hexhausted : total exhaustedAt s'.marking = ↑s'.exhausted := by
    have hbefore' := h.exhausted hmoved.running
    rw [hm, total_cons, total_add, total_aside exhaustedAt_aside hbefore] at hbefore'
    simp only [exhaustedAt, hp.2, if_false, zero_add] at hbefore'
    rw [hm', total_cons, total_add, total_aside exhaustedAt_aside hafter, zero_add, hmoved.exhausted]
    by_cases hfinal : kind p' = .exhausted
    · simp only [exhaustedAt, hfinal, if_true, hmoved.origin, hbefore']
      exact Multiset.singleton_add _ _
    · simp only [exhaustedAt, hfinal, if_false, hbefore', zero_add, List.nil_append]
  have hknown : x.origin < s.jobs.length := by
    have hmem : x.origin ∈ total originAt s.marking :=
      mem_total.mpr ⟨(p, x), by rw [hm]; exact Multiset.mem_cons_self _ _, by simp [originAt, hp.1]⟩
    rw [h.once] at hmem
    exact Multiset.mem_range.mp hmem
  constructor
  · exact hrels
  · rw [hmoved.jobs]
    exact honce
  · intro o ho
    rw [hmoved.jobs]
    by_cases heq : o = x.origin
    · exact heq ▸ hknown
    · refine h.known o (List.count_pos_iff.mp ?_)
      rw [← hmoved.dispatches o heq]
      exact List.count_pos_iff.mpr ho
  · exact fun _ => hexhausted
  · exact exhaustedOnce_of_total hrels honce hexhausted
  · intro hfailed
    rw [hmoved.failed, hmoved.running] at hfailed
    cases hfailed
  · exact hdelays

/-! ## What the scripts keep -/

theorem controlLeaves_cons (hkey : isMeta key = false) : controlLeaves ((key, v) :: c) = controlLeaves c := by
  simp [controlLeaves, hkey]

theorem controlLeaves_append (keys : List String) (hc : c.map Prod.fst = keys)
    (hkeys : ∀ key ∈ keys, isMeta key = false) : controlLeaves (c ++ c') = controlLeaves c' := by
  have hnil : controlLeaves c = [] := by
    rw [controlLeaves, List.filter_eq_nil_iff]
    intro x hx
    simp [hkeys x.1 (hc ▸ List.mem_map_of_mem hx)]
  rw [controlLeaves, List.filter_append]
  exact (congrArg (· ++ controlLeaves c') hnil).trans (List.nil_append _)

theorem controlLeaves_eq_nil (keys : List String) (hc : c.map Prod.fst = keys)
    (hkeys : ∀ key ∈ keys, isMeta key = false) : controlLeaves c = [] := by
  rw [← List.append_nil c, controlLeaves_append keys hc hkeys]
  rfl

theorem controlLeaves_controlLeaves (job : RhaiMap) :
    controlLeaves (controlLeaves job) = controlLeaves job := by
  simp [controlLeaves]

theorem controlLeaves_done (job sig : RhaiMap) :
    controlLeaves (ExecutorLifecycle.done job sig) = controlLeaves job := by
  rw [ExecutorLifecycle.done, controlLeaves_append
    ["job_id", "run", "execution_id", "detail", "source", "status"] rfl
    (by with_unfolding_all decide), controlLeaves_controlLeaves]

theorem controlLeaves_resubmit (f : RhaiMap) : controlLeaves (resubmit f) = [] :=
  controlLeaves_eq_nil ["job_id", "run", "retries", "max_retries", "spec",
    "executor_namespace", "feed_chunks"] rfl (by with_unfolding_all decide)

theorem Carries.cons (h : Carries node c k)
    (hkey : key ≠ "retries" ∧ key ≠ "max_retries") : Carries node ((key, v) :: c) k where
  retries := by
    rw [PoolNet.prop_cons, if_neg fun heq => hkey.1 heq.symm]
    exact h.retries
  maxRetries := by
    rw [PoolNet.prop_cons, if_neg fun heq => hkey.2 heq.symm]
    exact h.maxRetries
  le := h.le

theorem Carries.lookup (h : Carries node c k) : c.lookup "retries" = some (int k) ∧
      c.lookup "max_retries" = some (int node.policy.maxRetries) := by
  have hsome : ∀ {key n}, prop c key = int n → c.lookup key = some (int n) := by
    intro key n hprop
    unfold prop at hprop
    cases hlookup : c.lookup key with
    | none => simp [hlookup, int] at hprop
    | some v =>
      rw [hlookup] at hprop
      exact congrArg some hprop
  exact ⟨hsome h.retries, hsome h.maxRetries⟩

theorem Carries.lt_two_pow (h : Carries node c k) : k < 2 ^ 63 :=
  h.le.trans_lt (node.policy.maxFits.trans (by decide))

theorem Carries.lt_iff (h : Carries node c k) :
    Rhai.lt (int k) (int node.policy.maxRetries) = true ↔ k < node.policy.maxRetries :=
  Rhai.lt_posInt h.lt_two_pow (node.policy.maxFits.trans (by decide))

theorem Carries.retriesLeft_iff (h : Carries node c k) :
    retriesLeft [c] = true ↔ k < node.policy.maxRetries := by
  rw [retriesLeft, h.retries, h.maxRetries]
  exact h.lt_iff

theorem Carries.retriesSpent_eq (h : Carries node c k) : retriesSpent [c] = !retriesLeft [c] := by
  rw [retriesSpent, retriesLeft, h.retries, h.maxRetries]
  exact Rhai.ge_posInt h.lt_two_pow (node.policy.maxFits.trans (by decide))

theorem Carries.resubmit (h : Carries node f k)
    (hlt : k < node.policy.maxRetries) : Carries node (resubmit f) (k + 1) where
  retries := by
    rw [← increment_int h.lt_two_pow, ← h.retries]
    rfl
  maxRetries := h.maxRetries
  le := hlt

theorem Carries.retried {job : RhaiMap} (h : Carries node job k)
    (hleft : ExecutorLifecycle.retriesLeft job = true) :
    Carries node (ExecutorLifecycle.retried job) (k + 1) where
  retries := by
    have hget : ExecutorLifecycle.getOr job "retries" 0 = int k := by
      rw [ExecutorLifecycle.getOr, h.lookup.1, Option.getD_some]
    rw [ExecutorLifecycle.retried, PoolNet.prop_cons, if_pos rfl, hget, increment_int h.lt_two_pow]
  maxRetries := by
    rw [ExecutorLifecycle.retried, PoolNet.prop_cons, if_neg (by decide)]
    exact h.maxRetries
  le := by
    rw [ExecutorLifecycle.retriesLeft, ExecutorLifecycle.getOr, ExecutorLifecycle.getOr, h.lookup.1,
      h.lookup.2, Option.getD_some, Option.getD_some] at hleft
    exact h.lt_iff.mp hleft

theorem Leaves.trans {o : Nat} (h : Leaves jobs o c)
    (hc : controlLeaves c' = controlLeaves c) : Leaves jobs o c' := by
  obtain ⟨job, hjob, hleaves⟩ := h
  exact ⟨job, hjob, hc.trans hleaves⟩

theorem shiftLeft_of_lt {base : Nat} (h : base * 2 ^ k < 2 ^ 63) :
    shiftLeft base k = (base * 2 ^ k : Nat) := by
  have hcast : (base : Int) * 2 ^ k = (base * 2 ^ k : Nat) := by
    rw [Int.natCast_mul, Int.natCast_pow]
    rfl
  unfold shiftLeft
  split
  · rw [hcast]
    generalize base * 2 ^ k = n at h
    exact Int.bmod_eq_of_le_mul_two (by omega) (by omega)
  · next hk =>
    -- A shift this far fits only for a base of zero.
    have hbase : base = 0 := by
      by_contra hne
      have hle : 2 ^ 64 ≤ base * 2 ^ k :=
        (Nat.pow_le_pow_right (by decide) (Nat.le_of_not_lt hk)).trans
          (Nat.le_mul_of_pos_left _ (Nat.pos_of_ne_zero hne))
      exact absurd (hle.trans_lt h) (by decide)
    simp [hbase]

theorem delay_of_fits (h : Carries node f k)
    (hfits : delayFits node f = true) : ∃ delayMs, delay node f = some (int delayMs) ∧
      (node.policy.backoff = .exponential → delayMs = node.policy.baseDelayMs * 2 ^ k) := by
  have hint : ∀ n, n < 2 ^ 63 → (Number.posInt n).asI64 = some (n : Int) := fun n hn => if_pos hn
  have hfixed : node.policy.baseDelayMs < 2 ^ 63 →
      Rhai.dynamicToJsonValue (int node.policy.baseDelayMs) = int node.policy.baseDelayMs := by
    intro hlt
    simp only [int, Rhai.dynamicToJsonValue, hint _ hlt]
    rfl
  unfold delayFits at hfits
  unfold delay
  cases hbackoff : node.policy.backoff with
  | immediate =>
    rw [hbackoff] at hfits
    exact ⟨_, congrArg some (hfixed (of_decide_eq_true hfits)), fun hexp => absurd hexp (by simp)⟩
  | fixed =>
    rw [hbackoff] at hfits
    exact ⟨_, congrArg some (hfixed (of_decide_eq_true hfits)), fun hexp => absurd hexp (by simp)⟩
  | exponential =>
    rw [hbackoff, h.retries] at hfits
    have hlt : node.policy.baseDelayMs * 2 ^ k < 2 ^ 63 := of_decide_eq_true hfits
    have hbase : node.policy.baseDelayMs < 2 ^ 63 :=
      (Nat.le_mul_of_pos_right _ (Nat.two_pow_pos k)).trans_lt hlt
    refine ⟨node.policy.baseDelayMs * 2 ^ k, ?_, fun _ => rfl⟩
    have hretries : (Number.posInt k).asU64 = some k := rfl
    simp only [h.retries, int, hint _ hbase, hretries, shiftLeft_of_lt hlt]
    rfl

/-! ## Firings -/

section

variable {s : State} {rest : StepMarking} {p p' : StepPlace} {x x' : JobToken}
  {before after : List (StepPlace × JobToken)}

theorem Inv.fired {dispatches exhausted : List Nat} {delays : List (Nat × Json)} (h : Inv node s)
    (hrun : s.failed = false) (hm : s.marking = rest + ↑((p, x) :: before))
    (hp : kind p ≠ .aside ∧ kind p ≠ .exhausted) (hp' : kind p' ≠ .aside)
    (hbefore : ∀ y ∈ before, kind y.1 = .aside) (hafter : ∀ y ∈ after, kind y.1 = .aside)
    (horigin : x'.origin = x.origin)
    (hdispatches : ∀ o, o ≠ x.origin → dispatches.count o = s.dispatches.count o)
    (hexhausted : exhausted = (if kind p' = .exhausted then [x.origin] else []) ++ s.exhausted)
    (hrel : Rel node s.jobs (dispatches.count x.origin) x' (kind p'))
    (hdelays : ∀ y ∈ delays, (∃ n, y.2 = int n) ∧
      (node.policy.backoff = .exponential → y.2 = int (node.policy.baseDelayMs * 2 ^ y.1))) :
    Inv node { s with
      marking := rest + ↑((p', x') :: after)
      dispatches := dispatches
      exhausted := exhausted
      delays := delays } := by
  have hcons : ∀ (y : StepPlace × JobToken) (l : List (StepPlace × JobToken)),
      rest + ↑(y :: l) = y ::ₘ (↑l + rest) := fun y l => by
    rw [← Multiset.cons_coe, Multiset.add_cons, add_comm]
  have hmoved : Moved s { s with
      marking := rest + ↑((p', x') :: after)
      dispatches := dispatches
      exhausted := exhausted
      delays := delays } p p' x x' :=
    ⟨⟨rest, ↑before, ↑after, hm.trans (hcons _ _), hcons _ _, hbefore, hafter⟩, rfl, hrun, rfl,
      horigin, hdispatches, hexhausted⟩
  exact h.moved hmoved hp hp' hrel hdelays

theorem Inv.advanced (h : Inv node s) (hrun : s.failed = false) (hm : s.marking = rest + ↑((p, x) :: before))
    (hp : kind p ≠ .aside ∧ kind p ≠ .exhausted) (hp' : kind p' ≠ .aside ∧ kind p' ≠ .exhausted)
    (hbefore : ∀ y ∈ before, kind y.1 = .aside) (hafter : ∀ y ∈ after, kind y.1 = .aside)
    (horigin : x'.origin = x.origin) (hrel : Rel node s.jobs (s.dispatches.count x.origin) x' (kind p')) :
    Inv node { s with marking := rest + ↑((p', x') :: after) } := by
  refine h.fired hrun hm hp hp'.1 hbefore hafter horigin (fun _ _ => rfl) ?_ hrel h.delays
  rw [if_neg hp'.2, List.nil_append]

theorem Inv.dropped (h : Inv node s) (hrun : s.failed = false)
    (hm : s.marking = rest + ↑[(p, x)]) (hp : kind p = .aside) :
    Inv node { s with marking := rest + ↑([] : List (StepPlace × JobToken)) } := by
  have hzero : ∀ {weight : StepPlace × JobToken → Multiset Nat}, weight (p, x) = 0 →
      total weight (rest + ↑([] : List (StepPlace × JobToken))) = total weight s.marking := by
    intro weight hweight
    rw [hm, total_add, total_add, total_coe, total_coe]
    simp [hweight]
  constructor
  · intro q y hy
    refine h.rel q y ?_
    rw [hm]
    exact Multiset.mem_add.mpr (Or.inl (by simpa using hy))
  · exact (hzero (originAt_aside _ hp)).trans h.once
  · exact h.known
  · exact fun _ => (hzero (exhaustedAt_aside _ hp)).trans (h.exhausted hrun)
  · exact h.exhaustedOnce
  · exact h.fails
  · exact h.delays

theorem Inv.rel_of_eq (h : Inv node s) (hm : s.marking = rest + ↑((p, x) :: before)) :
    Rel node s.jobs (s.dispatches.count x.origin) x (kind p) := by
  refine h.rel p x ?_
  rw [hm]
  exact Multiset.mem_add.mpr (Or.inr (Multiset.mem_coe.mpr List.mem_cons_self))

end

/-- A status moves a job that was dispatched; the failures among them are of jobs without leaves. -/
theorem rel_of_moves {t : LifecycleTransition} {source target : LifecyclePlace}
    {status : ExecutionStatus} {script : RhaiMap → RhaiMap → RhaiMap} (sig : RhaiMap)
    (hmoves : ExecutorLifecycle.Moves t source status target script)
    (hkept : isFailure t = true → controlLeaves x.colour = [])
    (h : Rel node jobs n x (kind (.lifecycle source))) :
    Rel node jobs n (x.next (script x.colour sig)) (kind (.lifecycle target)) := by
  have hdispatched : Rel node jobs n x .dispatched := by
    cases hmoves <;> exact h
  obtain ⟨hleaves, k, rfl, hcarries⟩ := hdispatched
  have hfailed : isFailure t = true → Leaves jobs x.origin [] := fun ht =>
    hleaves.trans (hkept ht).symm
  have hle := Nat.succ_le_succ hcarries.le
  cases hmoves with
  | accepted => exact ⟨hleaves, k, rfl, hcarries⟩
  | running => exact ⟨hleaves, k, rfl, hcarries⟩
  | success => exact ⟨hleaves.trans (controlLeaves_done x.colour sig), hle⟩
  | failed =>
    exact ⟨hfailed rfl, k, rfl, hcarries.1, hcarries.2, hcarries.3⟩
  | failedPreRun =>
    exact ⟨hfailed rfl, k, rfl, hcarries.1, hcarries.2, hcarries.3⟩
  | timeout =>
    exact ⟨hfailed rfl, k, rfl, hcarries.1, hcarries.2, hcarries.3⟩
  | timeoutPreRun =>
    exact ⟨hfailed rfl, k, rfl, hcarries.1, hcarries.2, hcarries.3⟩
  | cancelled => exact hle

theorem failedJob?_errorToken (message handlerId transitionId : String) (retryable : Bool)
    (job : RhaiMap) (inputs : List (String × Json)) :
    failedJob? (errorToken message handlerId transitionId retryable
      (("job", .obj job) :: inputs)) = some job := rfl

theorem inv_submit (h : Inv node s) (hrun : s.failed = false)
    (hm : s.marking = rest + ↑[(StepPlace.lifecycle .inbox, x)])
    (hp' : kind p' = .dispatched ∨ kind p' = .error) (horigin : x'.origin = x.origin)
    (hrel : ∀ k, Leaves s.jobs x.origin x.colour → Carries node x.colour k →
      Rel node s.jobs (k + 1) x' (kind p')) : Inv node { s with
      marking := rest + ↑[(p', x')]
      dispatches := x.origin :: s.dispatches } := by
  obtain ⟨hleaves, hcarries⟩ := h.rel_of_eq hm
  refine h.fired hrun hm (by simp [kind]) (by rcases hp' with hp' | hp' <;> simp [hp']) (by simp)
    (by simp) horigin (fun o ho => List.count_cons_of_ne fun heq => ho (by simpa using heq.symm)) ?_ ?_
    h.delays
  · rcases hp' with hp' | hp' <;> simp [hp']
  · rw [List.count_cons_self]
    exact hrel _ hleaves hcarries

theorem inv_fires {consumed produced : List (StepPlace × JobToken)} (h : Inv node s) (hrun : s.failed = false)
    (hfires : StepFires node answer t consumed produced) (hm : s.marking = rest + ↑consumed)
    (hkept : kept node (.fire t (consumed.map Prod.snd) answer) = true) :
    Inv node (record node s t (consumed.map Prod.snd) (rest + ↑produced)) := by
  cases hfires with
  | submit =>
    refine inv_submit h hrun hm (Or.inl rfl) rfl fun k hleaves hcarries => ?_
    exact ⟨hleaves.trans (controlLeaves_cons (by with_unfolding_all decide)), k, rfl, hcarries.cons (by decide)⟩
  | @submitError x message retryable =>
    refine inv_submit h hrun hm (Or.inr rfl) rfl fun k hleaves hcarries => ?_
    exact ⟨x.colour, k, rfl, failedJob?_errorToken .., hleaves, hcarries⟩
  | @track t source target status script x y hmoves =>
    have hrel := rel_of_moves y.colour hmoves (fun hfailure => by
      simpa [kept, hfailure] using hkept) (h.rel_of_eq hm)
    have hrecord : ∀ m, record node s (.lifecycle t) [x, y] m = { s with marking := m } := by
      cases hmoves <;> intro m <;> rfl
    rw [List.map_cons, List.map_cons, List.map_nil, hrecord]
    refine h.advanced hrun hm ?_ ?_ (by simp [kind]) (by simp) rfl hrel
    · cases hmoves <;> simp [kind]
    · cases hmoves <;> simp [kind]
  | cancel =>
    obtain ⟨hleaves, k, hk, hcarries⟩ := h.rel_of_eq hm
    refine h.advanced hrun hm (by simp [kind]) (by simp [kind]) (by simp [kind]) (by simp) rfl ?_
    exact ⟨hleaves.trans (controlLeaves_cons (by with_unfolding_all decide)), k, hk, hcarries.cons (by decide)⟩
  | @cancelError x y message retryable =>
    obtain ⟨hleaves, k, hk, hcarries⟩ := h.rel_of_eq hm
    refine h.advanced hrun hm (by simp [kind]) (by simp [kind]) (by simp [kind]) (by simp) rfl ?_
    exact ⟨x.colour, k, hk, failedJob?_errorToken .., hleaves, hcarries⟩
  | retryEffectErr hjob hleft =>
    obtain ⟨job, k, hk, hjob', hleaves, hcarries⟩ := h.rel_of_eq hm
    obtain rfl := Option.some.inj (hjob.symm.trans hjob')
    refine h.advanced hrun hm (by simp [kind]) (by simp [kind]) (by simp) (by simp) rfl ?_
    refine ⟨hleaves.trans (controlLeaves_cons (by with_unfolding_all decide)), ?_⟩
    rw [hk]
    exact hcarries.retried hleft
  | dlqEffectErr hjob =>
    obtain ⟨job, k, hk, -, -, hcarries⟩ := h.rel_of_eq hm
    refine h.advanced hrun hm (by simp [kind]) (by simp [kind]) (by simp) (by simp) rfl ?_
    exact hk ▸ Nat.succ_le_succ hcarries.le
  | @normalise t source reason x log hsource =>
    have hkind : kind (.lifecycle source) = .failing := by
      rcases hsource with ⟨-, rfl⟩ | ⟨-, rfl⟩ <;> rfl
    have hrel := h.rel_of_eq hm
    rw [hkind] at hrel
    obtain ⟨hleaves, k, hk, hcarries⟩ := hrel
    have hrecord : ∀ m, record node s t [x] m = { s with marking := m } := by
      rcases hsource with ⟨rfl, -⟩ | ⟨rfl, -⟩ <;> intro m <;> rfl
    rw [List.map_cons, List.map_nil, hrecord]
    refine h.advanced hrun hm (by simp [hkind]) (by simp [kind]) (by simp) (by simp [kind]) rfl ?_
    exact ⟨hleaves, k, hk, hcarries.1, hcarries.2, hcarries.3⟩
  | logFailure => exact h.dropped hrun hm rfl
  | retry hleft =>
    obtain ⟨hleaves, k, hk, hcarries⟩ := h.rel_of_eq hm
    refine h.advanced hrun hm (by simp [kind]) (by simp [kind]) (by simp) (by simp) rfl ?_
    refine ⟨hleaves.trans (controlLeaves_resubmit _), ?_⟩
    rw [hk]
    exact hcarries.resubmit (hcarries.retriesLeft_iff.mp hleft)
  | @retryArm x delayMs hbackoff hleft hdelay =>
    obtain ⟨hleaves, k, hk, hcarries⟩ := h.rel_of_eq hm
    obtain ⟨n, hn, hexponential⟩ := delay_of_fits hcarries hkept
    obtain rfl := Option.some.inj (hdelay.symm.trans hn)
    have hrecord : ∀ m, record node s .retryArm [x] m =
        { s with marking := m, delays := (attempt s x.origin, int n) :: s.delays } := by
      intro m
      simp only [record, hdelay, Option.toList_some, List.map_cons, List.map_nil, List.singleton_append]
    rw [List.map_cons, List.map_nil, hrecord]
    refine h.fired hrun hm (by simp [kind]) (by simp [kind]) (by simp) (by simp) rfl
      (fun _ _ => rfl) (by simp [kind]) ?_ ?_
    · exact ⟨resubmit x.colour, k, n, hk, rfl, rfl, hleaves.trans (controlLeaves_resubmit _),
        hcarries.resubmit (hcarries.retriesLeft_iff.mp hleft), hbackoff⟩
    · intro y hy
      rcases List.mem_cons.mp hy with rfl | hy
      · refine ⟨⟨n, rfl⟩, fun hexp => ?_⟩
        rw [attempt, hk, Nat.add_sub_cancel, hexponential hexp]
      · exact h.delays y hy
  | retrySchedule hanswer hdelay hpayload =>
    obtain ⟨payload', k, n, hk, hpayload', -, hleaves, hcarries, hbackoff⟩ := h.rel_of_eq hm
    obtain rfl := Json.obj.inj (hpayload.symm.trans hpayload')
    rw [Multiset.coe_eq_coe.mpr (List.Perm.swap _ _ [])]
    exact h.advanced hrun hm (by simp [kind]) (by simp [kind]) (by simp) (by simp [kind]) rfl
      ⟨hbackoff, hleaves, hk ▸ hcarries⟩
  | retryScheduleError hfailed =>
    obtain ⟨payload, k, n, -, hpayload, hdelay, -⟩ := h.rel_of_eq hm
    rcases hfailed with ⟨message, retryable, rfl⟩ | hfailed | hfailed
    · exact absurd hkept (by simp [kept])
    · exact absurd hdelay (hfailed n)
    · exact absurd hpayload (hfailed payload)
  | retryReinject =>
    obtain ⟨-, hleaves, hcarries⟩ := h.rel_of_eq hm
    exact h.advanced hrun hm (by simp [kind]) (by simp [kind]) (by simp) (by simp) rfl
      ⟨hleaves, hcarries⟩
  | exhausted hspent =>
    obtain ⟨hleaves, k, hk, hcarries⟩ := h.rel_of_eq hm
    refine h.fired hrun hm (by simp [kind]) (by simp [kind]) (by simp) (by simp) rfl
      (fun _ _ => rfl) (by simp [kind]) ?_ h.delays
    rw [hcarries.retriesSpent_eq, Bool.not_eq_true', Bool.eq_false_iff, Ne,
      hcarries.retriesLeft_iff] at hspent
    have hle := hcarries.le
    exact hk.trans (by omega)

/-! ## The other steps -/

theorem inv_arrive {fields : RhaiMap} (h : Inv node s) : Inv node { s with
      marking := (.lifecycle .inbox, ⟨prepared node fields, s.jobs.length⟩) ::ₘ s.marking
      jobs := s.jobs ++ [prepared node fields] } := by
  have hleaves : ∀ {o c}, Leaves s.jobs o c → Leaves (s.jobs ++ [prepared node fields]) o c := by
    rintro o c ⟨job, hjob, hleaves⟩
    exact ⟨job, by rw [List.getElem?_append_left (List.getElem?_eq_some_iff.mp hjob).1, hjob], hleaves⟩
  have hzero : s.dispatches.count s.jobs.length = 0 :=
    List.count_eq_zero.mpr fun hmem => Nat.lt_irrefl _ (h.known _ hmem)
  constructor
  · intro p x hx
    rcases Multiset.mem_cons.mp hx with heq | hx
    · cases heq
      refine ⟨⟨prepared node fields, by simp, rfl⟩, ?_⟩
      rw [hzero]
      exact ⟨rfl, rfl, Nat.zero_le _⟩
    · have hrel := h.rel p x hx
      cases hkind : kind p with
      | ready =>
        rw [hkind] at hrel
        exact ⟨hleaves hrel.1, hrel.2⟩
      | delayed =>
        rw [hkind] at hrel
        exact ⟨hrel.1, hleaves hrel.2.1, hrel.2.2⟩
      | dispatched =>
        rw [hkind] at hrel
        exact ⟨hleaves hrel.1, hrel.2⟩
      | failing =>
        rw [hkind] at hrel
        exact ⟨hleaves hrel.1, hrel.2⟩
      | completed =>
        rw [hkind] at hrel
        exact ⟨hleaves hrel.1, hrel.2⟩
      | ended =>
        rw [hkind] at hrel
        exact hrel
      | exhausted =>
        rw [hkind] at hrel
        exact hrel
      | timer =>
        rw [hkind] at hrel
        obtain ⟨payload, k, delayMs, hk, hpayload, hdelay, hold, hrest⟩ := hrel
        exact ⟨payload, k, delayMs, hk, hpayload, hdelay, hleaves hold, hrest⟩
      | error =>
        rw [hkind] at hrel
        obtain ⟨job, k, hk, hjob, hold, hcarries⟩ := hrel
        exact ⟨job, k, hk, hjob, hleaves hold, hcarries⟩
      | aside => trivial
  · rw [total_cons, h.once, List.length_append, List.length_singleton, Multiset.range_succ]
    rfl
  · intro o ho
    rw [List.length_append]
    exact Nat.lt_add_right _ (h.known o ho)
  · intro hrun
    rw [total_cons, h.exhausted hrun]
    exact zero_add _
  · exact h.exhaustedOnce
  · exact h.fails
  · exact h.delays

theorem inv_signal {place : LifecyclePlace} (h : Inv node s) (hplace : isSignal place = true) :
    Inv node { s with marking := (.lifecycle place, x) ::ₘ s.marking } := by
  have hkind : kind (.lifecycle place) = .aside := by
    cases place <;> first | rfl | exact absurd hplace (by simp [isSignal])
  constructor
  · intro p y hy
    rcases Multiset.mem_cons.mp hy with heq | hy
    · rw [(Prod.mk.inj heq).1, hkind]
      trivial
    · exact h.rel p y hy
  · rw [total_cons, originAt_aside _ hkind, zero_add, h.once]
  · exact h.known
  · intro hrun
    rw [total_cons, exhaustedAt_aside _ hkind, zero_add, h.exhausted hrun]
  · exact h.exhaustedOnce
  · exact h.fails
  · exact h.delays

theorem Carries.stamp {c : RhaiMap} {k : Nat} (h : Carries node c k) (stamps : TimerStamps) :
    Carries node (stamps.stamp c) k := by
  refine ⟨?_, ?_, h.le⟩
  · rw [← h.retries]
    simp [prop, TimerStamps.stamp, List.lookup_cons]
  · rw [← h.maxRetries]
    simp [prop, TimerStamps.stamp, List.lookup_cons]

theorem controlLeaves_stamp (stamps : TimerStamps) (c : RhaiMap) :
    controlLeaves (stamps.stamp c) = controlLeaves c := by
  have hmeta : isMeta "drift_ms" = false ∧ isMeta "scheduled_at" = false ∧ isMeta "triggered_at" = false := by
    with_unfolding_all decide
  simp [controlLeaves, TimerStamps.stamp, hmeta]

theorem inv_fireTimer (h : Inv node s) (hx : (.armed, x) ∈ s.marking) (stamps : TimerStamps) :
    Inv node { s with
      marking := (.retryFire, ⟨stamps.stamp x.colour, x.origin⟩) ::ₘ s.marking.erase (.armed, x) } := by
  have hm : s.marking = (.armed, x) ::ₘ s.marking.erase (.armed, x) := (Multiset.cons_erase hx).symm
  have hsame : ∀ {weight : StepPlace × JobToken → Multiset Nat},
      weight (.armed, x) = weight (.retryFire, ⟨stamps.stamp x.colour, x.origin⟩) →
      total weight ((.retryFire, ⟨stamps.stamp x.colour, x.origin⟩) ::ₘ s.marking.erase (.armed, x)) =
        total weight s.marking := by
    intro weight hweight
    conv_rhs => rw [hm]
    rw [total_cons, total_cons, hweight]
  constructor
  · intro p y hy
    rcases Multiset.mem_cons.mp hy with heq | hy
    · obtain ⟨rfl, rfl⟩ := Prod.mk.inj heq
      obtain ⟨hbackoff, ⟨job, hjob, hleaves⟩, hcarries⟩ := h.rel .armed x hx
      exact ⟨hbackoff, ⟨job, hjob, (controlLeaves_stamp stamps _).trans hleaves⟩, hcarries.stamp stamps⟩
    · exact h.rel p y (Multiset.mem_of_mem_erase hy)
  · exact (hsame rfl).trans h.once
  · exact h.known
  · exact fun hrun => (hsame rfl).trans (h.exhausted hrun)
  · exact h.exhaustedOnce
  · exact h.fails
  · exact h.delays

theorem inv_fail {tokens : List JobToken}
    {transition : NetTransition StepPlace RhaiMap} (h : Inv node s) (hrun : s.failed = false)
    (hnet : stepNet node answer t = some transition) (hlen : tokens.length = transition.inputs.length)
    (hguard : transition.guard (tokens.map Traced.colour) = true)
    (hmem : ∀ x ∈ transition.inputs.zip tokens, x ∈ s.marking)
    (hthrows : throws node t (tokens.map Traced.colour) = true)
    (hkept : kept node (.fire t tokens answer) = true) : Inv node (fail s t tokens) := by
  cases t with
  | exhaustedDeadend =>
    simp only [stepNet, Option.ite_none_left_eq_some, Option.some.injEq] at hnet
    obtain ⟨-, rfl⟩ := hnet
    obtain ⟨x, rfl⟩ := List.length_eq_one_iff.mp hlen
    have hx : (.failure, x) ∈ s.marking := hmem _ (by simp [exhaustedDeadend])
    obtain ⟨-, k, hk, hcarries⟩ := h.rel .failure x hx
    have hspent : retriesSpent [x.colour] = true := hguard
    rw [hcarries.retriesSpent_eq, Bool.not_eq_true', Bool.eq_false_iff, Ne,
      hcarries.retriesLeft_iff] at hspent
    have hle := hcarries.le
    have hnew := h.not_exhausted hrun hx (by simp [kind])
    refine ⟨h.rel, h.once, h.known, fun hrun => absurd hrun (by simp [fail]), fun o => ?_,
      fun _ => List.cons_ne_nil _ _, h.delays⟩
    by_cases ho : o = x.origin
    · subst ho
      refine ⟨?_, fun _ => hk.trans (by omega)⟩
      change (x.origin :: s.exhausted).count x.origin ≤ 1
      rw [List.count_cons_self, List.count_eq_zero.mpr hnew]
    · obtain ⟨hcount, hdispatched⟩ := h.exhaustedOnce o
      refine ⟨?_, fun hmem' => hdispatched ((List.mem_cons.mp hmem').resolve_left ho)⟩
      change (x.origin :: s.exhausted).count o ≤ 1
      rwa [List.count_cons_of_ne (fun heq => ho heq.symm)]
  | retryArm =>
    simp only [stepNet, Option.ite_none_left_eq_some, Option.some.injEq] at hnet
    obtain ⟨-, rfl⟩ := hnet
    obtain ⟨x, rfl⟩ := List.length_eq_one_iff.mp hlen
    obtain ⟨-, k, -, hcarries⟩ := h.rel .failure x (hmem _ (by simp [retryArm]))
    obtain ⟨n, hn, -⟩ := delay_of_fits hcarries hkept
    exact absurd hthrows (by simp [throws, hn])
  | lifecycle t =>
    cases t with
    | dlqEffectErr =>
      cases hnet
      obtain ⟨x, rfl⟩ := List.length_eq_one_iff.mp hlen
      obtain ⟨job, k, -, hjob, -⟩ := h.rel (.lifecycle .effectErrors) x
        (hmem _ (by simp [NetTransition.rename, executorLifecycle, ExecutorLifecycle.dlqEffectErr]))
      exact absurd hthrows (by simp [throws, hjob])
    | _ => exact absurd hthrows (by simp [throws])
  | _ => exact absurd hthrows (by simp [throws])

theorem inv_step (s : State) (act : Action) (s' : State) (h : Inv node s)
    (hkept : kept node act = true) (hstep : step node s act = some s') : Inv node s' := by
  cases act with
  | arrive fields =>
    cases hstep
    exact inv_arrive h
  | signal place token =>
    simp only [step] at hstep
    split at hstep
    · next hplace =>
      cases hstep
      exact inv_signal h hplace
    · cases hstep
  | fireTimer token stamps =>
    simp only [step] at hstep
    split at hstep
    · next htoken =>
      cases hstep
      exact inv_fireTimer h htoken stamps
    · cases hstep
  | fire t tokens answer =>
    simp only [step] at hstep
    split at hstep
    · cases hstep
    · next hfailed =>
      have hrun : s.failed = false := Bool.eq_false_iff.mpr hfailed
      obtain ⟨transition, hnet, hstep⟩ := Option.bind_eq_some_iff.mp hstep
      obtain ⟨m, hfire, rfl⟩ := Option.map_eq_some_iff.mp hstep
      obtain ⟨hlen, hguard, rest, hm, rfl⟩ := NetTransition.fire?_eq_some.mp hfire
      split
      · next hthrows =>
        refine inv_fail h hrun hnet hlen hguard (fun x hx => ?_) hthrows hkept
        rw [hm]
        exact Multiset.mem_add.mpr (Or.inr hx)
      · next hthrows =>
        have htokens : ((tracedNet transition).inputs.zip tokens).map Prod.snd = tokens :=
          List.map_snd_zip hlen.le
        have hfires := stepFires_of_fire hnet hlen hguard (Bool.eq_false_iff.mpr hthrows)
        have hinv := inv_fires h hrun hfires hm (htokens.symm ▸ hkept)
        rwa [htokens] at hinv

/-! ## At rest -/

theorem guard_of_rest
    (hrest : Quiescent (fun t => (stepNet node answer t).map tracedNet) m) {t : StepTransition}
    {transition : NetTransition StepPlace RhaiMap} (hnet : stepNet node answer t = some transition)
    {p : StepPlace} (hinputs : transition.inputs = [p]) {x : JobToken} (hx : (p, x) ∈ m) :
    transition.guard [x.colour] = false := by
  have hnet' : (stepNet node answer t).map tracedNet = some (tracedNet transition) := by
    rw [hnet, Option.map_some]
  refine hrest.guard_eq_false (t := t) hnet' (by simp [tracedNet, hinputs]) [x]
    (by simp [tracedNet, hinputs]) ?_
  simp [tracedNet, hinputs, hx]

theorem failure_of_rest (hrest : Quiescent (fun t => (stepNet node answer t).map tracedNet) m) {x : JobToken}
    (hx : (.failure, x) ∈ m) {k : Nat} (hcarries : Carries node x.colour k) : False := by
  have hleft : retriesLeft [x.colour] = false := by
    by_cases hbackoff : node.policy.backoff = .immediate
    · exact guard_of_rest hrest (t := .retry) (if_pos hbackoff) rfl hx
    · exact guard_of_rest hrest (t := .retryArm) (if_neg hbackoff) rfl hx
  have hspent : retriesSpent [x.colour] = false := by
    by_cases hhandled : node.errorHandled = true
    · exact guard_of_rest hrest (t := .exhausted) (if_pos hhandled) rfl hx
    · exact guard_of_rest hrest (t := .exhaustedDeadend) (if_neg hhandled) rfl hx
  rw [hcarries.retriesSpent_eq, hleft] at hspent
  cases hspent

theorem error_of_rest (hrest : Quiescent (fun t => (stepNet node answer t).map tracedNet) m) {x : JobToken}
    (hx : (.lifecycle .effectErrors, x) ∈ m) {job : RhaiMap} {k : Nat}
    (hjob : failedJob? x.colour = some job) (hcarries : Carries node job k) : False := by
  have hretry : (ExecutorLifecycle.retryable x.colour &&
      ExecutorLifecycle.retriesLeft job) = false := by
    have hguard := guard_of_rest hrest (t := .lifecycle .retryEffectErr) rfl rfl hx
    simpa [NetTransition.rename, executorLifecycle, ExecutorLifecycle.retryEffectErr, hjob]
      using hguard
  have hdead : (!ExecutorLifecycle.retryable x.colour ||
      ExecutorLifecycle.retriesSpent job) = false := by
    have hguard := guard_of_rest hrest (t := .lifecycle .dlqEffectErr) rfl rfl hx
    simpa [NetTransition.rename, executorLifecycle, ExecutorLifecycle.dlqEffectErr, hjob]
      using hguard
  have hspent : ExecutorLifecycle.retriesSpent job = !ExecutorLifecycle.retriesLeft job := by
    simp only [ExecutorLifecycle.retriesSpent, ExecutorLifecycle.retriesLeft,
      ExecutorLifecycle.getOr, hcarries.lookup.1, hcarries.lookup.2, Option.getD_some]
    exact Rhai.ge_posInt hcarries.lt_two_pow (node.policy.maxFits.trans (by decide))
  rw [hspent] at hdead
  cases hretryable : ExecutorLifecycle.retryable x.colour <;>
    cases hleft : ExecutorLifecycle.retriesLeft job <;> simp_all

theorem Inv.exhausted_of_rest (h : Inv node s) {answer : ClientAnswer} (hrun : s.failed = false)
    (hrest : Quiescent (fun t => (stepNet node answer t).map tracedNet) s.marking)
    {p : StepPlace} {x : JobToken} (hx : (p, x) ∈ s.marking) (hp : kind p ≠ .aside)
    (hwaiting : isWaiting p = false) : x.origin ∈ s.exhausted := by
  have hrel := h.rel p x hx
  cases p with
  | lifecycle place =>
    cases place with
    | inbox =>
      have hguard := guard_of_rest hrest (t := .lifecycle .submit) rfl rfl hx
      exact absurd hguard (by simp [NetTransition.rename, executorLifecycle, ExecutorLifecycle.submit])
    | failed =>
      have hguard := guard_of_rest hrest (t := .onFailed) rfl rfl hx
      exact absurd hguard (by simp [onFailed])
    | timedOut =>
      have hguard := guard_of_rest hrest (t := .onTimeout) rfl rfl hx
      exact absurd hguard (by simp [onTimeout])
    | effectErrors =>
      obtain ⟨job, k, -, hjob, -, hcarries⟩ := hrel
      exact (error_of_rest hrest hx hjob hcarries).elim
    | sig status => exact absurd rfl hp
    | cancelRequest => exact absurd rfl hp
    | _ => exact absurd hwaiting (by simp [isWaiting])
  | failure =>
    obtain ⟨-, k, -, hcarries⟩ := hrel
    exact (failure_of_rest hrest hx hcarries).elim
  | retryTimer =>
    obtain ⟨-, k, delayMs, -, -, -, -, -, hbackoff⟩ := hrel
    have hguard := guard_of_rest hrest (t := .retrySchedule) (if_neg hbackoff) rfl hx
    exact absurd hguard (by simp [retrySchedule])
  | retryFire =>
    obtain ⟨hbackoff, -⟩ := hrel
    have hguard := guard_of_rest hrest (t := .retryReinject) (if_neg hbackoff) rfl hx
    exact absurd hguard (by simp [retryReinject])
  | error =>
    have hmem : x.origin ∈ total exhaustedAt s.marking :=
      mem_total.mpr ⟨_, hx, Multiset.mem_singleton_self _⟩
    rw [h.exhausted hrun] at hmem
    exact Multiset.mem_coe.mp hmem
  | armed => exact absurd hwaiting (by simp [isWaiting])
  | failureLog => exact absurd rfl hp
  | retryTimerScheduled => exact absurd rfl hp

theorem Rel.le {k : Kind} (h : Rel node jobs n x k) (hk : k ≠ .aside) : n ≤ node.policy.maxRetries + 1 := by
  cases k with
  | ready => exact h.2.le.trans (Nat.le_succ _)
  | delayed => exact h.2.2.le.trans (Nat.le_succ _)
  | dispatched =>
    obtain ⟨-, k, rfl, hcarries⟩ := h
    exact Nat.succ_le_succ hcarries.le
  | failing =>
    obtain ⟨-, k, rfl, hcarries⟩ := h
    exact Nat.succ_le_succ hcarries.le
  | completed => exact h.2
  | ended => exact h
  | exhausted => exact Nat.le_of_eq h
  | timer =>
    obtain ⟨payload, k, delayMs, rfl, -, -, -, hcarries, -⟩ := h
    exact hcarries.le.trans (Nat.le_succ _)
  | error =>
    obtain ⟨job, k, rfl, -, -, hcarries⟩ := h
    exact Nat.succ_le_succ hcarries.le
  | aside => exact absurd rfl hk

theorem Inv.exists_token (h : Inv node s) {o : Nat} (ho : o < s.jobs.length) :
    ∃ p x, (p, x) ∈ s.marking ∧ x.origin = o ∧ kind p ≠ .aside := by
  have hmem : o ∈ total originAt s.marking := h.once ▸ Multiset.mem_range.mpr ho
  obtain ⟨⟨p, x⟩, hx, hmem⟩ := mem_total.mp hmem
  unfold originAt at hmem
  split at hmem
  · exact absurd hmem (Multiset.notMem_zero _)
  · next hp => exact ⟨p, x, hx, (Multiset.mem_singleton.mp hmem).symm, hp⟩

theorem Inv.lawful (h : Inv node s) : Lawful node s where
  dispatched o := by
    by_cases ho : o < s.jobs.length
    · obtain ⟨p, x, hx, rfl, hp⟩ := h.exists_token ho
      exact (h.rel p x hx).le hp
    · rw [List.count_eq_zero.mpr fun hmem => ho (h.known o hmem)]
      exact Nat.zero_le _
  exhausted := h.exhaustedOnce
  exhausts answer hrun hrest o ho := by
    obtain ⟨p, x, hx, rfl, hp⟩ := h.exists_token ho
    cases hwaiting : isWaiting p with
    | true => exact Or.inr ⟨p, x, hx, rfl, hwaiting⟩
    | false => exact Or.inl (h.exhausted_of_rest hrun hrest hx hp hwaiting)
  fails := h.fails
  delays := h.delays
  leaves x hx := (h.rel (.lifecycle .completed) x hx).1

/-- **A retried job is the same job** if only jobs without control leaves fail, the delays fit an `i64`
and scheduling a timer does not fail. -/
theorem retried_job_lawful (node : RetryNode) (as : List Action) (s : State)
    (hrun : exec (step node) init as = some s) (hkept : ∀ a ∈ as, kept node a = true) : Lawful node s :=
  (exec_invariant_along inv_step inv_init (along_of_forall hkept) hrun).lawful

end

/-! ## One job that fails and then completes -/

def retryNode (backoff : BackoffKind) (baseDelayMs : Nat) : RetryNode where
  policy := ⟨2, backoff, baseDelayMs, by decide⟩
  errorHandled := true
  retrySignal := "retry_fire"
  display := fun _ => ""

def first (colour : RhaiMap) : JobToken := ⟨colour, 0⟩

def sigOf (executionId : String) : RhaiMap := [("execution_id", .str executionId)]

def submittedAs (executionId : String) (job : RhaiMap) : RhaiMap :=
  ("execution_id", .str executionId) :: job

/-- The job takes one signal after the other. -/
def tracking (executionId : String) (job : RhaiMap)
    (moves : List (LifecycleTransition × ExecutionStatus)) : List Action :=
  .fire (.lifecycle .submit) [first job] (.ok executionId) ::
    moves.flatMap fun x => [.signal (.sig x.2) (sigOf executionId),
      .fire (.lifecycle x.1) [first (submittedAs executionId job), first (sigOf executionId)] (.ok "")]

/-- What is left of the job after it failed as `e`. -/
def failedJob (job : RhaiMap) : RhaiMap := ExecutorLifecycle.failure (submittedAs "e" job) (sigOf "e")

def failing (job : RhaiMap) : List Action :=
  tracking "e" job [(.tAccepted, .accepted), (.tFailedPreRun, .failed)] ++
    [.fire .onFailed [first (failedJob job)] (.ok "")]

def completing (job : RhaiMap) : List Action :=
  tracking "f" job [(.tAccepted, .accepted), (.tRunning, .running), (.tSuccess, .completed)]

def again (job : RhaiMap) : RhaiMap := resubmit (failure "failed" (failedJob job))

def retriedRun (node : RetryNode) (fields : RhaiMap) : List Action :=
  [.arrive fields] ++ failing (prepared node fields) ++
    [.fire .retry [first (failure "failed" (failedJob (prepared node fields)))] (.ok "")] ++
    completing (again (prepared node fields))

/-- A job without leaves is dispatched twice and completes. -/
theorem retried_job_lawful_twice : ∃ s,
    exec (step (retryNode .immediate 0)) init (retriedRun (retryNode .immediate 0) []) = some s ∧
    Lawful (retryNode .immediate 0) s ∧ s.dispatches = [0, 0] := by
  have hend : (exec (step (retryNode .immediate 0)) init
      (retriedRun (retryNode .immediate 0) [])).map State.dispatches = some [0, 0] := by
    decide
  obtain ⟨s, hs, hdispatches⟩ := Option.map_eq_some_iff.mp hend
  exact ⟨s, hs, retried_job_lawful _ _ s hs (by with_unfolding_all decide), hdispatches⟩

def instanceId : RhaiMap := [("_instance_id", .str "i")]

/-- After one failure the job is completed without its instance id. -/
theorem retry_drops_leaves : ∃ s x, exec (step (retryNode .immediate 0)) init
      (retriedRun (retryNode .immediate 0) instanceId) = some s ∧
    (.lifecycle .completed, x) ∈ s.marking ∧ x.origin = 0 ∧ controlLeaves x.colour = [] ∧
    s.jobs.map controlLeaves = [instanceId] ∧ ¬ Lawful (retryNode .immediate 0) s := by
  let x : JobToken := first (ExecutorLifecycle.done
    (submittedAs "f" (again (prepared (retryNode .immediate 0) instanceId))) (sigOf "f"))
  have hend : (exec (step (retryNode .immediate 0)) init
      (retriedRun (retryNode .immediate 0) instanceId)).map (fun s =>
        (s.jobs.map controlLeaves, decide ((.lifecycle .completed, x) ∈ s.marking))) =
      some ([instanceId], true) := by
    with_unfolding_all decide
  have hx : controlLeaves x.colour = [] := by with_unfolding_all decide
  obtain ⟨s, hs, hrecord⟩ := Option.map_eq_some_iff.mp hend
  simp only [Prod.mk.injEq, decide_eq_true_eq] at hrecord
  obtain ⟨hjobs, hcompleted⟩ := hrecord
  refine ⟨s, x, hs, hcompleted, rfl, hx, hjobs, fun h => ?_⟩
  obtain ⟨job, hjob, hleaves⟩ := h.leaves x hcompleted
  have hget : (s.jobs.map controlLeaves)[0]? = some (controlLeaves job) := by
    rw [List.getElem?_map, show s.jobs[0]? = some job from hjob, Option.map_some]
  rw [hjobs, ← hleaves, hx] at hget
  exact absurd hget (by decide)

/-- An exponential backoff from a large base. -/
def longDelay : RetryNode := retryNode .exponential (2 ^ 62)

/-- The failure that the job of `longDelay` leaves behind at each attempt. -/
def longFailure (job : RhaiMap) : RhaiMap := failure "failed" (failedJob job)

def stamps : TimerStamps := ⟨int 3, .str "1970-01-01T00:00:00Z", .str "1970-01-01T00:00:00Z"⟩

/-- The job fails, waits for its timer and fails again. -/
def failingTwice : List Action :=
  let job := prepared longDelay []
  let timed := stamps.stamp (again job)
  [.arrive []] ++ failing job ++
    [.fire .retryArm [first (longFailure job)] (.ok ""),
      .fire .retrySchedule [first (timer longDelay (int (2 ^ 62)) (longFailure job))] (.ok "c"),
      .fireTimer (first (again job)) stamps, .fire .retryReinject [first timed] (.ok "")] ++
    failing timed ++ [.fire .retryArm [first (longFailure timed)] (.ok "")]

theorem delay_overflows : ∃ s, exec (step longDelay) init failingTwice = some s ∧
    s.delays = [(1, .num (.negInt (2 ^ 63 - 1))), (0, int (2 ^ 62))] ∧ ¬ Lawful longDelay s := by
  have hend : (exec (step longDelay) init failingTwice).map State.delays =
      some [(1, .num (.negInt (2 ^ 63 - 1))), (0, int (2 ^ 62))] := by
    decide +kernel
  obtain ⟨s, hs, hdelays⟩ := Option.map_eq_some_iff.mp hend
  refine ⟨s, hs, hdelays, fun h => ?_⟩
  obtain ⟨⟨n, hn⟩, -⟩ := h.delays (1, .num (.negInt (2 ^ 63 - 1))) (by simp [hdelays])
  exact absurd hn (by simp [int])

end RetriedJob

end Mekhan
