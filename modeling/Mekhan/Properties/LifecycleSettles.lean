import Mekhan.Infra.Runs
import Mekhan.Sdk.ExecutorLifecycle

/-!
# Settling of executions

A run of the lifecycle net: jobs come in, are submitted under execution ids of their own, and their
status signals and requests to cancel them are delivered in any order, also ahead of the submission.
Which transition fires when, and on which tokens, is left open. What leaves a final place is taken on
by the surrounding net.
-/

namespace Mekhan

namespace LifecycleSettles

open Infra ExecutorLifecycle
open Rhai (prop)

abbrev LifecycleMarking := ColouredMarking LifecyclePlace RhaiMap

/-! ## Runs -/

structure State where
  marking : LifecycleMarking
  /-- The execution ids under which jobs were submitted. -/
  submitted : List String
  /-- The signals and cancel requests that came, by execution id and place. -/
  delivered : List (String × LifecyclePlace)
  /-- The jobs that were taken on from a final place, by the place and their execution id. -/
  taken : List (LifecyclePlace × Json)

def init : State := ⟨0, [], [], []⟩

inductive Action where
  | arrive (job : RhaiMap)
  | signal (executionId : String) (status : ExecutionStatus) (detail source timestamp : Json)
  | requestCancel (executionId : String)
  | takeOn (place : LifecyclePlace) (job : RhaiMap)
  | fire (t : LifecycleTransition) (tokens : List RhaiMap) (answer : ClientAnswer)

def isFinal : LifecyclePlace → Bool
  | .completed | .failed | .timedOut | .cancelled => true
  | _ => false

def isOpen : LifecyclePlace → Bool
  | .submitted | .accepted | .running | .cancelling => true
  | _ => false

/-- The payload of `handle_status_message`. -/
def statusSignal (executionId : String) (status : ExecutionStatus)
    (detail source timestamp : Json) : RhaiMap :=
  [("execution_id", .str executionId), ("status", .str status.asStr), ("detail", detail),
    ("source", source), ("timestamp", timestamp)]

/-- Each status comes once for an execution, and one of the terminal ones. -/
def awaited (s : State) (executionId : String) (status : ExecutionStatus) : Bool :=
  (executionId, .sig status) ∉ s.delivered &&
    (!status.isTerminal || s.delivered.all fun x =>
      match x.2 with
      | .sig other => x.1 ≠ executionId || !other.isTerminal
      | _ => true)

def deliver (s : State) (executionId : String) (place : LifecyclePlace) (token : RhaiMap) : State :=
  { s with
    marking := (place, token) ::ₘ s.marking
    delivered := (executionId, place) :: s.delivered }

/-- The execution id that a submission gives; ids are not given twice. -/
def newId : LifecycleTransition → ClientAnswer → List String
  | .submit, .ok executionId => [executionId]
  | _, _ => []

def step (s : State) : Action → Option State
  | .arrive job => some { s with marking := (.inbox, job) ::ₘ s.marking }
  | .signal executionId status detail source timestamp =>
    if awaited s executionId status then
      some (deliver s executionId (.sig status)
        (statusSignal executionId status detail source timestamp))
    else none
  | .requestCancel executionId =>
    some (deliver s executionId .cancelRequest [("execution_id", .str executionId)])
  | .takeOn place job =>
    if isFinal place ∧ (place, job) ∈ s.marking then
      some { s with
        marking := s.marking.erase (place, job)
        taken := (place, prop job "execution_id") :: s.taken }
    else none
  | .fire t tokens answer =>
    if ∀ executionId ∈ newId t answer, executionId ∉ s.submitted then
      ((executorLifecycle answer t).fire? s.marking tokens).map fun m =>
        { s with marking := m, submitted := newId t answer ++ s.submitted }
    else none

/-! ## The property -/

def idAt (places : LifecyclePlace → Bool) (x : LifecyclePlace × RhaiMap) : Multiset Json :=
  if places x.1 then {prop x.2 "execution_id"} else 0

/-- The jobs that are under way, by execution id. -/
def openIds (s : State) : Multiset Json := total (idAt isOpen) s.marking

/-- The jobs in the final places, and those that were taken on from there. -/
def settledIds (s : State) : Multiset Json := total (idAt isFinal) s.marking + ↑(s.taken.map Prod.snd)

/-- The job's token is in one final place, or was taken on from there, and nowhere else. -/
def Settled (s : State) (executionId : String) : Prop :=
  (settledIds s).count (.str executionId) = 1 ∧ (openIds s).count (.str executionId) = 0

instance (s : State) (executionId : String) : Decidable (Settled s executionId) :=
  inferInstanceAs (Decidable (_ ∧ _))

def received (s : State) (executionId : String) (status : ExecutionStatus) : Prop :=
  (executionId, .sig status) ∈ s.delivered

/-- Everything is delivered: each job's acceptance and its terminal status. -/
def Delivered (s : State) : Prop :=
  ∀ executionId ∈ s.submitted, received s executionId .accepted ∧
    ∃ status, status.isTerminal = true ∧ received s executionId status

/-- What a job's signals have to be for it to settle. -/
def Settles (s : State) (executionId : String) : Prop :=
  received s executionId .failed ∨ received s executionId .timedOut ∨
    (received s executionId .running ∧ (received s executionId .completed ∨
      (received s executionId .cancelled ∧ (executionId, .cancelRequest) ∈ s.delivered)))

/-- Only jobs that end as cancelled are asked to be. -/
def CancelsEnd (s : State) : Prop :=
  ∀ executionId, (executionId, .cancelRequest) ∈ s.delivered → received s executionId .cancelled

/-- The call that cancels a job does not fail. -/
def cancelSucceeds : Action → Bool
  | .fire .cancel _ (.error _ _) => false
  | _ => true

/-! ## The invariant -/

/-- The signals that a job in the place has not taken yet. -/
def awaits : LifecyclePlace → LifecyclePlace → Bool
  | .submitted, _ => true
  | .accepted, q => q ≠ .sig .accepted
  | .running, q => q ≠ .sig .accepted && q ≠ .sig .running
  | .cancelling, q => q ≠ .sig .accepted && q ≠ .sig .running && q ≠ .cancelRequest
  | _, _ => false

/-- Signals that a job in the place must have taken. -/
def reached : LifecyclePlace → LifecyclePlace → Bool
  | .accepted, q => q = .sig .accepted
  | .running, q => q = .sig .running
  | .cancelling, q => q = .sig .running || q = .cancelRequest
  | .completed, q => q = .sig .running || q = .sig .completed
  | .failed, q => q = .sig .failed
  | .timedOut, q => q = .sig .timedOut
  | .cancelled, q => q = .sig .running || q = .cancelRequest || q = .sig .cancelled
  | _, _ => false

def isSignal : LifecyclePlace → Bool
  | .sig _ | .cancelRequest => true
  | _ => false

/-- A signal that waits in its place. -/
def Unread (m : LifecycleMarking) (executionId : String) (q : LifecyclePlace) : Prop :=
  ∃ sig, (q, sig) ∈ m ∧ prop sig "execution_id" = .str executionId

/-- Each submitted execution is open or settled, once. -/
structure Inv (s : State) : Prop where
  conserved : openIds s + settledIds s = ↑(s.submitted.map Json.str)
  nodup : s.submitted.Nodup
  signals : ∀ q sig, (q, sig) ∈ s.marking → isSignal q = true →
    ∃ executionId, prop sig "execution_id" = .str executionId ∧ (executionId, q) ∈ s.delivered
  kinds : ∀ x ∈ s.delivered, isSignal x.2 = true
  early : ∀ executionId q, executionId ∉ s.submitted → (executionId, q) ∈ s.delivered →
    Unread s.marking executionId q
  unread : ∀ p job executionId q, (p, job) ∈ s.marking → isOpen p = true →
    prop job "execution_id" = .str executionId → awaits p q = true →
    (executionId, q) ∈ s.delivered → Unread s.marking executionId q
  history : ∀ p job executionId q, (p, job) ∈ s.marking →
    prop job "execution_id" = .str executionId → reached p q = true → (executionId, q) ∈ s.delivered
  taken : ∀ x ∈ s.taken, isFinal x.1 = true ∧ ∀ executionId q, x.2 = .str executionId →
    reached x.1 q = true → (executionId, q) ∈ s.delivered

theorem inv_init : Inv init := by
  constructor <;> simp [init, openIds, settledIds]

/-! ## Steps that leave jobs and signals alone -/

/-- The places that hold neither jobs under way or settled nor signals. -/
def isAside (p : LifecyclePlace) : Bool := !isOpen p && !isFinal p && !isSignal p

variable {x : LifecyclePlace × RhaiMap} {consumed produced : List (LifecyclePlace × RhaiMap)}
  {place q' : LifecyclePlace}

theorem mem_idAt {places : LifecyclePlace → Bool} {v : Json} :
    v ∈ idAt places x ↔ places x.1 = true ∧ prop x.2 "execution_id" = v := by
  unfold idAt
  split
  · next h => simp [h, eq_comm]
  · next h => simp [h]

theorem idAt_of_isAside {places : LifecyclePlace → Bool} (h : places x.1 = false) : idAt places x = 0 := by
  simp [idAt, h]

variable {s : State} {q source target : LifecyclePlace} {m rest : LifecycleMarking} {job : RhaiMap}
  {executionId : String} {answer : ClientAnswer}

theorem Unread.of_mem {m' : LifecycleMarking} (h : Unread m executionId q)
    (hmem : ∀ sig, (q, sig) ∈ m → prop sig "execution_id" = .str executionId → (q, sig) ∈ m') :
    Unread m' executionId q := by
  obtain ⟨sig, hsig, hid⟩ := h
  exact ⟨sig, hmem sig hsig hid, hid⟩

theorem Inv.congr (h : Inv s) (hopen : total (idAt isOpen) m = total (idAt isOpen) s.marking)
    (hfinal : total (idAt isFinal) m = total (idAt isFinal) s.marking)
    (hsame : ∀ p c, isAside p = false → ((p, c) ∈ m ↔ (p, c) ∈ s.marking)) : Inv { s with marking := m } := by
  have hunread : ∀ {executionId q}, isSignal q = true → Unread s.marking executionId q →
      Unread m executionId q := fun hq hold =>
    hold.of_mem fun sig hsig _ => (hsame _ sig (by simp [isAside, hq])).mpr hsig
  constructor
  · have hconserved := h.conserved
    rw [openIds, settledIds, ← hopen, ← hfinal] at hconserved
    exact hconserved
  · exact h.nodup
  · intro q sig hsig hq
    exact h.signals q sig ((hsame q sig (by simp [isAside, hq])).mp hsig) hq
  · exact h.kinds
  · intro executionId q hnew hdelivered
    exact hunread (h.kinds _ hdelivered) (h.early executionId q hnew hdelivered)
  · intro p job executionId q hjob hp hid hawaits hdelivered
    refine hunread (h.kinds _ hdelivered) (h.unread p job executionId q ?_ hp hid hawaits hdelivered)
    exact (hsame p job (by simp [isAside, hp])).mp hjob
  · intro p job executionId q hjob hid hreached
    refine h.history p job executionId q ((hsame p job ?_).mp hjob) hid hreached
    cases p <;> simp_all [isAside, reached, isOpen, isFinal, isSignal]
  · exact h.taken

theorem total_of_isAside {places : LifecyclePlace → Bool}
    {l : List (LifecyclePlace × RhaiMap)} (h : ∀ x ∈ l, places x.1 = false) :
    total (idAt places) (l : LifecycleMarking) = 0 := by
  rw [total_coe]
  refine List.sum_eq_zero fun v hv => ?_
  obtain ⟨x, hx, rfl⟩ := List.mem_map.mp hv
  exact idAt_of_isAside (h x hx)

theorem inv_aside (h : Inv s)
    (hm : s.marking = rest + ↑consumed) (hconsumed : ∀ x ∈ consumed, isAside x.1 = true)
    (hproduced : ∀ x ∈ produced, isAside x.1 = true) : Inv { s with marking := rest + ↑produced } := by
  simp only [isAside, Bool.and_eq_true, Bool.not_eq_true'] at hconsumed hproduced
  refine h.congr ?_ ?_ ?_
  · rw [hm, total_add, total_add, total_of_isAside fun x hx => (hconsumed x hx).1.1,
      total_of_isAside fun x hx => (hproduced x hx).1.1]
  · rw [hm, total_add, total_add, total_of_isAside fun x hx => (hconsumed x hx).1.2,
      total_of_isAside fun x hx => (hproduced x hx).1.2]
  · intro p c hp
    have hnot : ∀ l : List (LifecyclePlace × RhaiMap), (∀ x ∈ l, (isOpen x.1 = false ∧
        isFinal x.1 = false) ∧ isSignal x.1 = false) → (p, c) ∉ l := by
      intro l hl hmem
      simp [isAside, hl _ hmem] at hp
    simp [hm, hnot consumed hconsumed, hnot produced hproduced]

theorem inv_arrive (h : Inv s) : Inv { s with marking := (.inbox, job) ::ₘ s.marking } := by
  refine h.congr ?_ ?_ ?_
  · simp [idAt, isOpen]
  · simp [idAt, isFinal]
  · intro p c hp
    have hne : p ≠ .inbox := by
      rintro rfl
      exact absurd hp (by decide)
    simp [hne]

/-! ## Signals -/

theorem inv_deliver {token : RhaiMap} (h : Inv s) (hplace : isSignal place = true)
    (hid : prop token "execution_id" = .str executionId) : Inv (deliver s executionId place token) := by
  have hnot : isOpen place = false ∧ isFinal place = false := by
    cases place <;> simp_all [isSignal, isOpen, isFinal]
  have hold : ∀ {x : LifecyclePlace × RhaiMap}, x.1 ≠ place →
      x ∈ (deliver s executionId place token).marking → x ∈ s.marking := by
    intro x hne hx
    exact (Multiset.mem_cons.mp hx).resolve_left fun heq => hne (congrArg Prod.fst heq)
  have hunread : ∀ {id q}, Unread s.marking id q →
      Unread (deliver s executionId place token).marking id q := fun hold =>
    hold.of_mem fun sig hsig _ => Multiset.mem_cons_of_mem hsig
  have hnew : Unread (deliver s executionId place token).marking executionId place :=
    ⟨token, Multiset.mem_cons_self _ _, hid⟩
  constructor
  · have hconserved := h.conserved
    simpa [openIds, settledIds, deliver, idAt, hnot] using hconserved
  · exact h.nodup
  · intro q sig hsig hq
    rcases Multiset.mem_cons.mp hsig with heq | hsig
    · cases heq
      exact ⟨executionId, hid, List.mem_cons_self⟩
    · obtain ⟨id, hid, hdelivered⟩ := h.signals q sig hsig hq
      exact ⟨id, hid, List.mem_cons_of_mem _ hdelivered⟩
  · intro x hx
    rcases List.mem_cons.mp hx with rfl | hx
    · exact hplace
    · exact h.kinds x hx
  · intro id q hsubmitted hdelivered
    rcases List.mem_cons.mp hdelivered with heq | hdelivered
    · cases heq
      exact hnew
    · exact hunread (h.early id q hsubmitted hdelivered)
  · intro p job id q hjob hp hjobId hawaits hdelivered
    rcases List.mem_cons.mp hdelivered with heq | hdelivered
    · cases heq
      exact hnew
    · refine hunread (h.unread p job id q (hold ?_ hjob) hp hjobId hawaits hdelivered)
      rintro rfl
      exact absurd (hp.symm.trans hnot.1) (by simp)
  · intro p job id q hjob hjobId hreached
    refine List.mem_cons_of_mem _ (h.history p job id q (hold ?_ hjob) hjobId hreached)
    rintro rfl
    cases p <;> simp_all [isSignal, reached]
  · intro x hx
    obtain ⟨hfinal, hhistory⟩ := h.taken x hx
    exact ⟨hfinal, fun id q hid hreached => List.mem_cons_of_mem _ (hhistory id q hid hreached)⟩

theorem inv_takeOn (h : Inv s) (hplace : isFinal place = true) (hjob : (place, job) ∈ s.marking) :
    Inv { s with
      marking := s.marking.erase (place, job)
      taken := (place, prop job "execution_id") :: s.taken } := by
  have hnot : isOpen place = false ∧ isSignal place = false := by
    cases place <;> simp_all [isSignal, isOpen, isFinal]
  obtain ⟨rest, hrest⟩ := Multiset.exists_cons_of_mem hjob
  have hunread : ∀ {id q}, isSignal q = true → Unread s.marking id q →
      Unread (s.marking.erase (place, job)) id q := fun hq hold => by
    refine hold.of_mem fun sig hsig _ => ?_
    refine (Multiset.mem_erase_of_ne fun heq => ?_).mpr hsig
    rw [(Prod.mk.inj heq).1, hnot.2] at hq
    cases hq
  constructor
  · have hconserved := h.conserved
    rw [openIds, settledIds, hrest] at hconserved
    simp only [total_cons, idAt, hnot.1, hplace, if_true, Bool.false_eq_true, if_false, zero_add]
      at hconserved
    rw [openIds, settledIds, hrest, Multiset.erase_cons_head, List.map_cons, ← Multiset.cons_coe,
      Multiset.add_cons, Multiset.add_cons, ← hconserved, Multiset.singleton_add, Multiset.cons_add,
      Multiset.add_cons]
  · exact h.nodup
  · intro q sig hsig hq
    exact h.signals q sig (Multiset.mem_of_mem_erase hsig) hq
  · exact h.kinds
  · intro id q hsubmitted hdelivered
    exact hunread (h.kinds _ hdelivered) (h.early id q hsubmitted hdelivered)
  · intro p job' id q hjob' hp hid hawaits hdelivered
    exact hunread (h.kinds _ hdelivered)
      (h.unread p job' id q (Multiset.mem_of_mem_erase hjob') hp hid hawaits hdelivered)
  · intro p job' id q hjob' hid hreached
    exact h.history p job' id q (Multiset.mem_of_mem_erase hjob') hid hreached
  · intro x hx
    rcases List.mem_cons.mp hx with rfl | hx
    · exact ⟨hplace, fun id q hid hreached => h.history place job id q hjob hid hreached⟩
    · exact h.taken x hx

/-! ## Firings -/

theorem Inv.submitted_of_open (h : Inv s) {p : LifecyclePlace} {job : RhaiMap}
    {executionId : String} (hjob : (p, job) ∈ s.marking) (hp : isOpen p = true)
    (hid : prop job "execution_id" = .str executionId) : executionId ∈ s.submitted := by
  have hmem : Json.str executionId ∈ openIds s + settledIds s :=
    Multiset.mem_add.mpr (Or.inl (mem_total.mpr ⟨_, hjob, mem_idAt.mpr ⟨hp, hid⟩⟩))
  rw [h.conserved] at hmem
  obtain ⟨id, hid', heq⟩ := List.mem_map.mp (Multiset.mem_coe.mp hmem)
  exact Json.str.inj heq ▸ hid'

theorem Inv.exists_executionId (h : Inv s) {p : LifecyclePlace} {job : RhaiMap}
    (hjob : (p, job) ∈ s.marking) (hp : isOpen p = true) :
    ∃ executionId, prop job "execution_id" = .str executionId := by
  have hmem : prop job "execution_id" ∈ openIds s + settledIds s :=
    Multiset.mem_add.mpr (Or.inl (mem_total.mpr ⟨_, hjob, mem_idAt.mpr ⟨hp, rfl⟩⟩))
  rw [h.conserved] at hmem
  obtain ⟨id, -, heq⟩ := List.mem_map.mp (Multiset.mem_coe.mp hmem)
  exact ⟨id, heq.symm⟩

theorem Inv.ne_of_open (h : Inv s) {rest : LifecycleMarking}
    {x y : LifecyclePlace × RhaiMap} (hm : s.marking = x ::ₘ rest) (hx : isOpen x.1 = true)
    (hy : y ∈ rest) (hopen : isOpen y.1 = true) : prop y.2 "execution_id" ≠ prop x.2 "execution_id" := by
  obtain ⟨rest', rfl⟩ := Multiset.exists_cons_of_mem hy
  have hnodup : (openIds s + settledIds s).Nodup := by
    rw [h.conserved]
    exact Multiset.coe_nodup.mpr (h.nodup.map fun _ _ => Json.str.inj)
  have hopens := (Multiset.nodup_add.mp hnodup).1
  rw [openIds, hm] at hopens
  intro heq
  simp [idAt, hx, hopen, heq] at hopens

theorem inv_submit (h : Inv s) (hnew : executionId ∉ s.submitted) (hm : s.marking = (.inbox, job) ::ₘ rest) :
    Inv { s with
      marking := (.submitted, ("execution_id", .str executionId) :: job) ::ₘ rest
      submitted := executionId :: s.submitted } := by
  have hrest : ∀ {x}, x ∈ rest → x ∈ s.marking := fun hx => hm ▸ Multiset.mem_cons_of_mem hx
  have hunread : ∀ {id q}, isSignal q = true → Unread s.marking id q →
      Unread ((.submitted, ("execution_id", Json.str executionId) :: job) ::ₘ rest) id q := by
    intro id q hq hold
    refine hold.of_mem fun sig hsig _ => ?_
    rw [hm] at hsig
    rcases Multiset.mem_cons.mp hsig with heq | hsig
    · rw [(Prod.mk.inj heq).1] at hq
      exact absurd hq (by simp [isSignal])
    · exact Multiset.mem_cons_of_mem hsig
  constructor
  · have hconserved := h.conserved
    rw [openIds, settledIds, hm] at hconserved
    simp only [total_cons, idAt, isOpen, isFinal, Bool.false_eq_true, if_false, zero_add]
      at hconserved
    simp only [openIds, settledIds, total_cons, idAt, isOpen, isFinal, Bool.false_eq_true, if_false,
      if_true, zero_add, List.map_cons]
    rw [← Multiset.cons_coe, ← hconserved, add_assoc]
    exact Multiset.singleton_add _ _
  · exact List.nodup_cons.mpr ⟨hnew, h.nodup⟩
  · intro q sig hsig hq
    rcases Multiset.mem_cons.mp hsig with heq | hsig
    · rw [(Prod.mk.inj heq).1] at hq
      exact absurd hq (by simp [isSignal])
    · exact h.signals q sig (hrest hsig) hq
  · exact h.kinds
  · intro id q hid hdelivered
    exact hunread (h.kinds _ hdelivered)
      (h.early id q (fun hmem => hid (List.mem_cons_of_mem _ hmem)) hdelivered)
  · intro p job' id q hjob hp hid hawaits hdelivered
    refine hunread (h.kinds _ hdelivered) ?_
    rcases Multiset.mem_cons.mp hjob with heq | hjob
    · cases heq
      obtain rfl : executionId = id := Json.str.inj hid
      exact h.early executionId q hnew hdelivered
    · exact h.unread p job' id q (hrest hjob) hp hid hawaits hdelivered
  · intro p job' id q hjob hid hreached
    rcases Multiset.mem_cons.mp hjob with heq | hjob
    · rw [(Prod.mk.inj heq).1] at hreached
      exact absurd hreached (by simp [reached])
    · exact h.history p job' id q (hrest hjob) hid hreached
  · exact h.taken

/-- The places a job moves between when it takes a signal. -/
inductive Advances : LifecyclePlace → LifecyclePlace → LifecyclePlace → Prop
  | status {t : LifecycleTransition} {source target : LifecyclePlace} {status : ExecutionStatus}
      {script : RhaiMap → RhaiMap → RhaiMap} (hmoves : Moves t source status target script) :
      Advances source (.sig status) target
  | cancel : Advances .running .cancelRequest .cancelling

theorem Advances.source_open (h : Advances source q target) : isOpen source = true ∧ isSignal q = true := by
  cases h with
  | status hmoves => cases hmoves <;> exact ⟨rfl, rfl⟩
  | cancel => exact ⟨rfl, rfl⟩

theorem Advances.target_kind (h : Advances source q target) :
    isOpen target = !isFinal target ∧ isSignal target = false := by
  cases h with
  | status hmoves => cases hmoves <;> exact ⟨rfl, rfl⟩
  | cancel => exact ⟨rfl, rfl⟩

theorem Advances.awaits (h : Advances source q target)
    (hawaits : awaits target q' = true) : LifecycleSettles.awaits source q' = true ∧ q' ≠ q := by
  cases h with
  | status hmoves =>
    cases hmoves <;> simp_all [LifecycleSettles.awaits]
  | cancel => simp_all [LifecycleSettles.awaits]

theorem Advances.reached (h : Advances source q target)
    (hreached : reached target q' = true) : LifecycleSettles.reached source q' = true ∨ q' = q := by
  cases h with
  | status hmoves =>
    cases hmoves <;> simp_all [LifecycleSettles.reached]
  | cancel => simp_all [LifecycleSettles.reached]

theorem inv_advance {sig job' : RhaiMap} (h : Inv s) (hadvances : Advances source q target)
    (hm : s.marking = (source, job) ::ₘ (q, sig) ::ₘ rest)
    (hid : Rhai.eq (prop sig "execution_id") (prop job "execution_id"))
    (hjob : prop job' "execution_id" = prop job "execution_id") :
    Inv { s with marking := (target, job') ::ₘ rest } := by
  obtain ⟨hsource, hq⟩ := hadvances.source_open
  obtain ⟨htarget, htarget'⟩ := hadvances.target_kind
  have hnot : isFinal source = false ∧ isOpen q = false ∧ isFinal q = false := by
    constructor
    · cases source <;> simp_all [isOpen, isFinal]
    · cases q <;> simp_all [isSignal, isOpen, isFinal]
  have hrest : ∀ {x}, x ∈ rest → x ∈ s.marking := fun hx =>
    hm ▸ Multiset.mem_cons_of_mem (Multiset.mem_cons_of_mem hx)
  have hjobMem : (source, job) ∈ s.marking := hm ▸ Multiset.mem_cons_self _ _
  have hsigMem : (q, sig) ∈ s.marking :=
    hm ▸ Multiset.mem_cons_of_mem (Multiset.mem_cons_self _ _)
  obtain ⟨own, hown⟩ := h.exists_executionId hjobMem hsource
  have hsigId : prop sig "execution_id" = .str own := Rhai.eq_str_right.mp (hown ▸ hid)
  have hsubmitted := h.submitted_of_open hjobMem hsource hown
  -- Only a signal of the job's own is taken.
  have hunread : ∀ {id q'}, isSignal q' = true → (id ≠ own ∨ q' ≠ q) → Unread s.marking id q' →
      Unread ((target, job') ::ₘ rest) id q' := by
    intro id q' hq' hne hold
    refine hold.of_mem fun sig' hsig' hid' => ?_
    rw [hm] at hsig'
    rcases Multiset.mem_cons.mp hsig' with heq | hsig'
    · rw [(Prod.mk.inj heq).1] at hq'
      cases source <;> simp_all [isOpen, isSignal]
    · rcases Multiset.mem_cons.mp hsig' with heq | hsig'
      · cases heq
        rcases hne with hne | hne
        · exact absurd (Json.str.inj (hid'.symm.trans hsigId)) hne
        · exact absurd rfl hne
      · exact Multiset.mem_cons_of_mem hsig'
  constructor
  · have hconserved := h.conserved
    rw [openIds, settledIds, hm] at hconserved
    simp only [total_cons, idAt, hsource, hnot, Bool.false_eq_true, if_false, if_true, zero_add]
      at hconserved
    rw [← hconserved]
    cases hfinal : isFinal target with
    | true =>
      rw [hfinal] at htarget
      simp [openIds, settledIds, idAt, htarget, hfinal, hjob]
    | false =>
      rw [hfinal] at htarget
      simp [openIds, settledIds, idAt, htarget, hfinal, hjob]
  · exact h.nodup
  · intro q' sig' hsig' hq'
    rcases Multiset.mem_cons.mp hsig' with heq | hsig'
    · rw [(Prod.mk.inj heq).1, htarget'] at hq'
      cases hq'
    · exact h.signals q' sig' (hrest hsig') hq'
  · exact h.kinds
  · intro id q' hnew hdelivered
    refine hunread (h.kinds _ hdelivered) (Or.inl ?_) (h.early id q' hnew hdelivered)
    rintro rfl
    exact hnew hsubmitted
  · intro p c id q' hc hp hcid hawaits hdelivered
    rcases Multiset.mem_cons.mp hc with heq | hc
    · cases heq
      obtain ⟨hawaits, hne⟩ := hadvances.awaits hawaits
      rw [hjob] at hcid
      exact hunread (h.kinds _ hdelivered) (Or.inr hne)
        (h.unread source job id q' hjobMem hsource hcid hawaits hdelivered)
    · refine hunread (h.kinds _ hdelivered) (Or.inl ?_)
        (h.unread p c id q' (hrest hc) hp hcid hawaits hdelivered)
      rintro rfl
      exact h.ne_of_open hm hsource (Multiset.mem_cons_of_mem hc) hp (hcid.trans hown.symm)
  · intro p c id q' hc hcid hreached
    rcases Multiset.mem_cons.mp hc with heq | hc
    · cases heq
      rw [hjob] at hcid
      rcases hadvances.reached hreached with hreached | rfl
      · exact h.history source job id q' hjobMem hcid hreached
      · obtain ⟨id', hid', hdelivered⟩ := h.signals q' sig hsigMem hq
        obtain rfl : id' = id := Json.str.inj ((hid'.symm.trans hsigId).trans (hown.symm.trans hcid))
        exact hdelivered
    · exact h.history p c id q' (hrest hc) hcid hreached
  · exact h.taken

theorem add_one_eq_cons (rest : LifecycleMarking) (x : LifecyclePlace × RhaiMap) : rest + ↑[x] = x ::ₘ rest :=
  (add_comm rest _).trans (Multiset.singleton_add x rest)

theorem add_two_eq_cons (rest : LifecycleMarking) (x y : LifecyclePlace × RhaiMap) :
    rest + ↑[x, y] = x ::ₘ y ::ₘ rest := by
  rw [← Multiset.cons_coe, Multiset.add_cons, add_one_eq_cons]

theorem inv_fires {t : LifecycleTransition} (h : Inv s)
    (hfires : Fires answer t consumed produced) (hm : s.marking = rest + ↑consumed)
    (hnew : ∀ executionId ∈ newId t answer, executionId ∉ s.submitted)
    (hcancel : ∀ tokens, cancelSucceeds (.fire t tokens answer) = true) :
    Inv { s with marking := rest + ↑produced, submitted := newId t answer ++ s.submitted } := by
  cases hfires with
  | submit hanswer =>
    subst hanswer
    rw [add_one_eq_cons] at hm ⊢
    exact inv_submit h (hnew _ (List.mem_singleton_self _)) hm
  | submitError hanswer =>
    subst hanswer
    exact inv_aside h hm (by simp [isAside, isOpen, isFinal, isSignal])
      (by simp [isAside, isOpen, isFinal, isSignal])
  | track hmoves hid =>
    rw [add_two_eq_cons] at hm
    rw [add_one_eq_cons]
    have hsame : newId t answer = [] := by
      cases hmoves <;> rfl
    rw [hsame]
    exact inv_advance h (.status hmoves) hm hid (hmoves.executionId _ _)
  | cancel hanswer hid =>
    subst hanswer
    rw [add_two_eq_cons] at hm
    rw [add_one_eq_cons]
    exact inv_advance h .cancel hm hid rfl
  | cancelError hanswer =>
    subst hanswer
    exact absurd (hcancel []) (by simp [cancelSucceeds])
  | retryEffectErr =>
    exact inv_aside h hm (by simp [isAside, isOpen, isFinal, isSignal])
      (by simp [isAside, isOpen, isFinal, isSignal])
  | dlqEffectErr =>
    refine inv_aside h hm (by simp [isAside, isOpen, isFinal, isSignal]) fun x hx => ?_
    obtain ⟨job, -, rfl⟩ := List.mem_map.mp hx
    rfl

theorem inv_step (s : State) (act : Action) (s' : State) (h : Inv s)
    (hcancel : cancelSucceeds act = true) (hstep : step s act = some s') : Inv s' := by
  cases act with
  | arrive job =>
    cases hstep
    exact inv_arrive h
  | signal executionId status detail source timestamp =>
    simp only [step] at hstep
    split at hstep
    · cases hstep
      exact inv_deliver h rfl rfl
    · cases hstep
  | requestCancel executionId =>
    cases hstep
    exact inv_deliver h rfl rfl
  | takeOn place job =>
    simp only [step] at hstep
    split at hstep
    · next hplace =>
      cases hstep
      exact inv_takeOn h hplace.1 hplace.2
    · cases hstep
  | fire t tokens answer =>
    simp only [step] at hstep
    split at hstep
    · next hnew =>
      obtain ⟨m, hfire, rfl⟩ := Option.map_eq_some_iff.mp hstep
      obtain ⟨hlen, hguard, rest, hm, rfl⟩ := NetTransition.fire?_eq_some.mp hfire
      refine inv_fires h (fires_of_fire hlen hguard) hm hnew fun tokens' => ?_
      cases t <;> cases answer <;> first | rfl | exact hcancel
    · cases hstep

/-! ## At rest -/

theorem not_advances_of_rest (hrest : Quiescent (fun t => some (executorLifecycle answer t)) m)
    {source q target : LifecyclePlace} (hadvances : Advances source q target) {job : RhaiMap}
    {executionId : String} (hjob : (source, job) ∈ m)
    (hid : prop job "execution_id" = .str executionId) : ¬ Unread m executionId q := by
  rintro ⟨sig, hsig, hsigId⟩
  have hne : source ≠ q := by
    obtain ⟨hsource, hq⟩ := hadvances.source_open
    rintro rfl
    cases source <;> simp_all [isOpen, isSignal]
  have hmem : ∀ x ∈ [source, q].zip [job, sig], x ∈ m := by
    simp [hjob, hsig]
  have hguard : ExecutorLifecycle.correlates [job, sig] = true := by
    simp [ExecutorLifecycle.correlates, hid, hsigId]
  cases hadvances with
  | @status t _ _ _ _ hmoves =>
    have hfalse := hrest.guard_eq_false (t := t) rfl (by
        rw [hmoves.transition answer]
        simp [track, hne]) [job, sig] (by rw [hmoves.transition answer]; rfl) (by
        rw [hmoves.transition answer]
        exact hmem)
    rw [hmoves.transition answer] at hfalse
    exact absurd (hguard.symm.trans hfalse) (by simp)
  | cancel =>
    have hfalse := hrest.guard_eq_false (t := .cancel) rfl (by
      simp [executorLifecycle, cancel]) [job, sig] rfl hmem
    exact absurd (hguard.symm.trans hfalse) (by simp)

theorem Inv.not_settles_of_open (h : Inv s)
    (hrest : Quiescent (fun t => some (executorLifecycle answer t)) s.marking)
    (hdelivered : Delivered s) (hcancels : CancelsEnd s) {p : LifecyclePlace} {job : RhaiMap}
    {executionId : String} (hjob : (p, job) ∈ s.marking) (hp : isOpen p = true)
    (hid : prop job "execution_id" = .str executionId) : ¬ Settles s executionId := by
  have hstuck : ∀ {q target}, Advances p q target → awaits p q = true →
      (executionId, q) ∉ s.delivered := fun hadvances hawaits hmem =>
    not_advances_of_rest hrest hadvances hjob hid (h.unread p job executionId _ hjob hp hid hawaits hmem)
  obtain ⟨haccepted, -⟩ := hdelivered executionId (h.submitted_of_open hjob hp hid)
  cases p with
  | submitted => exact absurd haccepted (hstuck (.status .accepted) rfl)
  | accepted =>
    rintro (hfailed | htimedOut | ⟨hrunning, -⟩)
    · exact hstuck (.status .failedPreRun) rfl hfailed
    · exact hstuck (.status .timeoutPreRun) rfl htimedOut
    · exact hstuck (.status .running) rfl hrunning
  | running =>
    rintro (hfailed | htimedOut | ⟨-, hcompleted | ⟨-, hrequest⟩⟩)
    · exact hstuck (.status .failed) rfl hfailed
    · exact hstuck (.status .timeout) rfl htimedOut
    · exact hstuck (.status .success) rfl hcompleted
    · exact hstuck .cancel rfl hrequest
  | cancelling =>
    have hrequest := h.history .cancelling job executionId .cancelRequest hjob hid rfl
    exact absurd (hcancels executionId hrequest) (hstuck (.status .cancelled) rfl)
  | _ => exact absurd hp (by simp [isOpen])

theorem Inv.settles_of_settled (h : Inv s) {executionId : String}
    (hsettled : (settledIds s).count (.str executionId) = 1) : Settles s executionId := by
  have hmem : Json.str executionId ∈ settledIds s :=
    Multiset.one_le_count_iff_mem.mp hsettled.ge
  obtain ⟨p, hp, hhistory⟩ : ∃ p, isFinal p = true ∧
      ∀ q, reached p q = true → (executionId, q) ∈ s.delivered := by
    rcases Multiset.mem_add.mp hmem with hmem | hmem
    · obtain ⟨⟨p, job⟩, hjob, hmem⟩ := mem_total.mp hmem
      obtain ⟨hp, hid⟩ := mem_idAt.mp hmem
      exact ⟨p, hp, fun q hq => h.history p job executionId q hjob hid hq⟩
    · obtain ⟨x, hx, hid⟩ := List.mem_map.mp (Multiset.mem_coe.mp hmem)
      obtain ⟨hp, hhistory⟩ := h.taken x hx
      exact ⟨x.1, hp, fun q hq => hhistory executionId q hid hq⟩
  cases p with
  | completed => exact Or.inr (Or.inr ⟨hhistory _ rfl, Or.inl (hhistory _ rfl)⟩)
  | failed => exact Or.inl (hhistory _ rfl)
  | timedOut => exact Or.inr (Or.inl (hhistory _ rfl))
  | cancelled => exact Or.inr (Or.inr ⟨hhistory _ rfl, Or.inr ⟨hhistory _ rfl, hhistory _ rfl⟩⟩)
  | _ => exact absurd hp (by simp [isFinal])

/-- **The lifecycle settles a job exactly if** it is reported failed or timed out, or it is reported
running and then completed, or cancelled on request. -/
theorem settles_iff (as : List Action) (s : State) (answer : ClientAnswer)
    (hrun : exec step init as = some s) (hcancel : ∀ a ∈ as, cancelSucceeds a = true)
    (hcancels : CancelsEnd s) (hdelivered : Delivered s)
    (hrest : Quiescent (fun t => some (executorLifecycle answer t)) s.marking) :
    (∀ executionId ∈ s.submitted, Settled s executionId) ↔
      ∀ executionId ∈ s.submitted, Settles s executionId := by
  have h : Inv s := exec_invariant_along inv_step inv_init (along_of_forall hcancel) hrun
  refine forall₂_congr fun executionId hsubmitted => ⟨fun hsettled => ?_, fun hsettles => ?_⟩
  · exact h.settles_of_settled hsettled.1
  · have hopen : Json.str executionId ∉ openIds s := by
      intro hmem
      obtain ⟨⟨p, job⟩, hjob, hmem⟩ := mem_total.mp hmem
      obtain ⟨hp, hid⟩ := mem_idAt.mp hmem
      exact h.not_settles_of_open hrest hdelivered hcancels hjob hp hid hsettles
    have hcount := congrArg (Multiset.count (Json.str executionId)) h.conserved
    rw [Multiset.count_add, Multiset.count_eq_zero.mpr hopen, zero_add, Multiset.coe_count,
      List.count_eq_one_of_mem (h.nodup.map fun _ _ => Json.str.inj)
        (List.mem_map_of_mem hsubmitted)] at hcount
    exact ⟨hcount, Multiset.count_eq_zero.mpr hopen⟩

/-! ## A job that stays accepted -/

/-- A job is submitted, and its statuses come. -/
def submitting (executionId : String) (statuses : List ExecutionStatus) : List Action :=
  [.arrive [("job_id", .str "j")], .fire .submit [[("job_id", .str "j")]] (.ok executionId)] ++
    statuses.map fun status => .signal executionId status .null .null .null

def tracking (t : LifecycleTransition) (executionId : String) (status : ExecutionStatus) : Action :=
  .fire t [[("execution_id", .str executionId), ("job_id", .str "j")],
    statusSignal executionId status .null .null .null] (.ok executionId)

/-- The completion overtakes the other two. -/
def overtaken : List Action :=
  submitting "e" [.completed, .accepted, .running] ++
    [tracking .tAccepted "e" .accepted, tracking .tRunning "e" .running,
      tracking .tSuccess "e" .completed]

def atRest (s : State) : Bool :=
  decide (Quiescent (fun t => some (executorLifecycle (.ok "") t)) s.marking)

/-- A job that was running settles, whatever the order of its signals. -/
theorem settles_iff_overtaken : ∃ s, exec step init overtaken = some s ∧ s.submitted = ["e"] ∧
    ∀ executionId ∈ s.submitted, Settled s executionId := by
  have hend : (exec step init overtaken).map (fun s => (s.submitted, s.delivered, atRest s)) =
      some (["e"], [("e", .sig .running), ("e", .sig .accepted), ("e", .sig .completed)], true) := by
    decide
  obtain ⟨s, hs, hrecord⟩ := Option.map_eq_some_iff.mp hend
  simp only [Prod.mk.injEq] at hrecord
  obtain ⟨hsubmitted, hdelivered, hrest⟩ := hrecord
  refine ⟨s, hs, hsubmitted, ?_⟩
  refine (settles_iff overtaken s (.ok "") hs (by decide) ?_ ?_ (of_decide_eq_true hrest)).mpr ?_
  · simp [CancelsEnd, hdelivered]
  · intro executionId hmem
    obtain rfl : executionId = "e" := by simpa [hsubmitted] using hmem
    exact ⟨by simp [received, hdelivered], .completed, rfl, by simp [received, hdelivered]⟩
  · intro executionId hmem
    obtain rfl : executionId = "e" := by simpa [hsubmitted] using hmem
    exact Or.inr (Or.inr ⟨by simp [received, hdelivered], Or.inl (by simp [received, hdelivered])⟩)

/-- A job that is accepted and completed, but never reported running, stays accepted. -/
theorem completed_unsettled : ∃ s, exec step init (submitting "e" [.accepted, .completed] ++
      [tracking .tAccepted "e" .accepted]) = some s ∧
    Delivered s ∧ Quiescent (fun t => some (executorLifecycle (.ok "") t)) s.marking ∧
    "e" ∈ s.submitted ∧ ¬ Settled s "e" ∧
    (.accepted, [("execution_id", .str "e"), ("job_id", .str "j")]) ∈ s.marking := by
  have hend : (exec step init (submitting "e" [.accepted, .completed] ++
      [tracking .tAccepted "e" .accepted])).map (fun s =>
        (s.submitted, s.delivered, atRest s, decide (Settled s "e"),
          decide ((.accepted, [("execution_id", .str "e"), ("job_id", .str "j")]) ∈ s.marking))) =
      some (["e"], [("e", .sig .completed), ("e", .sig .accepted)], true, false, true) := by
    decide
  obtain ⟨s, hs, hrecord⟩ := Option.map_eq_some_iff.mp hend
  simp only [Prod.mk.injEq, decide_eq_false_iff_not, decide_eq_true_eq] at hrecord
  obtain ⟨hsubmitted, hdelivered, hrest, hsettled, hjob⟩ := hrecord
  refine ⟨s, hs, ?_, of_decide_eq_true hrest, by simp [hsubmitted], hsettled, hjob⟩
  intro executionId hmem
  obtain rfl : executionId = "e" := by simpa [hsubmitted] using hmem
  exact ⟨by simp [received, hdelivered], .completed, rfl, by simp [received, hdelivered]⟩

end LifecycleSettles

end Mekhan
