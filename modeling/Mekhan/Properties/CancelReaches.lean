import Mekhan.Executor.Worker

/-!
# Cancels of executions

A token is registered once the lock is won, which is some time after `Accepted` was published: a cancel that is
handled in between finds no token and is dropped. From its registration to its report the token of an execution
stays in the registry, whatever other deliveries and executions do.
-/

namespace Mekhan

namespace CancelReaches

open Infra Worker

variable {cfg : Config} {s s' : Fleet}

/-- The token that a delivery runs under, or has run under. -/
def token? : Phase → Option Nat
  | .registered token | .running token | .reported token _ => some token
  | _ => none

/-- The delivery has its token and has not published a terminal status. -/
def Live : Phase → Prop
  | .registered _ | .running _ => True
  | _ => False

instance : DecidablePred Live
  | .registered _ | .running _ => .isTrue trivial
  | .delivered | .accepted | .prepared | .locked | .reported _ _ | .deregistered _ | .returned | .turnedAway
  | .acknowledged | .crashed => .isFalse id

/-- Every cancel that was meant for the execution has cancelled its token, and until it has reported the token is the
one that a cancel would find. -/
def Reached (s : Fleet) : Prop :=
  ∀ d ∈ s.deliveries, ∀ token, token? d.phase = some token →
    (d.asked = true → token ∈ s.cancelled) ∧
      (Live d.phase → s.registries d.worker d.job.executionId = some token)

/-- When a delivery registers its token, no cancel has been handled since it published `Accepted`. -/
def InTime (s : Fleet) : Action → Prop
  | .advance i .register => ∀ d ∈ s.deliveries[i]?, d.phase = .locked → d.asked = false
  | _ => True

instance (s : Fleet) (a : Action) : Decidable (InTime s a) := by
  unfold InTime
  split <;> infer_instance

/-! ## The invariant -/

def HasLock : Phase → Prop
  | .locked | .registered _ | .running _ | .reported _ _ | .deregistered _ => True
  | _ => False

/-- Two deliveries of one execution that both have its lock file. -/
def BothLocked (d d' : Worker.Delivery) : Prop :=
  d.job.executionId = d'.job.executionId ∧ HasLock d.phase ∧ HasLock d'.phase

structure Inv (s : Fleet) : Prop where
  locked : ∀ d ∈ s.deliveries, HasLock d.phase → d.job.executionId ∈ s.locks
  single : AtMostOne s.deliveries BothLocked
  registered : ∀ d ∈ s.deliveries, ∀ token, token? d.phase = some token →
    s.registries d.worker d.job.executionId = some token
  made : ∀ worker e token, s.registries worker e = some token → token < s.tokens
  cancelled : ∀ token ∈ s.cancelled, token < s.tokens

theorem inv_empty : Inv .empty where
  locked _ hd := absurd hd List.not_mem_nil
  single _ _ _ _ hi := absurd hi (by simp [Fleet.empty])
  registered _ hd := absurd hd List.not_mem_nil
  made _ _ _ h := absurd h (by simp [Fleet.empty, CancellationRegistry.new])
  cancelled _ h := absurd h List.not_mem_nil

theorem hasLock_of_token {phase : Phase} {token : Nat} (h : token? phase = some token) : HasLock phase := by
  cases phase <;> simp [token?, HasLock] at h ⊢

/-- **What a delivery may do that keeps the lock files exclusive and the tokens registered**: it gets the lock only
where there is none, and changes the registry only where it has the lock. -/
theorem Inv.move (h : Inv s) {i : Nat} {d : Worker.Delivery} (hd : s.deliveries[i]? = some d) {phase : Phase}
    (hdeliveries : s'.deliveries = s.deliveries.set i { d with phase })
    (hlocks : ∀ e, e ≠ d.job.executionId → (e ∈ s'.locks ↔ e ∈ s.locks))
    (hown : d.job.executionId ∈ s.locks → ¬HasLock d.phase → d.job.executionId ∈ s'.locks)
    (hkeeps : HasLock phase → d.job.executionId ∈ s'.locks ∧ (HasLock d.phase ∨ d.job.executionId ∉ s.locks))
    (hregistries : ∀ worker e, (worker ≠ d.worker ∨ e ≠ d.job.executionId ∨ ¬HasLock d.phase) →
      s'.registries worker e = s.registries worker e)
    (htoken : ∀ token, token? phase = some token → s'.registries d.worker d.job.executionId = some token)
    (hmade : ∀ worker e token, s'.registries worker e = some token → token < s'.tokens)
    (hcancelled : s'.cancelled = s.cancelled) (htokens : s.tokens ≤ s'.tokens) : Inv s' := by
  -- Another delivery with the lock is one of another execution, or this one has no lock.
  have hother : ∀ d' ∈ s.deliveries.set i { d with phase }, d' = { d with phase } ∨ d' ∈ s.deliveries ∧
      (HasLock d'.phase → HasLock d.phase → d'.job.executionId ≠ d.job.executionId) := by
    intro d' hd'
    obtain ⟨j, hj⟩ := List.mem_iff_getElem?.mp hd'
    rw [List.getElem?_set] at hj
    split at hj
    · split at hj
      · exact .inl (Option.some.inj hj).symm
      · cases hj
    · next hij =>
      refine .inr ⟨List.mem_of_getElem? hj, fun hlock' hlock heq => hij ?_⟩
      exact h.single i j d d' hd hj ⟨heq.symm, hlock, hlock'⟩
  refine ⟨?_, ?_, ?_, hmade, ?_⟩
  · intro d' hd' hlock'
    rw [hdeliveries] at hd'
    rcases hother d' hd' with rfl | ⟨hmem, hne⟩
    · exact (hkeeps hlock').1
    · have hold := h.locked d' hmem hlock'
      by_cases he : d'.job.executionId = d.job.executionId
      · rw [he] at hold ⊢
        exact hown hold fun hlock => hne hlock' hlock he
      · exact (hlocks _ he).mpr hold
  · rw [hdeliveries]
    have hnew : ∀ x ∈ s.deliveries, HasLock phase → HasLock x.phase →
        d.job.executionId = x.job.executionId → HasLock d.phase := by
      intro x hx hphase hlock heq
      refine (hkeeps hphase).2.resolve_right fun hfree => hfree ?_
      rw [heq]
      exact h.locked x hx hlock
    refine h.single.set hd ?_ ?_
    · rintro x hx ⟨heq, hphase, hlock⟩
      exact ⟨heq, hnew x hx hphase hlock heq, hlock⟩
    · rintro x hx ⟨heq, hlock, hphase⟩
      exact ⟨heq, hlock, hnew x hx hphase hlock heq.symm⟩
  · intro d' hd' token htok
    rw [hdeliveries] at hd'
    rcases hother d' hd' with rfl | ⟨hmem, hne⟩
    · exact htoken token htok
    · rw [hregistries, h.registered d' hmem token htok]
      by_cases he : d'.job.executionId = d.job.executionId
      · exact .inr (.inr fun hlock => hne (hasLock_of_token htok) hlock he)
      · exact .inr (.inl he)
  · intro token hcan
    rw [hcancelled] at hcan
    exact Nat.lt_of_lt_of_le (h.cancelled token hcan) htokens

/-- A move that leaves locks and registries alone, and after which the delivery has no lock or token that it had not. -/
theorem Inv.moveOn (h : Inv s) {i : Nat} {d : Worker.Delivery} (hd : s.deliveries[i]? = some d) {phase : Phase}
    (hlock : HasLock phase → HasLock d.phase) (htoken : ∀ token, token? phase = some token → token? d.phase = some token)
    (published : List (String × ExecutionStatus)) (acknowledged : List String) :
    Inv { s.setPhase i d phase with published := published, acknowledged := acknowledged } := by
  have hmem := List.mem_of_getElem? hd
  refine h.move hd rfl (fun _ _ => Iff.rfl) (fun hold _ => hold) (fun hphase => ?_) (fun _ _ _ => rfl)
    (fun token ht => h.registered d hmem token (htoken token ht)) h.made rfl le_rfl
  exact ⟨h.locked d hmem (hlock hphase), .inl (hlock hphase)⟩

/-! ## Steps -/

theorem inv_advance (h : Inv s) {i : Nat} {d : Worker.Delivery} {move : Move} (hd : s.deliveries[i]? = some d)
    (hs : s.advance cfg i d move = some s') : Inv s' := by
  have hmem := List.mem_of_getElem? hd
  unfold Fleet.advance at hs
  split at hs
  case h_1 _ hphase =>
    cases hs
    exact h.moveOn hd (by simp [HasLock]) (by simp [token?]) _ _
  case h_2 _ hphase =>
    split at hs
    · cases hs
    · cases hs
      exact h.moveOn hd (by simp [HasLock]) (by simp [token?]) _ _
  case h_3 succeeds hphase =>
    split at hs
    · cases hs
      cases succeeds <;> exact h.moveOn hd (by simp [HasLock]) (by simp [token?]) _ _
    · cases hs
  case h_4 hphase =>
    split at hs
    · cases hs
    · next hfree =>
      cases hs
      refine h.move hd rfl (fun e he => ?_) (fun _ _ => List.mem_cons_self) (fun _ => ⟨List.mem_cons_self, .inr hfree⟩)
        (fun _ _ _ => rfl) (by simp [token?]) h.made rfl le_rfl
      exact List.mem_cons.trans (or_iff_right he)
  case h_5 hphase =>
    cases hs
    exact h.moveOn hd (by simp [HasLock]) (by simp [token?]) _ _
  case h_6 hphase =>
    cases hs
    have hlock : HasLock d.phase := by rw [hphase]; trivial
    refine h.move hd rfl (fun _ _ => Iff.rfl) (fun hold _ => hold) (fun _ => ⟨h.locked d hmem hlock, .inl hlock⟩) ?_ ?_ ?_
      rfl (Nat.le_succ _)
    · intro worker e hne
      simp only [Fleet.setPhase, Fleet.onRegistry]
      by_cases hw : worker = d.worker
      · subst hw
        have he : e ≠ d.job.executionId := (hne.resolve_left (by simp)).resolve_right (by simp [hlock])
        rw [Function.update_self, CancellationRegistry.register, Function.update_of_ne he]
      · rw [Function.update_of_ne hw]
    · intro token ht
      cases ht
      simp [Fleet.setPhase, Fleet.onRegistry, CancellationRegistry.register]
    · intro worker e token ht
      simp only [Fleet.setPhase, Fleet.onRegistry] at ht ⊢
      by_cases hw : worker = d.worker
      · subst hw
        rw [Function.update_self, CancellationRegistry.register] at ht
        by_cases he : e = d.job.executionId
        · subst he
          rw [Function.update_self] at ht
          cases ht
          exact Nat.lt_succ_self _
        · rw [Function.update_of_ne he] at ht
          exact Nat.lt_succ_of_lt (h.made _ _ _ ht)
      · rw [Function.update_of_ne hw] at ht
        exact Nat.lt_succ_of_lt (h.made _ _ _ ht)
  case h_7 token hphase =>
    cases hs
    exact h.moveOn hd (by simp [hphase, HasLock]) (by simp [hphase, token?]) _ _
  case h_8 token hphase =>
    cases hs
    exact h.moveOn hd (by simp [hphase, HasLock]) (by simp [hphase, token?]) _ _
  case h_9 status token hphase =>
    split at hs
    · cases hs
      exact h.moveOn hd (by simp [hphase, HasLock]) (by simp [hphase, token?]) _ _
    · cases hs
  case h_10 token ending hphase =>
    have hlock : HasLock d.phase := by rw [hphase]; trivial
    have hregistries : ∀ worker e, (worker ≠ d.worker ∨ e ≠ d.job.executionId ∨ ¬HasLock d.phase) →
        Function.update s.registries d.worker ((s.registries d.worker).deregister d.job.executionId) worker e =
          s.registries worker e := by
      intro worker e hne
      by_cases hw : worker = d.worker
      · subst hw
        have he : e ≠ d.job.executionId := (hne.resolve_left (by simp)).resolve_right (by simp [hlock])
        rw [Function.update_self, CancellationRegistry.deregister, Function.update_of_ne he]
      · rw [Function.update_of_ne hw]
    have hmade : ∀ worker e token,
        Function.update s.registries d.worker ((s.registries d.worker).deregister d.job.executionId) worker e = some token →
          token < s.tokens := by
      intro worker e token ht
      by_cases hw : worker = d.worker
      · subst hw
        rw [Function.update_self, CancellationRegistry.deregister] at ht
        by_cases he : e = d.job.executionId
        · subst he
          rw [Function.update_self] at ht
          cases ht
        · rw [Function.update_of_ne he] at ht
          exact h.made _ _ _ ht
      · rw [Function.update_of_ne hw] at ht
        exact h.made _ _ _ ht
    cases ending with
    | none =>
      cases hs
      exact h.move hd rfl (fun _ _ => Iff.rfl) (fun hold _ => hold) (by simp [HasLock]) hregistries (by simp [token?])
        hmade rfl le_rfl
    | some status =>
      cases hs
      exact h.move hd rfl (fun _ _ => Iff.rfl) (fun hold _ => hold) (fun _ => ⟨h.locked d hmem hlock, .inl hlock⟩)
        hregistries (by simp [token?]) hmade rfl le_rfl
  case h_11 removed ending hphase =>
    split at hs
    · cases hs
      refine h.move hd rfl (fun e he => ?_) (fun _ hlock => absurd ?_ hlock) (by simp [HasLock]) (fun _ _ _ => rfl)
        (by simp [token?]) h.made rfl le_rfl
      · simp [he]
      · rw [hphase]
        trivial
    · cases hs
      exact h.moveOn hd (by simp [HasLock]) (by simp [token?]) _ _
  case h_12 hphase =>
    cases hs
    exact h.moveOn hd (by simp [HasLock]) (by simp [token?]) _ _
  case h_13 hphase =>
    cases hs
    exact h.moveOn hd (by simp [HasLock]) (by simp [token?]) _ _
  case h_14 => cases hs

theorem inv_deliver (h : Inv s) (worker : Nat) (job : ExecutionJob) :
    Inv { s with deliveries := s.deliveries ++ [⟨worker, job, .delivered, false⟩] } where
  locked d hd hlock := by
    rcases List.mem_append.mp hd with hold | hnew
    · exact h.locked d hold hlock
    · rw [List.mem_singleton.mp hnew] at hlock
      exact hlock.elim
  single := h.single.concat (fun _ hboth => hboth.2.1) fun _ hboth => hboth.2.2
  registered d hd token ht := by
    rcases List.mem_append.mp hd with hold | hnew
    · exact h.registered d hold token ht
    · rw [List.mem_singleton.mp hnew] at ht
      cases ht
  made := h.made
  cancelled := h.cancelled

theorem askDelivery_eq (worker : Nat) (executionId : String) (d : Worker.Delivery) :
    (Fleet.askDelivery worker executionId d).worker = d.worker ∧ (Fleet.askDelivery worker executionId d).job = d.job ∧
      (Fleet.askDelivery worker executionId d).phase = d.phase := by
  unfold Fleet.askDelivery
  split <;> exact ⟨rfl, rfl, rfl⟩

theorem inv_cancel (h : Inv s) (worker : Nat) (executionId : String) : Inv { s with
      cancelled := (s.registries worker executionId).toList ++ s.cancelled
      deliveries := s.deliveries.map (Fleet.askDelivery worker executionId) } where
  locked d hd hlock := by
    obtain ⟨d, hmem, rfl⟩ := List.mem_map.mp hd
    obtain ⟨-, hjob, hphase⟩ := askDelivery_eq worker executionId d
    rw [hphase] at hlock
    rw [hjob]
    exact h.locked d hmem hlock
  single := h.single.map fun d d' hboth => by
    obtain ⟨-, hjob, hphase⟩ := askDelivery_eq worker executionId d
    obtain ⟨-, hjob', hphase'⟩ := askDelivery_eq worker executionId d'
    rwa [BothLocked, hjob, hjob', hphase, hphase'] at hboth
  registered d hd token ht := by
    obtain ⟨d, hmem, rfl⟩ := List.mem_map.mp hd
    obtain ⟨hworker, hjob, hphase⟩ := askDelivery_eq worker executionId d
    rw [hphase] at ht
    rw [hworker, hjob]
    exact h.registered d hmem token ht
  made := h.made
  cancelled token ht := by
    rcases List.mem_append.mp ht with hnew | hold
    · exact h.made worker executionId token (Option.mem_toList.mp hnew)
    · exact h.cancelled token hold

theorem crashDelivery_cases (worker : Nat) (d : Worker.Delivery) :
    d.worker ≠ worker ∧ Fleet.crashDelivery worker d = d ∨
      ¬HasLock (Fleet.crashDelivery worker d).phase ∧ token? (Fleet.crashDelivery worker d).phase = none := by
  unfold Fleet.crashDelivery
  split
  · right
    cases d.phase <;> simp [Phase.crash, HasLock, token?]
  · next hw => exact .inl ⟨hw, rfl⟩

theorem inv_crash (h : Inv s) (worker : Nat) : Inv { s with
      deliveries := s.deliveries.map (Fleet.crashDelivery worker)
      registries := Function.update s.registries worker .new } where
  locked d hd hlock := by
    obtain ⟨d, hmem, rfl⟩ := List.mem_map.mp hd
    rcases crashDelivery_cases worker d with ⟨-, heq⟩ | ⟨hno, -⟩
    · rw [heq] at hlock ⊢
      exact h.locked d hmem hlock
    · exact absurd hlock hno
  single := h.single.map fun d d' hboth => by
    rcases crashDelivery_cases worker d with ⟨-, heq⟩ | ⟨hno, -⟩
    · rcases crashDelivery_cases worker d' with ⟨-, heq'⟩ | ⟨hno, -⟩
      · rwa [heq, heq'] at hboth
      · exact absurd hboth.2.2 hno
    · exact absurd hboth.2.1 hno
  registered d hd token ht := by
    obtain ⟨d, hmem, rfl⟩ := List.mem_map.mp hd
    rcases crashDelivery_cases worker d with ⟨hw, heq⟩ | ⟨-, hnone⟩
    · rw [heq] at ht ⊢
      dsimp only
      rw [Function.update_of_ne hw]
      exact h.registered d hmem token ht
    · rw [hnone] at ht
      cases ht
  made w e token ht := by
    dsimp only at ht
    by_cases hw : w = worker
    · subst hw
      rw [Function.update_self] at ht
      cases ht
    · rw [Function.update_of_ne hw] at ht
      exact h.made w e token ht
  cancelled := h.cancelled

theorem inv_step (s : Fleet) (a : Action) (s' : Fleet) (h : Inv s) (hs : s.step cfg a = some s') : Inv s' := by
  cases a with
  | deliver worker job => exact Option.some.inj hs ▸ inv_deliver h worker job
  | advance i move =>
    obtain ⟨d, hd, hs⟩ := Option.bind_eq_some_iff.mp hs
    exact inv_advance h hd hs
  | cancel worker executionId => exact Option.some.inj hs ▸ inv_cancel h worker executionId
  | crash worker => exact Option.some.inj hs ▸ inv_crash h worker

/-! ## Cancels -/

/-- Every cancel that was meant for a delivery with a token has cancelled it. -/
def Cancelled (s : Fleet) : Prop :=
  ∀ d ∈ s.deliveries, ∀ token, token? d.phase = some token → d.asked = true → token ∈ s.cancelled

theorem reached_iff (h : Inv s) : Reached s ↔ Cancelled s := by
  constructor
  · exact fun hr d hd token ht => (hr d hd token ht).1
  · exact fun hc d hd token ht => ⟨hc d hd token ht, fun _ => h.registered d hd token ht⟩

theorem token_advance {i : Nat} {d : Worker.Delivery} {move : Move} (hs : s.advance cfg i d move = some s') :
    s'.cancelled = s.cancelled ∧ ∃ phase, s'.deliveries = s.deliveries.set i { d with phase } ∧
      (move ≠ .register → ∀ token, token? phase = some token → token? d.phase = some token) ∧
      (move = .register → d.phase = .locked ∧ phase = .registered s.tokens) := by
  unfold Fleet.advance at hs
  split at hs
  case h_1 _ hphase =>
    cases hs
    exact ⟨rfl, _, rfl, by simp [token?], by simp⟩
  case h_2 _ hphase =>
    split at hs
    · cases hs
    · cases hs
      exact ⟨rfl, _, rfl, by simp [token?], by simp⟩
  case h_3 succeeds hphase =>
    split at hs
    · cases hs
      cases succeeds <;> exact ⟨rfl, _, rfl, by simp [token?], by simp⟩
    · cases hs
  case h_4 hphase =>
    split at hs
    · cases hs
    · cases hs
      exact ⟨rfl, _, rfl, by simp [token?], by simp⟩
  case h_5 hphase =>
    cases hs
    exact ⟨rfl, _, rfl, by simp [token?], by simp⟩
  case h_6 hphase =>
    cases hs
    exact ⟨rfl, _, rfl, by simp, fun _ => ⟨hphase, rfl⟩⟩
  case h_7 token hphase =>
    cases hs
    exact ⟨rfl, _, rfl, by simp [hphase, token?], by simp⟩
  case h_8 token hphase =>
    cases hs
    exact ⟨rfl, _, rfl, by simp [hphase, token?], by simp⟩
  case h_9 status token hphase =>
    split at hs
    · cases hs
      exact ⟨rfl, _, rfl, by simp [hphase, token?], by simp⟩
    · cases hs
  case h_10 token ending hphase =>
    cases ending <;> obtain rfl := Option.some.inj hs <;> exact ⟨rfl, _, rfl, by simp [token?], by simp⟩
  case h_11 removed ending hphase =>
    split at hs <;> obtain rfl := Option.some.inj hs <;> exact ⟨rfl, _, rfl, by simp [token?], by simp⟩
  case h_12 hphase =>
    cases hs
    exact ⟨rfl, _, rfl, by simp [token?], by simp⟩
  case h_13 hphase =>
    cases hs
    exact ⟨rfl, _, rfl, by simp [token?], by simp⟩
  case h_14 => cases hs

theorem cancelled_advance (h : Inv s) (hc : Cancelled s) {i : Nat} {d : Worker.Delivery} {move : Move}
    (hd : s.deliveries[i]? = some d) (hs : s.advance cfg i d move = some s') :
    Cancelled s' ↔ (move = .register → d.asked = false) := by
  obtain ⟨hcancelled, phase, hdeliveries, hkeeps, hnew⟩ := token_advance hs
  constructor
  · rintro hc' rfl
    by_contra hasked
    -- The new token has not been cancelled by anyone.
    obtain ⟨-, rfl⟩ := hnew rfl
    have hmem : { d with phase := .registered s.tokens } ∈ s'.deliveries := by
      rw [hdeliveries]
      exact mem_set_self hd
    have hin := hc' _ hmem s.tokens rfl (by simpa using hasked)
    rw [hcancelled] at hin
    exact absurd (h.cancelled _ hin) (lt_irrefl _)
  · intro hasked d' hd' token ht hask
    rw [hdeliveries] at hd'
    rw [hcancelled]
    rcases List.mem_or_eq_of_mem_set hd' with hold | rfl
    · exact hc d' hold token ht hask
    · by_cases hmove : move = .register
      · have hfalse : d.asked = false := hasked hmove
        exact absurd (hask.symm.trans hfalse) (by simp)
      · exact hc d (List.mem_of_getElem? hd) token (hkeeps hmove token ht) hask

theorem cancelled_cancel (h : Inv s) (hc : Cancelled s) (worker : Nat) (executionId : String) :
    Cancelled { s with
      cancelled := (s.registries worker executionId).toList ++ s.cancelled
      deliveries := s.deliveries.map (Fleet.askDelivery worker executionId) } := by
  intro d hd token ht hask
  obtain ⟨d, hmem, rfl⟩ := List.mem_map.mp hd
  rw [(askDelivery_eq worker executionId d).2.2] at ht
  refine List.mem_append.mpr ?_
  unfold Fleet.askDelivery at hask
  split at hask
  · next hmeant =>
    obtain ⟨rfl, rfl, -⟩ := hmeant
    exact .inl (Option.mem_toList.mpr (h.registered d hmem token ht))
  · exact .inr (hc d hmem token ht hask)

theorem reached_step (s : Fleet) (a : Action) (h : Inv s) (hr : Reached s) :
    (∀ s', s.step cfg a = some s' → Reached s') ↔ InTime s a := by
  have hc := (reached_iff h).mp hr
  cases a with
  | deliver worker job =>
    refine iff_of_true (fun s' hs => ?_) trivial
    have hinv := inv_step s _ s' h hs
    cases hs
    refine (reached_iff hinv).mpr fun d hd token ht hask => ?_
    rcases List.mem_append.mp hd with hold | hnew
    · exact hc d hold token ht hask
    · rw [List.mem_singleton.mp hnew] at ht
      cases ht
  | advance i move =>
    constructor
    · intro hall
      cases move
      case register =>
        intro d hd hphase
        have henabled : (s.step cfg (.advance i .register)).isSome := by
          rw [Fleet.step, Option.mem_def.mp hd, Option.bind_some]
          simp [Fleet.advance, hphase]
        obtain ⟨s', hs⟩ := Option.isSome_iff_exists.mp henabled
        have hinv := inv_step s _ s' h hs
        have hreached := hall _ hs
        rw [Fleet.step, Option.mem_def.mp hd, Option.bind_some] at hs
        exact (cancelled_advance h hc hd hs).mp ((reached_iff hinv).mp hreached) rfl
      all_goals exact trivial
    · intro hin s' hs
      have hinv := inv_step s _ s' h hs
      obtain ⟨d, hd, hs⟩ := Option.bind_eq_some_iff.mp hs
      refine (reached_iff hinv).mpr ((cancelled_advance h hc hd hs).mpr ?_)
      rintro rfl
      exact hin d hd ((token_advance hs).2.choose_spec.2.2 rfl).1
  | cancel worker executionId =>
    refine iff_of_true (fun s' hs => ?_) trivial
    have hinv := inv_step s _ s' h hs
    cases hs
    exact (reached_iff hinv).mpr (cancelled_cancel h hc worker executionId)
  | crash worker =>
    refine iff_of_true (fun s' hs => ?_) trivial
    have hinv := inv_step s _ s' h hs
    cases hs
    refine (reached_iff hinv).mpr fun d hd token ht hask => ?_
    obtain ⟨d, hmem, rfl⟩ := List.mem_map.mp hd
    rcases crashDelivery_cases worker d with ⟨-, heq⟩ | ⟨-, hnone⟩
    · rw [heq] at ht hask
      exact hc d hmem token ht hask
    · rw [hnone] at ht
      cases ht

theorem reached_empty : Reached .empty := fun _ hd => absurd hd List.not_mem_nil

/-- **A cancel reaches the execution it is meant for, in every state of a run, exactly when no delivery of the run
registers its token after a cancel that came while it was already accepted.** -/
theorem cancel_reaches_iff (cfg : Config) (as : List Action) :
    Throughout (Fleet.step cfg) Reached .empty as ↔ Along (Fleet.step cfg) InTime .empty as :=
  throughout_iff_along_of_invariant inv_step reached_step inv_empty reached_empty

/-- **One delivery of an execution at a time has its lock file**, and its token stays registered. -/
theorem lock_exclusive (cfg : Config) (as : List Action) : Throughout (Fleet.step cfg) (fun s =>
    AtMostOne s.deliveries BothLocked ∧ (∀ d ∈ s.deliveries, HasLock d.phase → d.job.executionId ∈ s.locks) ∧
      ∀ d ∈ s.deliveries, ∀ token, token? d.phase = some token →
        s.registries d.worker d.job.executionId = some token) .empty as :=
  throughout_of_invariant inv_step (fun _ h => ⟨h.single, h.locked, h.registered⟩) as inv_empty

/-! ## A lost cancel -/

def cancelledEarly : List Action :=
  [.deliver 0 ⟨"run-1", "python"⟩, .advance 0 .accept, .cancel 0 "run-1", .advance 0 (.createDir true),
    .advance 0 (.lock true), .advance 0 .register]

/-- A cancel that is handled right after `Accepted` was published. -/
theorem cancel_lost : ¬∀ (cfg : Config) (as : List Action), Throughout (Fleet.step cfg) Reached .empty as := by
  intro h
  have hlate : ¬Along (Fleet.step ⟨fun _ _ => true, fun _ => .immediate⟩) InTime .empty cancelledEarly := by decide
  have hearly := h ⟨fun _ _ => true, fun _ => .immediate⟩ cancelledEarly
  exact hlate ((throughout_iff_along_of_invariant inv_step reached_step inv_empty reached_empty).mp hearly)

end CancelReaches

end Mekhan
