import Mekhan.Infra.Runs
import Mekhan.Nats.Clockmaster

/-!
# No timer is lost or deleted for another

What the clockmaster has to do for each entry of the bucket: hand it to `schedule_timer_execution`,
or have a step pending that will see it; and never let a task delete an entry that is newer than the
one it was scheduled for.
-/

namespace Mekhan

open Infra

/-- The timer fires at the moment, or has been published. -/
def TimerTask.InWindow (t : TimerTask) : Prop := t.state = .firing ∨ t.state = .published

namespace Clockmaster

/-- A step is pending that will see the entry: the listing, the read of a listed key, or the
delivery of the update. -/
def Visible (s : Clockmaster) (key : String) (entry : TimerEntry) : Prop :=
  match s.phase with
  | .starting => True
  | .listing remaining => key ∈ remaining
  | .watching => .put key entry ∈ s.updates

/-- Every timer in the bucket has been handed over or is visible to a pending step. -/
def NoneLost (s : Clockmaster) : Prop :=
  ∀ key entry, s.bucket.lookup key = some entry →
    (key, entry) ∈ s.handed ∨ s.Visible key entry

/-- No task has deleted an entry newer than its own that was not executed. -/
def NoneDisplaced (s : Clockmaster) : Prop :=
  ∀ d ∈ s.deletions, d.own.revision < d.removed.revision → (d.key, d.removed) ∈ s.executed

/-- No timer is lost, and none is deleted in place of an older one. -/
def TimersKept (s : Clockmaster) : Prop := s.NoneLost ∧ s.NoneDisplaced

/-- What the bucket has to be spared: a put that neither the listing nor the watch sees, a listed
entry that cannot be read, a put under a key that a task is about to delete, and a task that takes
another entry of the same expiry for its own. -/
def Undisturbed (s : Clockmaster) : ClockAction → Prop
  | .schedule request _ =>
    (∀ remaining, s.phase = .listing remaining → request.key ∈ remaining) ∧
      ∀ task ∈ s.tasks, task.key = request.key → ¬ task.InWindow
  | .hydrateFails => ∀ key rest, s.phase = .listing (key :: rest) → s.bucket.lookup key = none
  | .fire t => ∀ task ∈ s.tasks[t]?, ∀ entry ∈ s.bucket.lookup task.key,
      entry.value.expiresAtMs = task.entry.value.expiresAtMs → entry = task.entry
  | _ => True

/-! ## The invariant -/

/-- What a task in its window would delete is its own entry. -/
def TaskInv (s : Clockmaster) (task : TimerTask) : Prop :=
  task.InWindow → ∀ entry, s.bucket.lookup task.key = some entry → entry = task.entry

/-- Each task and its entry in the store fit together. -/
structure Inv (s : Clockmaster) : Prop where
  noneLost : s.NoneLost
  tasks : ∀ task ∈ s.tasks, s.TaskInv task
  deletions : ∀ d ∈ s.deletions, d.removed = d.own

variable {s s' : Clockmaster}

theorem Inv.timersKept (h : s.Inv) : s.TimersKept :=
  ⟨h.noneLost, fun d hd hlt => absurd hlt (by rw [h.deletions d hd]; exact Nat.lt_irrefl _)⟩

theorem inv_empty : empty.Inv where
  noneLost _ _ h := absurd h (by simp [empty])
  tasks _ h := absurd h (by simp [empty])
  deletions _ h := absurd h (by simp [empty])

/-! ## What the operations leave alone -/

/-- Everything the invariant reads except the tasks. -/
structure SameBucket (s s' : Clockmaster) : Prop where
  bucket : s'.bucket = s.bucket
  phase : s'.phase = s.phase
  updates : s'.updates = s.updates
  deletions : s'.deletions = s.deletions

theorem SameBucket.visible (h : SameBucket s s') {key : String} {entry : TimerEntry} :
    s'.Visible key entry ↔ s.Visible key entry := by
  rw [Visible, Visible, h.phase, h.updates]

theorem SameBucket.taskInv (h : SameBucket s s') {task : TimerTask} : s'.TaskInv task ↔ s.TaskInv task := by
  rw [TaskInv, TaskInv, h.bucket]

theorem Inv.congr (h : s.Inv) (hs : SameBucket s s') (hhanded : s.handed ⊆ s'.handed)
    (htasks : ∀ task ∈ s'.tasks, s.TaskInv task) : s'.Inv where
  noneLost key entry hlook := by
    rw [hs.bucket] at hlook
    rcases h.noneLost key entry hlook with hh | hv
    · exact Or.inl (hhanded hh)
    · exact Or.inr (hs.visible.mpr hv)
  tasks task ht := hs.taskInv.mpr (htasks task ht)
  deletions d hd := h.deletions d (hs.deletions ▸ hd)

theorem sameBucket_setTask (s : Clockmaster) (t : Nat) (task : TimerTask) :
    SameBucket s (s.setTask t task) := ⟨rfl, rfl, rfl, rfl⟩

theorem Inv.setTask (h : s.Inv) {t : Nat} {task : TimerTask} (htask : s.TaskInv task) :
    (s.setTask t task).Inv := by
  refine h.congr (sameBucket_setTask s t task) (fun _ hx => hx) fun other hother => ?_
  rcases List.mem_or_eq_of_mem_set hother with hold | rfl
  · exact h.tasks other hold
  · exact htask

theorem taskInv_of_not_inWindow {task : TimerTask} (h : ¬ task.InWindow) : s.TaskInv task :=
  fun hin => absurd hin h

theorem inv_abort (h : s.Inv) (t : Nat) : (s.abort t).Inv := by
  unfold abort
  cases hget : s.tasks[t]? with
  | none => exact h
  | some task => exact h.setTask (h.tasks task (List.mem_of_getElem? hget))

theorem sameBucket_abort (s : Clockmaster) (t : Nat) :
    SameBucket s (s.abort t) ∧ (s.abort t).handed = s.handed := by
  unfold abort
  cases s.tasks[t]? with
  | none => exact ⟨⟨rfl, rfl, rfl, rfl⟩, rfl⟩
  | some task => exact ⟨sameBucket_setTask s t _, rfl⟩

theorem inv_abortTracked (h : s.Inv) (key : String) : (s.abortTracked key).Inv := by
  unfold abortTracked
  cases s.timers.lookup key with
  | none => exact h
  | some prev =>
    have huntracked : { s with timers := s.timers.erase key }.Inv :=
      ⟨h.noneLost, h.tasks, h.deletions⟩
    exact inv_abort huntracked prev

theorem sameBucket_abortTracked (s : Clockmaster) (key : String) :
    SameBucket s (s.abortTracked key) ∧ (s.abortTracked key).handed = s.handed := by
  unfold abortTracked
  cases s.timers.lookup key with
  | none => exact ⟨⟨rfl, rfl, rfl, rfl⟩, rfl⟩
  | some prev =>
    obtain ⟨hs, hh⟩ := sameBucket_abort { s with timers := s.timers.erase key } prev
    exact ⟨⟨hs.bucket, hs.phase, hs.updates, hs.deletions⟩, hh⟩

theorem inv_scheduleTimerExecution (h : s.Inv) (key : String) (entry : TimerEntry) :
    (s.scheduleTimerExecution key entry).Inv := by
  refine (inv_abortTracked h key).congr ⟨rfl, rfl, rfl, rfl⟩ (List.subset_append_left ..) ?_
  intro task htask
  rcases List.mem_append.mp htask with hold | hnew
  · exact (inv_abortTracked h key).tasks task hold
  · rw [List.mem_singleton.mp hnew]
    exact taskInv_of_not_inWindow (by simp [TimerTask.InWindow])

theorem sameBucket_scheduleTimerExecution (s : Clockmaster) (key : String) (entry : TimerEntry) :
    SameBucket s (s.scheduleTimerExecution key entry) ∧
      (s.scheduleTimerExecution key entry).handed = s.handed ++ [(key, entry)] := by
  obtain ⟨hs, hh⟩ := sameBucket_abortTracked s key
  exact ⟨⟨hs.bucket, hs.phase, hs.updates, hs.deletions⟩, by rw [← hh]; rfl⟩

/-! ## The bucket changes -/

theorem notify_frame (s : Clockmaster) (u : BucketUpdate) :
    (s.notify u).bucket = s.bucket ∧ (s.notify u).handed = s.handed ∧ (s.notify u).tasks = s.tasks ∧
      (s.notify u).deletions = s.deletions ∧ (s.notify u).phase = s.phase := by
  unfold notify
  split <;> exact ⟨rfl, rfl, rfl, rfl, rfl⟩

variable {key : String} {entry : TimerEntry}

theorem visible_notify {u : BucketUpdate} (h : s.Visible key entry) : (s.notify u).Visible key entry := by
  unfold notify
  split
  · next hwatch =>
    unfold Visible at h ⊢
    rw [hwatch] at h
    simp only [hwatch]
    exact List.mem_append_left _ h
  · exact h

theorem visible_notify_put (h : ∀ remaining, s.phase = .listing remaining → key ∈ remaining) :
    (s.notify (.put key entry)).Visible key entry := by
  unfold notify
  cases hphase : s.phase with
  | starting => simp [Visible, hphase]
  | listing remaining => simpa [Visible, hphase] using h remaining hphase
  | watching => simp [Visible]

theorem inv_put (h : s.Inv) {key : String} (value : TimerValue)
    (hseen : ∀ remaining, s.phase = .listing remaining → key ∈ remaining)
    (hwindow : ∀ task ∈ s.tasks, task.key = key → ¬ task.InWindow) : (s.put key value).Inv := by
  obtain ⟨hbucket, hhanded, htasks, hdeletions, -⟩ := notify_frame
    { s with bucket := s.bucket.insert key ⟨s.nextRevision, value⟩, nextRevision := s.nextRevision + 1 }
    (.put key ⟨s.nextRevision, value⟩)
  constructor
  · intro other entry hlook
    rw [put, hbucket] at hlook
    by_cases hkey : other = key
    · subst hkey
      rw [Finmap.lookup_insert] at hlook
      cases hlook
      exact Or.inr (visible_notify_put hseen)
    · rw [Finmap.lookup_insert_of_ne _ hkey] at hlook
      rcases h.noneLost other entry hlook with hh | hv
      · exact Or.inl (by rw [put, hhanded]; exact hh)
      · exact Or.inr (visible_notify hv)
  · intro task htask hin entry hlook
    rw [put, htasks] at htask
    have hkey : task.key ≠ key := fun hk => hwindow task htask hk hin
    rw [put, hbucket, Finmap.lookup_insert_of_ne _ hkey] at hlook
    exact h.tasks task htask hin entry hlook
  · intro d hd
    rw [put, hdeletions] at hd
    exact h.deletions d hd

theorem lookup_erase_some {other : String}
    (h : (s.bucket.erase key).lookup other = some entry) : s.bucket.lookup other = some entry := by
  by_cases hkey : other = key
  · subst hkey
    rw [Finmap.lookup_erase] at h
    cases h
  · rwa [Finmap.lookup_erase_ne hkey] at h

theorem inv_remove (h : s.Inv) (key : String) : (s.remove key).Inv := by
  obtain ⟨hbucket, hhanded, htasks, hdeletions, -⟩ := notify_frame
    { s with bucket := s.bucket.erase key } (.delete key)
  constructor
  · intro other entry hlook
    rw [remove, hbucket] at hlook
    rcases h.noneLost other entry (lookup_erase_some hlook) with hh | hv
    · exact Or.inl (by rw [remove, hhanded]; exact hh)
    · exact Or.inr (visible_notify hv)
  · intro task htask hin entry hlook
    rw [remove, htasks] at htask
    rw [remove, hbucket] at hlook
    exact h.tasks task htask hin entry (lookup_erase_some hlook)
  · intro d hd
    rw [remove, hdeletions] at hd
    exact h.deletions d hd

theorem inv_deleteKey (h : s.Inv) {task : TimerTask} (htask : s.TaskInv task)
    (hin : task.InWindow) : (s.deleteKey task).Inv := by
  unfold deleteKey
  cases hlook : s.bucket.lookup task.key with
  | none => exact inv_remove h task.key
  | some entry =>
    have hlogged : { s with
        deletions := s.deletions ++ [TimerDeletion.mk task.key task.entry entry] }.Inv := by
      refine ⟨h.noneLost, h.tasks, fun d hd => ?_⟩
      rcases List.mem_append.mp hd with hold | hnew
      · exact h.deletions d hold
      · rw [List.mem_singleton.mp hnew]
        exact htask hin entry hlook
    exact inv_remove hlogged task.key

/-! ## Start-up and watch -/

theorem inv_list (h : s.Inv) {keys : List String} (hkeys : keys.toFinset = s.bucket.keys) :
    { s with phase := .listing keys }.Inv := by
  refine ⟨fun key entry hlook => Or.inr ?_, h.tasks, h.deletions⟩
  have hmem : key ∈ s.bucket.keys := Finmap.mem_keys.mpr (Finmap.mem_of_lookup_eq_some hlook)
  exact List.mem_toFinset.mp (hkeys ▸ hmem)

theorem inv_listing_tail (h : s.Inv) {key : String} {rest : List String}
    (hphase : s.phase = .listing (key :: rest))
    (hdone : ∀ entry, s.bucket.lookup key = some entry → (key, entry) ∈ s.handed) :
    { s with phase := .listing rest }.Inv := by
  refine ⟨fun other entry hlook => ?_, h.tasks, h.deletions⟩
  rcases h.noneLost other entry hlook with hh | hv
  · exact Or.inl hh
  · simp only [Visible, hphase] at hv
    rcases List.mem_cons.mp hv with rfl | hrest
    · exact Or.inl (hdone entry hlook)
    · exact Or.inr hrest

theorem inv_hydrateKey (h : s.Inv) {key : String} {rest : List String}
    (hphase : s.phase = .listing (key :: rest)) : { s.hydrateKey key with phase := .listing rest }.Inv := by
  unfold hydrateKey
  cases hlook : s.bucket.lookup key with
  | none =>
    refine inv_listing_tail h hphase fun entry hentry => ?_
    exact absurd (hlook.symm.trans hentry) (by simp)
  | some entry =>
    obtain ⟨hs, hh⟩ := sameBucket_scheduleTimerExecution s key entry
    refine inv_listing_tail (inv_scheduleTimerExecution h key entry) (hs.phase.trans hphase) ?_
    intro other hother
    rw [hs.bucket, hlook] at hother
    rw [hh, Option.some.inj hother]
    exact List.mem_append_right _ (List.mem_singleton_self _)

theorem inv_watchAll (h : s.Inv) (hphase : s.phase = .listing []) :
    { s with phase := .watching, updates := [] }.Inv := by
  refine ⟨fun key entry hlook => ?_, h.tasks, h.deletions⟩
  rcases h.noneLost key entry hlook with hh | hv
  · exact Or.inl hh
  · simp only [Visible, hphase] at hv
    cases hv

theorem inv_updates_tail (h : s.Inv) {u : BucketUpdate} {rest : List BucketUpdate}
    (hphase : s.phase = .watching) (hupdates : s.updates = u :: rest)
    (hdone : ∀ key entry, u = .put key entry → (key, entry) ∈ s.handed) : { s with updates := rest }.Inv := by
  refine ⟨fun key entry hlook => ?_, h.tasks, h.deletions⟩
  rcases h.noneLost key entry hlook with hh | hv
  · exact Or.inl hh
  · simp only [Visible, hphase, hupdates] at hv ⊢
    rcases List.mem_cons.mp hv with hu | hrest
    · exact Or.inl (hdone key entry hu.symm)
    · exact Or.inr hrest

theorem scheduleTimerExecution_updates (s : Clockmaster) (rest : List BucketUpdate) (key : String)
    (entry : TimerEntry) : { s with updates := rest }.scheduleTimerExecution key entry =
      { s.scheduleTimerExecution key entry with updates := rest } := by
  unfold scheduleTimerExecution abortTracked
  cases s.timers.lookup key with
  | none => rfl
  | some prev =>
    simp only [abort]
    cases s.tasks[prev]? <;> rfl

theorem inv_observe (h : s.Inv) {u : BucketUpdate} {rest : List BucketUpdate}
    (hphase : s.phase = .watching) (hupdates : s.updates = u :: rest) :
    ({ s with updates := rest }.handleUpdate u).Inv := by
  cases u with
  | put key entry =>
    obtain ⟨hs, hh⟩ := sameBucket_scheduleTimerExecution s key entry
    rw [handleUpdate, scheduleTimerExecution_updates]
    refine inv_updates_tail (inv_scheduleTimerExecution h key entry) (hs.phase.trans hphase)
      (hs.updates.trans hupdates) fun key' entry' hu => ?_
    cases hu
    rw [hh]
    exact List.mem_append_right _ (List.mem_singleton_self _)
  | delete key =>
    exact inv_abortTracked (inv_updates_tail h hphase hupdates fun _ _ hu => by cases hu) key

/-! ## One step -/

theorem taskInv_checkEntry {task : TimerTask} (hown : ∀ entry ∈ s.bucket.lookup task.key,
      entry.value.expiresAtMs = task.entry.value.expiresAtMs → entry = task.entry) :
    s.TaskInv { task with state := s.checkEntry task } := by
  intro hin entry hlook
  have hlook' : s.bucket.lookup task.key = some entry := hlook
  simp only [TimerTask.InWindow, checkEntry, hlook'] at hin
  split at hin
  · next hexpiry => exact hown entry hlook' hexpiry
  · exact absurd hin (by simp)

theorem inv_step {a : ClockAction} (h : s.Inv) (hun : s.Undisturbed a)
    (h' : s.step a = some s') : s'.Inv := by
  cases a with
  | schedule request nowMs =>
    cases h'
    exact inv_put h _ hun.1 hun.2
  | cancel key =>
    cases h'
    exact inv_remove h key
  | list keys =>
    simp only [step] at h'
    split at h'
    · next hlist =>
      cases h'
      exact inv_list h hlist.2
    · cases h'
  | hydrate =>
    simp only [step] at h'
    split at h'
    · next key rest hphase =>
      cases h'
      exact inv_hydrateKey h hphase
    · cases h'
  | hydrateFails =>
    simp only [step] at h'
    split at h'
    · next key rest hphase =>
      cases h'
      refine inv_listing_tail h hphase fun entry hentry => ?_
      exact absurd ((hun key rest hphase).symm.trans hentry) (by simp)
    · cases h'
  | watchAll =>
    simp only [step] at h'
    split at h'
    · next hphase =>
      cases h'
      exact inv_watchAll h hphase
    · cases h'
  | observe =>
    simp only [step] at h'
    split at h'
    · next u rest hphase hupdates =>
      cases h'
      exact inv_observe h hphase hupdates
    · cases h'
  | fire t =>
    simp only [step] at h'
    split at h'
    · next task hget =>
      split at h'
      · cases h'
        exact h.setTask (taskInv_checkEntry (hun task hget))
      · cases h'
    · cases h'
  | publish t =>
    simp only [step] at h'
    split at h'
    · next task hget =>
      split at h'
      · next hfiring =>
        cases h'
        have hlogged :
            { s with executed := s.executed ++ [(task.key, task.entry)] }.Inv :=
          ⟨h.noneLost, h.tasks, h.deletions⟩
        refine hlogged.setTask fun _ => ?_
        exact h.tasks task (List.mem_of_getElem? hget) (Or.inl hfiring)
      · cases h'
    · cases h'
  | delete t =>
    simp only [step] at h'
    split at h'
    · next task hget =>
      split at h'
      · next hpublished =>
        cases h'
        have htask := h.tasks task (List.mem_of_getElem? hget)
        refine (inv_deleteKey h htask (Or.inr hpublished)).setTask ?_
        exact taskInv_of_not_inWindow (by simp [TimerTask.InWindow])
      · cases h'
    · cases h'
  | stop t =>
    simp only [step] at h'
    split at h'
    · cases h'
      exact h.setTask (taskInv_of_not_inWindow (by simp [TimerTask.InWindow]))
    · cases h'
  | restart =>
    cases h'
    exact ⟨fun _ _ _ => Or.inr trivial, by simp, h.deletions⟩

end Clockmaster

open Clockmaster

def reminder : TimerScheduleRequest := ⟨"net", "due", 1, 10, .null, "default"⟩

/-- A timer found at start-up, up to its execution. -/
def hydratedReminder : List ClockAction :=
  [.schedule reminder 0, .list [reminder.key], .hydrate, .watchAll, .fire 0, .publish 0, .delete 0,
    .observe]

theorem hydratedReminder_undisturbed : Along step Undisturbed Clockmaster.empty hydratedReminder := by
  refine along_cons ⟨fun remaining h => ?_, fun task h => ?_⟩ rfl (along_cons trivial rfl
    (along_cons trivial rfl (along_cons trivial rfl (along_cons (fun task ht entry he _ => ?_) rfl
    (along_cons trivial rfl (along_cons trivial rfl (along_cons trivial rfl trivial)))))))
  · exact absurd h (by simp [Clockmaster.empty])
  · exact absurd h (by simp [Clockmaster.empty])
  · cases ht
    exact (Option.some.inj he).symm

end Mekhan
