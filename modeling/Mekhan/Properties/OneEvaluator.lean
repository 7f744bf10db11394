import Mekhan.Api.NetRegistry

/-!
# One live evaluator for a net

`hibernate` takes an instance out of the map before it cancels the loop, and a loop finishes the pass it is
in. Meanwhile `get_or_create` builds another instance from the log, whose loop sees the same tokens.
-/

namespace Mekhan

namespace NetRegistry

open Infra

/-! ## The properties -/

/-- Firings of two instances consume no token in common. -/
def Exclusive (log : List Event) : Prop :=
  ∀ e ∈ log, ∀ e' ∈ log, ∀ i j, e.firedBy = some i → e'.firedBy = some j → i ≠ j →
    Disjoint e.consumed e'.consumed

/-- The snapshot and the log after its stream sequence project to what the whole log does. -/
def Coherent (s : State) : Prop :=
  ∀ snapshot, s.snapshot = some snapshot →
    project snapshot.marking (s.log.drop snapshot.lastStreamSeq) = project ∅ s.log

/-- Where the step appends a firing, every firing of another instance was in the marking it was selected at. -/
def upToDate (s : State) : Act → Bool
  | .append i _ => s.instances[i]?.all fun inst =>
    match inst.loop with
    | .selected read _ => (s.log.drop read).all fun e => e.firedBy.all (· == i)
    | _ => true
  | _ => true

abbrev UpToDate (s : State) (a : Act) : Prop := upToDate s a = true

variable {consumed produced : Finset TokenId} {a : Act}

theorem firedBy_of_upToDate {s : State} {i read : Nat} {inst : Instance}
    (h : UpToDate s (.append i produced)) (hget : s.instances[i]? = some inst)
    (hloop : inst.loop = .selected read consumed) : ∀ e ∈ s.log.drop read, ∀ j, e.firedBy = some j → j = i := by
  intro e he j hj
  simp only [UpToDate, upToDate, hget, Option.all_some, hloop, List.all_eq_true] at h
  have := h e he
  rw [hj] at this
  simpa using this

/-! ## Projections of a prefix -/

variable {log : List Event} {e : Event} {t : TokenId} {k r : Nat}

theorem mem_producedIn : t ∈ producedIn log ↔ ∃ e ∈ log, t ∈ e.produced := by
  induction log with
  | nil => simp [producedIn]
  | cons e log ih =>
    show t ∈ e.produced ∪ producedIn log ↔ _
    rw [Finset.mem_union, ih]
    simp

theorem project_take_succ (h : log[r]? = some e) :
    project ∅ (log.take (r + 1)) = apply (project ∅ (log.take r)) e := by
  rw [List.take_add_one, h, project, List.foldl_append]
  rfl

theorem mem_apply {m : Marking} : t ∈ apply m e ↔ (t ∈ m ∧ t ∉ e.consumed) ∨ t ∈ e.produced := by
  rw [apply, Finset.mem_union, Finset.mem_sdiff]

theorem project_subset_producedIn (log : List Event) : project ∅ log ⊆ producedIn log := by
  intro t ht
  induction log using List.reverseRecOn with
  | nil => cases ht
  | append_singleton log e ih =>
    rw [project, List.foldl_append] at ht
    rw [mem_producedIn]
    rcases mem_apply.mp ht with ⟨hm, _⟩ | hproduced
    · obtain ⟨e', he', hp⟩ := mem_producedIn.mp (ih hm)
      exact ⟨e', List.mem_append_left _ he', hp⟩
    · exact ⟨e, by simp, hproduced⟩

/-- What a log keeps: a firing consumes what was produced before, and nothing is produced twice. -/
structure WellFormed (log : List Event) : Prop where
  consumed : ∀ k e i, log[k]? = some e → e.firedBy = some i → e.consumed ⊆ producedIn (log.take k)
  produced : ∀ k e, log[k]? = some e → Disjoint e.produced (producedIn (log.take k))

theorem producedIn_take_mono (h : k ≤ r) (ht : t ∈ producedIn (log.take k)) : t ∈ producedIn (log.take r) := by
  obtain ⟨e, he, hp⟩ := mem_producedIn.mp ht
  exact mem_producedIn.mpr ⟨e, (List.take_subset_take_left log h) he, hp⟩

/-- **A token that a firing consumed is in no marking after it.** -/
theorem notMem_project_of_consumed (hlog : WellFormed log) {i : Nat} (hk : log[k]? = some e)
    (hfired : e.firedBy = some i) (ht : t ∈ e.consumed) (hkr : k < r) (hr : r ≤ log.length) :
    t ∉ project ∅ (log.take r) := by
  have hbefore := hlog.consumed k e i hk hfired ht
  induction r with
  | zero => omega
  | succ r ih =>
    obtain ⟨e', he'⟩ : ∃ e', log[r]? = some e' := ⟨_, List.getElem?_eq_getElem (by omega)⟩
    rw [project_take_succ he', mem_apply]
    have hnew : t ∉ e'.produced := fun hp =>
      Finset.disjoint_left.mp (hlog.produced r e' he') hp (producedIn_take_mono (by omega) hbefore)
    rintro (⟨hm, hkept⟩ | hp)
    · rcases Nat.lt_or_eq_of_le (Nat.le_of_lt_succ hkr) with hlt | rfl
      · exact ih hlt (by omega) hm
      · rw [hk] at he'
        cases he'
        exact hkept ht
    · exact hnew hp

theorem WellFormed.append (h : WellFormed log) (hproduced : Disjoint e.produced (producedIn log))
    (hconsumed : ∀ i, e.firedBy = some i → e.consumed ⊆ producedIn log) : WellFormed (log ++ [e]) := by
  have hsplit : ∀ k e', (log ++ [e])[k]? = some e' →
      (k < log.length ∧ log[k]? = some e' ∧ (log ++ [e]).take k = log.take k) ∨
        (e' = e ∧ (log ++ [e]).take k = log) := by
    intro k e' hk
    rcases Nat.lt_or_ge k log.length with hlt | hge
    · refine Or.inl ⟨hlt, ?_, List.take_append_of_le_length hlt.le⟩
      rwa [List.getElem?_append_left hlt] at hk
    · rw [List.getElem?_append_right hge, List.getElem?_singleton] at hk
      split at hk
      · next hzero =>
        cases hk
        exact Or.inr ⟨rfl, by rw [show k = log.length by omega, List.take_left]⟩
      · cases hk
  constructor
  · intro k e' i hk hfired
    rcases hsplit k e' hk with ⟨_, hk', htake⟩ | ⟨rfl, htake⟩
    · rw [htake]
      exact h.consumed k e' i hk' hfired
    · rw [htake]
      exact hconsumed i hfired
  · intro k e' hk
    rcases hsplit k e' hk with ⟨_, hk', htake⟩ | ⟨rfl, htake⟩
    · rw [htake]
      exact h.produced k e' hk'
    · rw [htake]
      exact hproduced

/-! ## The invariant -/

/-- A store holds the projection of the prefix that it has applied. -/
def HoldsPrefix (log : List Event) (store : Store) : Prop :=
  store.lastStreamSeq ≤ log.length ∧ store.marking = project ∅ (log.take store.lastStreamSeq)

/-- What holds of an instance: of its store, of what a hibernation captured, of what its loop selected. -/
structure InstanceOk (log : List Event) (inst : Instance) : Prop where
  store : HoldsPrefix log inst.store
  captured : ∀ snapshot, inst.hibernation = .captured snapshot → HoldsPrefix log snapshot
  selected : ∀ read consumed, inst.loop = .selected read consumed →
    read ≤ log.length ∧ consumed ⊆ project ∅ (log.take read)

/-- The log, the snapshot and each copy agree on what has happened. -/
structure Inv (s : State) : Prop where
  log : WellFormed s.log
  snapshot : ∀ snapshot, s.snapshot = some snapshot → HoldsPrefix s.log snapshot
  instances : ∀ inst ∈ s.instances, InstanceOk s.log inst

variable {s s' : State} {inst inst' : Instance} {i : Nat}

theorem HoldsPrefix.append {store : Store} (h : HoldsPrefix log store) (e : Event) :
    HoldsPrefix (log ++ [e]) store := by
  refine ⟨by rw [List.length_append]; exact Nat.le_add_right_of_le h.1, ?_⟩
  rw [List.take_append_of_le_length h.1]
  exact h.2

theorem InstanceOk.append (h : InstanceOk log inst) (e : Event) : InstanceOk (log ++ [e]) inst where
  store := h.store.append e
  captured snapshot hs := (h.captured snapshot hs).append e
  selected read consumed hl := by
    obtain ⟨hread, hconsumed⟩ := h.selected read consumed hl
    refine ⟨by rw [List.length_append]; exact Nat.le_add_right_of_le hread, ?_⟩
    rw [List.take_append_of_le_length hread]
    exact hconsumed

/-- The stage of the call changes, and what the token says; a hibernation captures at most the store. -/
theorem InstanceOk.stage (h : InstanceOk log inst) (hstore : inst'.store = inst.store)
    (hcaptured : ∀ snapshot, inst'.hibernation = .captured snapshot →
      inst.hibernation = .captured snapshot ∨ snapshot = inst.store)
    (hselected : ∀ read consumed, inst'.loop = .selected read consumed → inst.loop = .selected read consumed ∨
        read = inst.store.lastStreamSeq ∧ consumed ⊆ inst.store.marking) : InstanceOk log inst' where
  store := hstore ▸ h.store
  captured snapshot hs := by
    rcases hcaptured snapshot hs with hold | rfl
    · exact h.captured snapshot hold
    · exact h.store
  selected read consumed hl := by
    rcases hselected read consumed hl with hold | ⟨rfl, hconsumed⟩
    · exact h.selected read consumed hold
    · exact ⟨h.store.1, h.store.2 ▸ hconsumed⟩

theorem inv_start : Inv State.start where
  log := ⟨fun k e i h => by simp [State.start] at h, fun k e h => by simp [State.start] at h⟩
  snapshot _ h := by cases h
  instances _ h := by cases h

theorem Inv.setInstance (h : Inv s) (hok : InstanceOk s.log inst') (map : Option Nat) :
    Inv { s with map := map, instances := s.instances.set i inst' } where
  log := h.log
  snapshot := h.snapshot
  instances inst hmem := by
    rcases List.mem_or_eq_of_mem_set hmem with hold | rfl
    · exact h.instances inst hold
    · exact hok

theorem Inv.appended (h : Inv s) {e : Event} (hproduced : Disjoint e.produced (producedIn s.log))
    (hconsumed : ∀ i, e.firedBy = some i → e.consumed ⊆ producedIn s.log) :
    Inv { s with log := s.log ++ [e] } where
  log := h.log.append hproduced hconsumed
  snapshot snapshot hs := (h.snapshot snapshot hs).append e
  instances inst hmem := (h.instances inst hmem).append e

theorem update_eq_some {f : Instance → Option Instance} (h : s.update i f = some s') :
    ∃ inst inst', inst ∈ s.instances ∧ f inst = some inst' ∧
      s' = { s with instances := s.instances.set i inst' } := by
  obtain ⟨inst', hinst', rfl⟩ := Option.map_eq_some_iff.mp h
  obtain ⟨inst, hget, hf⟩ := Option.bind_eq_some_iff.mp hinst'
  exact ⟨inst, inst', List.mem_of_getElem? hget, hf, rfl⟩

theorem Inv.update (h : Inv s) {f : Instance → Option Instance}
    (hf : ∀ inst inst', InstanceOk s.log inst → f inst = some inst' → InstanceOk s.log inst')
    (hstep : s.update i f = some s') : Inv s' := by
  obtain ⟨inst, inst', hmem, hinst', rfl⟩ := update_eq_some hstep
  exact h.setInstance (hf inst inst' (h.instances inst hmem) hinst') s.map

/-! ## Steps -/

theorem seedStep_ok (h : Inv s) {usable : Bool} (hok : InstanceOk s.log inst)
    (hstep : seedStep s usable inst = some inst') : InstanceOk s.log inst' := by
  unfold seedStep at hstep
  split at hstep
  · cases hstep
    refine ⟨?_, hok.captured, hok.selected⟩
    cases usable with
    | false => exact hok.store
    | true =>
      cases hsnap : s.snapshot with
      | none => exact hok.store
      | some snapshot => exact h.snapshot snapshot hsnap
  · cases hstep

theorem consumeStep_ok (hok : InstanceOk s.log inst) (hstep : consumeStep s inst = some inst') :
    InstanceOk s.log inst' := by
  unfold consumeStep at hstep
  split at hstep
  · obtain ⟨e, he, rfl⟩ := Option.map_eq_some_iff.mp hstep
    refine ⟨⟨(List.getElem?_eq_some_iff.mp he).1, ?_⟩, hok.captured, hok.selected⟩
    rw [project_take_succ he, ← hok.store.2]
  · cases hstep

theorem captureStep_ok (hok : InstanceOk log inst) (hstep : captureStep inst = some inst') :
    InstanceOk log inst' := by
  unfold captureStep at hstep
  split at hstep
  · cases hstep
    refine hok.stage rfl (fun snapshot hs => ?_) fun read consumed hl => Or.inl hl
    cases hs
    exact Or.inr rfl
  · cases hstep

theorem selectStep_ok (hok : InstanceOk log inst)
    (hstep : selectStep consumed inst = some inst') : InstanceOk log inst' := by
  unfold selectStep at hstep
  split at hstep
  · next hcond =>
    cases hstep
    refine hok.stage rfl (fun snapshot hs => Or.inl hs) fun read consumed' hl => ?_
    cases hl
    exact Or.inr ⟨rfl, hcond.2⟩
  · cases hstep

theorem InstanceOk.phase {cond : Prop} [Decidable cond] (hok : InstanceOk log inst)
    (hstep : (if cond then some inst' else none) = some inst₁) (hstore : inst'.store = inst.store)
    (hcaptured : ∀ snapshot, inst'.hibernation = .captured snapshot → inst.hibernation = .captured snapshot)
    (hselected : ∀ read consumed, inst'.loop = .selected read consumed → inst.loop = .selected read consumed) :
    InstanceOk log inst₁ := by
  split at hstep
  · cases hstep
    exact hok.stage hstore (fun snapshot hs => Or.inl (hcaptured snapshot hs))
      fun read consumed hl => Or.inl (hselected read consumed hl)
  · cases hstep

theorem inv_step (h : Inv s) (hstep : step s a = some s') : Inv s' := by
  cases a with
  | build =>
    simp only [step] at hstep
    split at hstep
    · cases hstep
      refine ⟨h.log, h.snapshot, fun inst hmem => ?_⟩
      rcases List.mem_append.mp hmem with hold | hnew
      · exact h.instances inst hold
      · obtain rfl := List.mem_singleton.mp hnew
        exact ⟨⟨Nat.zero_le _, rfl⟩, fun _ hs => (by cases hs), fun _ _ hl => (by cases hl)⟩
    · cases hstep
  | seed i usable => exact h.update (fun _ _ hok => seedStep_ok h hok) hstep
  | startConsumer i =>
    refine h.update (fun inst inst' hok hs => ?_) hstep
    exact hok.phase hs rfl (fun _ h => h) fun _ _ h => h
  | consume i => exact h.update (fun _ _ hok => consumeStep_ok hok) hstep
  | hydrate i =>
    refine h.update (fun inst inst' hok hs => ?_) hstep
    unfold hydrateStep at hs
    split at hs
    · exact hok.phase hs rfl (fun _ h => h) fun _ _ h => h
    · cases hs
  | insert i =>
    simp only [step] at hstep
    split at hstep
    · cases hstep
    · next inst hget =>
      have hok := h.instances inst (List.mem_of_getElem? hget)
      split at hstep
      · split at hstep
        all_goals
          cases hstep
          refine h.setInstance ?_ _
          exact hok.stage rfl (fun _ h => Or.inl h) fun _ _ h => Or.inl h
      · cases hstep
  | remove =>
    simp only [step] at hstep
    split at hstep
    · cases hstep
    · obtain ⟨s₁, hs₁, rfl⟩ := Option.map_eq_some_iff.mp hstep
      obtain ⟨inst, inst', hmem, hinst', rfl⟩ := update_eq_some hs₁
      cases hinst'
      refine h.setInstance ?_ none
      exact (h.instances inst hmem).stage rfl (fun _ hs => by cases hs) fun _ _ hl => Or.inl hl
  | capture i => exact h.update (fun _ _ hok => captureStep_ok hok) hstep
  | put i ok =>
    simp only [step] at hstep
    split at hstep
    · next inst hget =>
      have hok := h.instances inst (List.mem_of_getElem? hget)
      split at hstep
      · next snapshot hcaptured =>
        cases hstep
        have hwritten : InstanceOk s.log { inst with hibernation := .written } :=
          hok.stage rfl (fun _ hs => by cases hs) fun _ _ hl => Or.inl hl
        refine ⟨h.log, fun snap hsnap => ?_, (h.setInstance hwritten s.map).instances⟩
        cases ok with
        | false => exact h.snapshot snap hsnap
        | true =>
          cases hsnap
          exact hok.captured _ hcaptured
      · cases hstep
    · cases hstep
  | cancel i =>
    refine h.update (fun inst inst' hok hs => ?_) hstep
    exact hok.phase hs rfl (fun _ h => by cases h) fun _ _ h => h
  | wake i =>
    refine h.update (fun inst inst' hok hs => ?_) hstep
    exact hok.phase hs rfl (fun _ h => h) fun _ _ h => by cases h
  | select i consumed => exact h.update (fun _ _ hok => selectStep_ok hok) hstep
  | append i produced =>
    simp only [step] at hstep
    split at hstep
    · next inst hget =>
      have hok := h.instances inst (List.mem_of_getElem? hget)
      split at hstep
      · next read consumed hloop =>
        split at hstep
        · next hfresh =>
          cases hstep
          obtain ⟨hread, hconsumed⟩ := hok.selected read consumed hloop
          have hproduced : consumed ⊆ producedIn s.log := by
            intro t ht
            have := project_subset_producedIn _ (hconsumed ht)
            have := producedIn_take_mono hread this
            rwa [List.take_length] at this
          have happended := h.appended (e := ⟨some i, consumed, produced⟩) hfresh fun _ _ => hproduced
          refine happended.setInstance ?_ s.map
          exact (hok.append _).stage rfl (fun _ hs => Or.inl hs) fun _ _ hl => by cases hl
        · cases hstep
      · cases hstep
    · cases hstep
  | quiesce i =>
    refine h.update (fun inst inst' hok hs => ?_) hstep
    exact hok.phase hs rfl (fun _ h => h) fun _ _ h => by cases h
  | stop i =>
    refine h.update (fun inst inst' hok hs => ?_) hstep
    exact hok.phase hs rfl (fun _ h => h) fun _ _ h => by cases h
  | external consumed produced =>
    simp only [step] at hstep
    split at hstep
    · next hfresh =>
      cases hstep
      exact h.appended hfresh fun i hi => by cases hi
    · cases hstep

/-! ## Runs -/

theorem coherent_of_inv (h : Inv s) : Coherent s := by
  intro snapshot hs
  obtain ⟨_, hmarking⟩ := h.snapshot snapshot hs
  rw [hmarking, project, project, project, ← List.foldl_append, List.take_append_drop]

/-- Appending a firing that was selected after every firing of another instance keeps firings apart. -/
theorem Exclusive.append (h : Exclusive s.log) (hinv : Inv s)
    (hread : r ≤ s.log.length) (hconsumed : consumed ⊆ project ∅ (s.log.take r))
    (hseen : ∀ e ∈ s.log.drop r, ∀ j, e.firedBy = some j → j = i) :
    Exclusive (s.log ++ [⟨some i, consumed, produced⟩]) := by
  -- what another instance consumed is not in the marking that was read
  have hnew : ∀ e ∈ s.log, ∀ j, e.firedBy = some j → j ≠ i → Disjoint e.consumed consumed := by
    intro e he j hfired hne
    obtain ⟨k, hk⟩ := List.mem_iff_getElem?.mp he
    have hkr : k < r := by
      by_contra hge
      refine hne (hseen e (List.mem_of_getElem? (i := k - r) ?_) j hfired)
      rw [List.getElem?_drop, show r + (k - r) = k by omega, hk]
    exact Finset.disjoint_left.mpr fun t ht ht' =>
      notMem_project_of_consumed hinv.log hk hfired ht hkr hread (hconsumed ht')
  intro e he e' he' j j' hj hj' hne
  rcases List.mem_append.mp he with hold | hlast
  · rcases List.mem_append.mp he' with hold' | hlast'
    · exact h e hold e' hold' j j' hj hj' hne
    · obtain rfl := List.mem_singleton.mp hlast'
      cases hj'
      exact hnew e hold j hj hne
  · obtain rfl := List.mem_singleton.mp hlast
    cases hj
    rcases List.mem_append.mp he' with hold' | hlast'
    · exact (hnew e' hold' j' hj' hne.symm).symm
    · obtain rfl := List.mem_singleton.mp hlast'
      exact absurd (Option.some.inj hj') hne

theorem exclusive_external (h : Exclusive log) : Exclusive (log ++ [⟨none, consumed, produced⟩]) := by
  have hold : ∀ e ∈ log ++ [⟨none, consumed, produced⟩], ∀ j, e.firedBy = some j → e ∈ log := by
    intro e he j hj
    rcases List.mem_append.mp he with hold | hlast
    · exact hold
    · obtain rfl := List.mem_singleton.mp hlast
      cases hj
  exact fun e he e' he' j j' hj hj' => h e (hold e he j hj) e' (hold e' he' j' hj') j j' hj hj'

theorem log_of_step (hstep : step s a = some s') : s'.log = s.log ∨
      (∃ consumed produced, s'.log = s.log ++ [⟨none, consumed, produced⟩]) ∨
      ∃ i inst read consumed produced, a = .append i produced ∧ s.instances[i]? = some inst ∧
        inst.loop = .selected read consumed ∧ s'.log = s.log ++ [⟨some i, consumed, produced⟩] := by
  have hupdate : ∀ {i f}, s.update i f = some s' → s'.log = s.log := by
    intro i f h
    obtain ⟨_, _, _, _, rfl⟩ := update_eq_some h
    rfl
  cases a with
  | build =>
    simp only [step] at hstep
    split at hstep
    · cases hstep
      exact Or.inl rfl
    · cases hstep
  | insert i =>
    simp only [step] at hstep
    repeat' split at hstep
    all_goals first
    | (obtain rfl := Option.some.inj hstep; exact Or.inl rfl)
    | cases hstep
  | remove =>
    simp only [step] at hstep
    split at hstep
    · cases hstep
    · obtain ⟨s₁, hs₁, rfl⟩ := Option.map_eq_some_iff.mp hstep
      obtain ⟨_, _, _, _, rfl⟩ := update_eq_some hs₁
      exact Or.inl rfl
  | put i ok =>
    simp only [step] at hstep
    repeat' split at hstep
    all_goals first
    | (obtain rfl := Option.some.inj hstep; exact Or.inl rfl)
    | cases hstep
  | append i produced =>
    simp only [step] at hstep
    split at hstep
    · next inst hget =>
      split at hstep
      · next read consumed hloop =>
        split at hstep
        · cases hstep
          exact Or.inr (Or.inr ⟨i, inst, read, consumed, produced, rfl, hget, hloop, rfl⟩)
        · cases hstep
      · cases hstep
    · cases hstep
  | external consumed produced =>
    simp only [step] at hstep
    split at hstep
    · cases hstep
      exact Or.inr (Or.inl ⟨consumed, produced, rfl⟩)
    · cases hstep
  | seed i usable => exact Or.inl (hupdate hstep)
  | startConsumer i => exact Or.inl (hupdate hstep)
  | consume i => exact Or.inl (hupdate hstep)
  | hydrate i => exact Or.inl (hupdate hstep)
  | capture i => exact Or.inl (hupdate hstep)
  | cancel i => exact Or.inl (hupdate hstep)
  | wake i => exact Or.inl (hupdate hstep)
  | select i consumed => exact Or.inl (hupdate hstep)
  | quiesce i => exact Or.inl (hupdate hstep)
  | stop i => exact Or.inl (hupdate hstep)

theorem exclusive_step (hinv : Inv s) (h : Exclusive s.log) (hseen : UpToDate s a)
    (hstep : step s a = some s') : Exclusive s'.log := by
  rcases log_of_step hstep with hlog | ⟨consumed, produced, hlog⟩ |
    ⟨i, inst, read, consumed, produced, rfl, hget, hloop, hlog⟩
  · rwa [hlog]
  · rw [hlog]
    exact exclusive_external h
  · rw [hlog]
    obtain ⟨hread, hconsumed⟩ := (hinv.instances inst (List.mem_of_getElem? hget)).selected read consumed hloop
    exact h.append hinv hread hconsumed (firedBy_of_upToDate hseen hget hloop)

/-- **The snapshot and the log after it give the marking of the whole log in every run; and firings of two
instances consume nothing in common in every run whose firings were selected after those of other instances.** -/
theorem one_evaluator (as : List Act) (hrun : exec step State.start as = some s) :
    Coherent s ∧ (Along step UpToDate State.start as → Exclusive s.log) := by
  refine ⟨coherent_of_inv (exec_invariant (fun _ _ _ => inv_step) inv_start hrun), fun hseen => ?_⟩
  have hall : Inv s ∧ Exclusive s.log := exec_invariant_along (I := fun s => Inv s ∧ Exclusive s.log)
    (fun s a s' h hcond hstep => ⟨inv_step h.1 hstep, exclusive_step h.1 h.2 hcond hstep⟩)
    ⟨inv_start, fun e he => by cases he⟩ hseen hrun
  exact hall.2

/-- **Every store and every snapshot holds the projection of a prefix of the log**, at every moment of a run. -/
theorem prefixes_throughout (as : List Act) : Throughout step Inv State.start as :=
  throughout_of_invariant (fun _ _ _ => inv_step) (fun _ h => h) as inv_start

/-! ## Two evaluators -/

/-- `get_or_create` of instance `i`, whose consumer replays `n` events. -/
def create (i n : Nat) : List Act :=
  [.build, .seed i true, .startConsumer i] ++ List.replicate n (.consume i) ++ [.hydrate i, .insert i]

/-- A token is created, an instance wakes for it and goes to sleep; while the snapshot is written, another
instance wakes. Both select the token. -/
def overlap : List Act :=
  [.external ∅ {1}] ++ create 0 1 ++ [.wake 0, .remove, .capture 0] ++ create 1 1 ++
    [.wake 1, .select 0 {1}, .select 1 {1}, .append 0 {2}, .append 1 {3}]

/-- **Firings of two instances consume the same token.** -/
theorem fired_twice : ∃ s, exec step State.start overlap = some s ∧ ¬ Exclusive s.log := by
  refine ⟨_, rfl, fun h => ?_⟩
  have := h ⟨some 0, {1}, {2}⟩ (by decide) ⟨some 1, {1}, {3}⟩ (by decide) 0 1 rfl rfl (by decide)
  exact absurd this (by decide)

/-- An instance that sleeps before another one wakes. -/
def handover : List Act :=
  [.external ∅ {1}] ++ create 0 1 ++ [.wake 0, .select 0 {1}, .append 0 {2}, .consume 0, .quiesce 0,
    .remove, .capture 0, .put 0 true, .cancel 0, .stop 0] ++ create 1 0 ++ [.wake 1, .select 1 {2}, .append 1 {3}]

theorem one_evaluator_handover : ∃ s, exec step State.start handover = some s ∧ Coherent s ∧ Exclusive s.log :=
  ⟨_, rfl, (one_evaluator handover rfl).1, (one_evaluator handover rfl).2 (by decide)⟩

end NetRegistry

end Mekhan
