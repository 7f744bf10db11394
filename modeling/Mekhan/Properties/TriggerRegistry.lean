import Mekhan.Infra.Runs
import Mekhan.Triggers.Model

/-!
# The registry and the published triggers

The registry is meant to have the triggers of the template versions that were registered and not
forgotten since. It is keyed by node id alone, and a fork or a new version has the node ids of the graph
that it was copied from: registering it takes the place of the other's records, and forgetting it then
leaves neither.
-/

namespace Mekhan

namespace TriggerRegistry

open Infra Triggers

inductive RegistryOp where
  | register (template : WorkflowTemplate) (doBackfill : Bool)
  | forget (templateId : Nat)

/-- The registry, and the template versions whose latest operation was a registration. -/
structure RegistryState where
  registry : Registry
  published : List WorkflowTemplate

def sameVersion (t t' : WorkflowTemplate) : Bool := t'.id = t.id && t'.version = t.version

def initial : RegistryState := ⟨.empty, []⟩

def step (s : RegistryState) : RegistryOp → Option RegistryState
  | .register t doBackfill => some ⟨(registerTemplate s.registry t doBackfill).registry,
      s.published.filter (fun t' => !sameVersion t t') ++ [t]⟩
  | .forget templateId => some ⟨forgetTemplate s.registry templateId,
      s.published.filter fun t' => t'.id ≠ templateId⟩

/-- The records of the registrable trigger nodes of a template. -/
def triggersOf (t : WorkflowTemplate) : List TriggerRecord :=
  match t.graph with
  | none => []
  | some graph => graph.nodes.filterMap (triggerRecord t graph)

/-- The registry is the published triggers: one record for each, and no other. -/
def Exact (s : RegistryState) : Prop := s.registry.toList.Perm (s.published.flatMap triggersOf)

/-- What a registration has to meet: the node ids of its triggers are distinct, and none is a trigger of
another registered version; or, where the graph does not parse, nothing of the version is registered. -/
def Registrable (s : RegistryState) : RegistryOp → Prop
  | .register t _ =>
    match t.graph with
    | some _ => ((triggersOf t).map (·.nodeId)).Nodup ∧
        ∀ t' ∈ s.published, sameVersion t t' = false →
          ∀ rec' ∈ triggersOf t', rec'.nodeId ∉ (triggersOf t).map (·.nodeId)
    | none => ∀ t' ∈ s.published, sameVersion t t' = true → triggersOf t' = []
  | .forget _ => True

/-! ## What the operations do -/

variable {t : WorkflowTemplate} {graph : WorkflowGraph} {doBackfill : Bool} {s s' : RegistryState}

variable {rec : TriggerRecord}

theorem triggerRecord_of {node : WorkflowNode} (h : triggerRecord t graph node = some rec) :
    rec.templateId = t.id ∧ rec.templateVersion = t.version ∧ rec.workspaceId = t.workspaceId ∧
      rec.nodeId = node.id := by
  unfold triggerRecord at h
  split at h
  case h_1 =>
    cases h
    exact ⟨rfl, rfl, rfl, rfl⟩
  case h_2 =>
    obtain ⟨⟨_, edge⟩, -, h⟩ := Option.bind_eq_some_iff.mp h
    obtain ⟨target, -, h⟩ := Option.bind_eq_some_iff.mp h
    cases h
    exact ⟨rfl, rfl, rfl, rfl⟩
  case h_3 => cases h

theorem mem_triggersOf (h : rec ∈ triggersOf t) :
    rec.templateId = t.id ∧ rec.templateVersion = t.version := by
  unfold triggersOf at h
  split at h
  case h_1 => cases h
  case h_2 graph _ =>
    obtain ⟨node, -, hrec⟩ := List.mem_filterMap.mp h
    exact ⟨(triggerRecord_of hrec).1, (triggerRecord_of hrec).2.1⟩

theorem registry_registerTemplate {registry : Registry} (hgraph : t.graph = some graph) :
    (registerTemplate registry t doBackfill).registry =
      (registry.retain fun rec => !rec.IsOf t.id t.version).insertAll (triggersOf t) := by
  unfold registerTemplate triggersOf
  rw [hgraph]
  dsimp only
  -- Node by node, from whatever is registered already.
  generalize hacc : Registered.mk (registry.retain fun rec => !rec.IsOf t.id t.version) 0 [] = acc
  rw [show (registry.retain fun rec => !rec.IsOf t.id t.version) = acc.registry from congrArg (·.registry) hacc]
  clear hacc
  generalize graph.nodes = nodes
  induction nodes generalizing acc with
  | nil => rfl
  | cons node nodes ih =>
    rw [List.foldl_cons, ih]
    cases hrec : triggerRecord t graph node with
    | none => rw [List.filterMap_cons_none hrec]
    | some rec => rw [List.filterMap_cons_some hrec]; rfl

theorem filter_flatMap_triggersOf {p : TriggerRecord → Bool} {q : WorkflowTemplate → Bool}
    (h : ∀ t, ∀ rec ∈ triggersOf t, p rec = q t) (published : List WorkflowTemplate) :
    (published.flatMap triggersOf).filter p = (published.filter q).flatMap triggersOf := by
  induction published with
  | nil => rfl
  | cons t published ih =>
    rw [List.flatMap_cons, List.filter_append, ih, List.filter_cons]
    cases hq : q t with
    | true =>
      rw [List.filter_eq_self.mpr fun rec hrec => (h t rec hrec).trans hq]
      rfl
    | false =>
      rw [List.filter_eq_nil_iff.mpr fun rec hrec => by rw [h t rec hrec, hq]; decide]
      rfl

theorem isOf_triggersOf (t : WorkflowTemplate) : ∀ t', ∀ rec ∈ triggersOf t',
    (!rec.IsOf t.id t.version) = !sameVersion t t' := by
  intro t' rec hrec
  obtain ⟨hid, hversion⟩ := mem_triggersOf hrec
  unfold TriggerRecord.IsOf sameVersion
  rw [hid, hversion]

/-! ## When the registry is exact -/

theorem nodup_append_keys {old new : List TriggerRecord} (hold : (old.map (·.nodeId)).Nodup) :
    ((old ++ new).map (·.nodeId)).Nodup ↔ (new.map (·.nodeId)).Nodup ∧
      ∀ rec ∈ old, rec.nodeId ∉ new.map (·.nodeId) := by
  rw [List.map_append, List.nodup_append]
  constructor
  · rintro ⟨-, hnew, hdisjoint⟩
    exact ⟨hnew, fun rec hrec hmem => hdisjoint _ (List.mem_map_of_mem hrec) _ hmem rfl⟩
  · rintro ⟨hnew, hdisjoint⟩
    refine ⟨hold, hnew, ?_⟩
    intro k hk k' hk' heq
    obtain ⟨rec, hrec, rfl⟩ := List.mem_map.mp hk
    exact hdisjoint rec hrec (heq ▸ hk')

theorem exact_register_iff (h : Exact s) (hgraph : t.graph = some graph)
    (hs : step s (.register t doBackfill) = some s') : Exact s' ↔ ((triggersOf t).map (·.nodeId)).Nodup ∧
      ∀ t' ∈ s.published, sameVersion t t' = false →
        ∀ rec' ∈ triggersOf t', rec'.nodeId ∉ (triggersOf t).map (·.nodeId) := by
  cases hs
  have hkept : (s.registry.retain fun rec => !rec.IsOf t.id t.version).toList.Perm
      ((s.published.filter fun t' => !sameVersion t t').flatMap triggersOf) := by
    rw [← filter_flatMap_triggersOf (isOf_triggersOf t)]
    exact h.filter _
  unfold Exact
  rw [registry_registerTemplate hgraph, List.flatMap_append, List.flatMap_singleton,
    KeyedList.insertAll_perm_iff hkept, nodup_append_keys (KeyedList.fresh_of_perm hkept)]
  simp only [List.mem_flatMap, List.mem_filter, Bool.not_eq_true', and_congr_right_iff]
  intro _
  constructor
  · exact fun hall t' ht' hsame rec' hrec' => hall rec' ⟨t', ⟨ht', hsame⟩, hrec'⟩
  · rintro hall rec' ⟨t', ⟨ht', hsame⟩, hrec'⟩
    exact hall t' ht' hsame rec' hrec'

theorem exact_unparsed_iff
    (h : Exact s) (hgraph : t.graph = none) (hs : step s (.register t doBackfill) = some s') :
    Exact s' ↔ ∀ t' ∈ s.published, sameVersion t t' = true → triggersOf t' = [] := by
  cases hs
  have hnew : triggersOf t = [] := by
    unfold triggersOf
    rw [hgraph]
  have hreg : (registerTemplate s.registry t doBackfill).registry = s.registry := by
    unfold registerTemplate
    rw [hgraph]
  have hsplit : (s.published.flatMap triggersOf).Perm
      ((s.published.filter fun t' => !sameVersion t t').flatMap triggersOf ++
        (s.published.filter fun t' => sameVersion t t').flatMap triggersOf) := by
    rw [← List.flatMap_append]
    refine List.Perm.flatMap_right _ ?_
    have hfilter := List.filter_append_perm (fun t' => !sameVersion t t') s.published
    simpa only [Bool.not_not] using hfilter.symm
  unfold Exact
  rw [hreg, List.flatMap_append, List.flatMap_singleton, hnew, List.append_nil]
  constructor
  · intro hexact t' ht' hsame
    have hlength := ((hexact.symm.trans h).trans hsplit).length_eq
    rw [List.length_append] at hlength
    have hnil : (s.published.filter fun t' => sameVersion t t').flatMap triggersOf = [] :=
      List.eq_nil_of_length_eq_zero (by omega)
    exact List.flatMap_eq_nil_iff.mp hnil t' (List.mem_filter.mpr ⟨ht', hsame⟩)
  · intro hnone
    have hnil : (s.published.filter fun t' => sameVersion t t').flatMap triggersOf = [] :=
      List.flatMap_eq_nil_iff.mpr fun t' ht' =>
        hnone t' (List.mem_filter.mp ht').1 (List.mem_filter.mp ht').2
    rw [hnil, List.append_nil] at hsplit
    exact h.trans hsplit

theorem exact_forget {templateId : Nat} (h : Exact s)
    (hs : step s (.forget templateId) = some s') : Exact s' := by
  cases hs
  unfold Exact
  rw [← filter_flatMap_triggersOf (p := fun rec => rec.templateId ≠ templateId)]
  · exact h.filter _
  · intro t rec hrec
    rw [(mem_triggersOf hrec).1]

theorem exact_step_iff (s : RegistryState) (op : RegistryOp) (h : Exact s) :
    (∀ s', step s op = some s' → Exact s') ↔ Registrable s op := by
  cases op with
  | forget templateId => exact iff_of_true (fun s' hs => exact_forget h hs) trivial
  | register t doBackfill =>
    unfold Registrable
    cases hgraph : t.graph with
    | some graph =>
      simp only [hgraph]
      constructor
      · exact fun hall => (exact_register_iff h hgraph rfl).mp (hall _ rfl)
      · exact fun hcond s' hs => (exact_register_iff h hgraph hs).mpr hcond
    | none =>
      simp only [hgraph]
      constructor
      · exact fun hall => (exact_unparsed_iff h hgraph rfl).mp (hall _ rfl)
      · exact fun hcond s' hs => (exact_unparsed_iff h hgraph hs).mpr hcond

/-- **The registry is the published triggers throughout a run exactly when no registration brings a node
id that is another's.** -/
theorem registry_exact_iff (ops : List RegistryOp) :
    Throughout step Exact initial ops ↔ Along step Registrable initial ops :=
  throughout_iff_along exact_step_iff List.Perm.nil

/-! ## A fork -/

def scheduled (id workspaceId : Nat) : WorkflowTemplate where
  id
  version := 1
  workspaceId
  graph := some ⟨[⟨"start", .start⟩, ⟨"every", .trigger (.cron ⟨"0 0 * * * *", "UTC", 0, .skipMissed⟩) true [] none⟩],
    [⟨"every", "start", some "in"⟩]⟩

/-- A template is registered, then its fork in another workspace, then the fork is deleted: the schedule
of the first is the fork's, and then it is gone. -/
theorem fork_takes_schedule : ¬ Throughout step Exact initial
    [.register (scheduled 1 1) true, .register (scheduled 2 2) true, .forget 2] := by
  rintro ⟨-, h⟩
  obtain ⟨-, h⟩ := h _ rfl
  exact absurd (List.Perm.length_eq (h _ rfl).head) (by decide)

end TriggerRegistry

end Mekhan
