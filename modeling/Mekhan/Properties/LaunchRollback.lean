import Mekhan.Petri.Launcher

/-!
# Launch is all or nothing

A failed launch deletes the row that it inserted, once, and never the net that it deployed. So a launch
whose second call of the engine fails leaves a stopped net, and one whose reply is lost a running one;
and a row stays where the insertion's reply is lost or the deletion fails.
-/

namespace Mekhan

namespace LaunchRollback

open Infra Petri

def HasRow (w : World) (spec : LaunchSpec) : Prop := ∃ row ∈ w.instances, row.id = spec.head.instanceId

/-- The engine has a net of that net id: it is running, or can be set running. -/
def HasNet (w : World) (spec : LaunchSpec) : Prop := ∃ net ∈ w.nets, net.netId = spec.head.netId

/-- Nothing has the instance's id or its net id yet. -/
structure Fresh (w : World) (spec : LaunchSpec) : Prop where
  row : ¬ HasRow w spec
  net : ¬ HasNet w spec

/-- A launch that returns an instance has left its row and a running net; one that fails has left
neither. -/
def AllOrNothing (spec : LaunchSpec) : World × Except LaunchError WorkflowInstance → Prop
  | (w, .ok row) => row ∈ w.instances ∧ row.id = spec.head.instanceId ∧ row.netId = spec.head.netId ∧
      ∃ net ∈ w.nets, net.netId = spec.head.netId ∧ net.runMode = .running
  | (w, .error _) => ¬ HasRow w spec ∧ ¬ HasNet w spec

/-- The insertion fails and does nothing; or it succeeds, and then the engine does both things that it is
asked, or refuses the scenario and the row is deleted. -/
def Clean (o : Replies) : Prop :=
  match o.insert, o.deploy, o.setRunMode, o.delete with
  | .fails _, _, _, _ => True
  | .succeeds, .succeeds, .succeeds, _ => True
  | .succeeds, .fails _, _, .fails _ => False
  | .succeeds, .fails _, _, _ => True
  | _, _, _, _ => False

/-! ## The effects -/

variable {w : World} {spec : LaunchSpec} {o : Replies}

theorem row_id (pins : Json) : (spec.row pins).id = spec.head.instanceId := by
  cases spec <;> rfl

theorem row_netId (pins : Json) : (spec.row pins).netId = spec.head.netId := by
  cases spec <;> rfl

theorem insertInstance_eq (hfresh : ¬ HasRow w spec) (pins : Json) :
    World.insertInstance (spec.row pins) w = .ok { w with instances := w.instances ++ [spec.row pins] } := by
  unfold World.insertInstance
  rw [if_neg]
  intro hany
  obtain ⟨row, hrow, hid⟩ := List.any_eq_true.mp hany
  exact hfresh ⟨row, hrow, (of_decide_eq_true hid).trans (row_id pins)⟩

theorem hasRow_inserted (pins : Json) : HasRow { w with instances := w.instances ++ [spec.row pins] } spec :=
  ⟨spec.row pins, List.mem_append_right _ (List.mem_singleton_self _), row_id pins⟩

theorem not_hasRow_deleted : ¬ HasRow { w with instances := w.instances.filter (·.id ≠ spec.head.instanceId) } spec := by
  rintro ⟨row, hrow, hid⟩
  exact absurd hid (of_decide_eq_true (List.mem_filter.mp hrow).2)

theorem setRunMode_deployed (net : DeployedNet) : ∃ w', World.setRunMode net.netId .running
      { w with nets := w.nets.filter (·.netId ≠ net.netId) ++ [{ net with runMode := .stopped }] } = .ok w' ∧
      w'.instances = w.instances ∧ ∃ net' ∈ w'.nets, net'.netId = net.netId ∧ net'.runMode = .running := by
  unfold World.setRunMode
  rw [if_pos]
  · refine ⟨_, rfl, rfl, { net with runMode := .running }, ?_, rfl, rfl⟩
    refine List.mem_map.mpr ⟨{ net with runMode := .stopped }, ?_, by simp⟩
    exact List.mem_append_right _ (List.mem_singleton_self _)
  · exact List.any_eq_true.mpr ⟨_, List.mem_append_right _ (List.mem_singleton_self _), by simp⟩

/-! ## What the engine is left with -/

theorem deployInstance_cases (o : Replies) (net : DeployedNet) (w : World) :
    (o.deploy = .succeeds ∧ o.setRunMode = .succeeds ∧
      ∃ w', deployInstance o net w = (w', .ok ()) ∧ w'.instances = w.instances ∧
        ∃ net' ∈ w'.nets, net'.netId = net.netId ∧ net'.runMode = .running) ∨
    (∃ e, o.deploy = .fails e ∧ deployInstance o net w = (w, .error e)) ∨
    ((∀ e, o.deploy ≠ .fails e) ∧ ¬ (o.deploy = .succeeds ∧ o.setRunMode = .succeeds) ∧
      ∃ w' e, deployInstance o net w = (w', .error e) ∧ w'.instances = w.instances ∧
        ∃ net' ∈ w'.nets, net'.netId = net.netId) := by
  have hdeployed : ∃ net' ∈ w.nets.filter (·.netId ≠ net.netId) ++ [{ net with runMode := .stopped }],
      net'.netId = net.netId := ⟨_, List.mem_append_right _ (List.mem_singleton_self _), rfl⟩
  obtain ⟨w', hrun, hrows, net', hnet', hid, hmode⟩ := setRunMode_deployed (w := w) net
  unfold deployInstance attempt World.deployScenario
  cases hdeploy : o.deploy with
  | fails e => exact .inr (.inl ⟨e, rfl, rfl⟩)
  | lost e => exact .inr (.inr ⟨nofun, nofun, _, e, rfl, rfl, hdeployed⟩)
  | succeeds =>
    dsimp only
    rw [hrun]
    cases hset : o.setRunMode with
    | succeeds => exact .inl ⟨rfl, rfl, w', rfl, hrows, net', hnet', hid, hmode⟩
    | fails e => exact .inr (.inr ⟨nofun, nofun, _, e, rfl, rfl, hdeployed⟩)
    | lost e => exact .inr (.inr ⟨nofun, nofun, w', e, rfl, hrows, net', hnet', hid⟩)

theorem delete_cases (o : Replies) (w : World) (spec : LaunchSpec) :
    (attempt o.delete (World.deleteInstance spec.head.instanceId) w).1.nets = w.nets ∧
      ((∃ e, o.delete = .fails e) ∧ (attempt o.delete (World.deleteInstance spec.head.instanceId) w).1 = w ∨
        (∀ e, o.delete ≠ .fails e) ∧ ¬ HasRow (attempt o.delete (World.deleteInstance spec.head.instanceId) w).1 spec) := by
  unfold attempt World.deleteInstance
  cases hdelete : o.delete with
  | fails e => exact ⟨rfl, .inl ⟨⟨e, rfl⟩, rfl⟩⟩
  | succeeds => exact ⟨rfl, .inr ⟨nofun, not_hasRow_deleted⟩⟩
  | lost e => exact ⟨rfl, .inr ⟨nofun, not_hasRow_deleted⟩⟩

theorem launch_inserted (hfresh : Fresh w spec) (parameterize : LaunchSpec → Except LaunchError Json)
    {air : Json} (hair : parameterize spec = .ok air) (hinsert : o.insert = .succeeds) :
    AllOrNothing spec (launch parameterize o spec w) ↔ (o.deploy = .succeeds ∧ o.setRunMode = .succeeds) ∨
      ((∃ e, o.deploy = .fails e) ∧ ∀ e, o.delete ≠ .fails e) := by
  have hattempt : attempt o.insert (World.insertInstance (spec.row (takeAssetPins air).1)) w =
      ({ w with instances := w.instances ++ [spec.row (takeAssetPins air).1] }, .ok ()) := by
    unfold attempt
    rw [insertInstance_eq hfresh.row, hinsert]
  unfold launch
  rw [hair]
  dsimp only
  rw [hattempt]
  dsimp only
  generalize hnet : (⟨spec.head.netId, (takeAssetPins air).2, spec.head.dispatchOptions, spec.head.netParameters,
    spec.head.workspaceId, .stopped⟩ : DeployedNet) = net
  have hid : net.netId = spec.head.netId := hnet ▸ rfl
  have hrow : HasRow { w with instances := w.instances ++ [spec.row (takeAssetPins air).1] } spec :=
    hasRow_inserted (takeAssetPins air).1
  generalize hw₁ : ({ w with instances := w.instances ++ [spec.row (takeAssetPins air).1] } : World) = w₁ at hrow ⊢
  rcases deployInstance_cases o net w₁ with
    ⟨hdeploy, hset, w', hrun, hrows, net', hnet', hid', hmode⟩ | ⟨e, hdeploy, hrun⟩ |
      ⟨hdeploy, hnot, w', e, hrun, hrows, net', hnet', hid'⟩
  · rw [hrun]
    refine iff_of_true ⟨?_, row_id _, row_netId _, net', hnet', hid'.trans hid, hmode⟩ (.inl ⟨hdeploy, hset⟩)
    rw [hrows, ← hw₁]
    exact List.mem_append_right _ (List.mem_singleton_self _)
  · rw [hrun]
    obtain ⟨hnets, hcase⟩ := delete_cases o w₁ spec
    have hnone : ¬ HasNet (attempt o.delete (World.deleteInstance spec.head.instanceId) w₁).1 spec := by
      unfold HasNet
      rw [hnets, ← hw₁]
      exact hfresh.net
    rcases hcase with ⟨hfails, heq⟩ | ⟨hdelete, hgone⟩
    · refine iff_of_false (fun h => h.1 ?_) ?_
      · rw [heq]
        exact hrow
      · rintro (⟨hsucceeds, -⟩ | ⟨-, hdelete⟩)
        · cases hdeploy.symm.trans hsucceeds
        · obtain ⟨e', he'⟩ := hfails
          exact hdelete e' he'
    · exact iff_of_true ⟨hgone, hnone⟩ (.inr ⟨⟨e, hdeploy⟩, hdelete⟩)
  · rw [hrun]
    obtain ⟨hnets, -⟩ := delete_cases o w' spec
    refine iff_of_false (fun h => h.2 ?_) ?_
    · unfold HasNet
      rw [hnets]
      exact ⟨net', hnet', hid'.trans hid⟩
    · rintro (hboth | ⟨⟨e', he'⟩, -⟩)
      · exact hnot hboth
      · exact hdeploy e' he'

/-- **A launch leaves all or nothing exactly when it never reaches the engine and no row, or the engine
does all, or it refuses the scenario and the row is deleted.** -/
theorem launch_iff (parameterize : LaunchSpec → Except LaunchError Json) (o : Replies) (spec : LaunchSpec)
    (w : World) (hfresh : Fresh w spec) :
    AllOrNothing spec (launch parameterize o spec w) ↔ (∃ e, parameterize spec = .error e) ∨ Clean o := by
  cases hair : parameterize spec with
  | error e =>
    have hlaunch : launch parameterize o spec w = (w, .error e) := by
      unfold launch
      rw [hair]
    rw [hlaunch]
    exact iff_of_true ⟨hfresh.row, hfresh.net⟩ (.inl ⟨e, rfl⟩)
  | ok air =>
    have hnone : ¬ ∃ e, (Except.ok air : Except LaunchError Json) = .error e := by
      rintro ⟨e, he⟩
      cases he
    rw [or_iff_right hnone]
    have hinsert := insertInstance_eq hfresh.row (takeAssetPins air).1
    cases hreply : o.insert with
    | succeeds =>
      rw [launch_inserted hfresh parameterize hair hreply]
      unfold Clean
      rw [hreply]
      cases o.deploy <;> cases o.setRunMode <;> cases o.delete <;> simp
    | fails e =>
      have hlaunch : launch parameterize o spec w = (w, .error (.database e)) := by
        unfold launch attempt
        rw [hair]
        dsimp only
        rw [hinsert, hreply]
      rw [hlaunch]
      unfold Clean
      rw [hreply]
      exact iff_of_true ⟨hfresh.row, hfresh.net⟩ trivial
    | lost e =>
      have hlaunch : launch parameterize o spec w =
          ({ w with instances := w.instances ++ [spec.row (takeAssetPins air).1] }, .error (.database e)) := by
        unfold launch attempt
        rw [hair]
        dsimp only
        rw [hinsert, hreply]
      rw [hlaunch]
      unfold Clean
      rw [hreply]
      exact iff_of_false (fun h => h.1 (hasRow_inserted _)) id

/-! ## A launch -/

/-- A launch into a place of a net with that place alone. -/
def intoPlace : LaunchSpec :=
  .preAir ⟨7, "mekhan-w-7", 1, 1, 2, .obj [], .obj [("places", .arr [.obj [("id", .str "in")]])], .obj [], none,
    some "w"⟩ "in" (.obj [])

/-- A parameterisation that has nothing to add. -/
def asGiven (spec : LaunchSpec) : Except LaunchError Json := .ok spec.head.airJson

theorem fresh_empty : Fresh ⟨[], []⟩ intoPlace where
  row := by
    rintro ⟨row, hrow, -⟩
    cases hrow
  net := by
    rintro ⟨net, hnet, -⟩
    cases hnet

/-- The engine refuses the scenario, and the row goes. -/
theorem launch_refused : AllOrNothing intoPlace (launch asGiven
    ⟨.succeeds, .fails "503", .succeeds, .succeeds⟩ intoPlace ⟨[], []⟩) :=
  (launch_iff asGiven _ intoPlace ⟨[], []⟩ fresh_empty).mpr (.inr trivial)

/-- The scenario is deployed, and the engine does not answer the second call: the net stays. -/
theorem launch_leaves_net : ¬ AllOrNothing intoPlace (launch asGiven
    ⟨.succeeds, .succeeds, .fails "timeout", .succeeds⟩ intoPlace ⟨[], []⟩) := by
  intro h
  exact h.2 ⟨_, List.mem_singleton_self _, rfl⟩

end LaunchRollback

end Mekhan
