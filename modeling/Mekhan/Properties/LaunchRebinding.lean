import Mekhan.Petri.Binding

/-!
# Rebinding slots one after another

`prepare_air_with_bindings` takes the substitutions in the order of a hash map and rewrites the whole AIR for each.
A slot bound to what another slot has compiled in is rewritten twice, in one order, and so is a net id in an
envelope that was injected before.
-/

namespace Mekhan

namespace Bindings

open Infra

/-! ## The text of the AIR -/

def isUuidChar (c : Char) : Bool := c.isDigit || ('a' ≤ c && c ≤ 'f') || c = '-'

/-- `pool-{uuid}` -/
def netIdShape : TokenShape Char where
  isToken w := w.take 5 = "pool-".toList && (w.drop 5).all isUuidChar && w.length = 41
  width := 41
  first := 'p'
  shape := by
    intro w h
    simp only [Bool.and_eq_true, decide_eq_true_eq] at h
    obtain ⟨⟨hhead, hbody⟩, hlen⟩ := h
    refine ⟨hlen, "ool-".toList ++ w.drop 5, ?_, fun hmem => ?_⟩
    · rw [← List.take_append_drop 5 w, hhead]
      rfl
    · rcases List.mem_append.mp hmem with hmem | hmem
      · exact absurd hmem (by decide)
      · exact absurd (List.all_eq_true.mp hbody _ hmem) (by decide)

/-- **Rewriting the text of the AIR renames its net ids, and changes nothing else.** -/
theorem pieces_rewriteText {old : List (List Char)} {new : List Char} (hold : ∀ o ∈ old, netIdShape.isToken o = true)
    (hnew : netIdShape.isToken new = true) (text : List Char) : netIdShape.pieces (rewriteText old new text) =
      (netIdShape.pieces text).map (Sum.map id (Renaming.apply ⟨old, new⟩)) := by
  induction old generalizing text with
  | nil =>
    have hid : (Sum.map id (Renaming.apply ⟨[], new⟩) : Char ⊕ List Char → Char ⊕ List Char) = id := by
      funext piece
      cases piece <;> rfl
    rw [hid, List.map_id]
    rfl
  | cons o old ih =>
    rw [List.forall_mem_cons] at hold
    show netIdShape.pieces (rewriteText old new (if o = new then text else replaceAll o new text)) = _
    have hone : netIdShape.pieces (if o = new then text else replaceAll o new text) =
        (netIdShape.pieces text).map (Sum.map id (TokenShape.swap o new)) := by
      split
      · next hsame =>
        have hid : (Sum.map id (TokenShape.swap o new) : Char ⊕ List Char → Char ⊕ List Char) = id := by
          funext piece
          cases piece with
          | inl c => rfl
          | inr w =>
            rw [Sum.map_inr, TokenShape.swap, hsame, id]
            split
            · next hw => rw [hw]
            · rfl
        rw [hid, List.map_id]
      · exact TokenShape.pieces_replaceAll hold.1 hnew text
    rw [ih hold.2, hone, List.map_map]
    refine List.map_congr_left fun piece _ => ?_
    cases piece with
    | inl c => rfl
    | inr w =>
      simp only [Function.comp_apply, Sum.map_inr, Renaming.apply, TokenShape.swap, List.mem_cons]
      by_cases hw : w = o
      · simp [hw]
      · simp [hw]

def poolText (c : Char) : List Char := "pool-".toList ++ List.replicate 36 c

/-- A bridge to a pool, and a note on another. -/
def twoIds (a b : Char) : List Char :=
  "net: ".toList ++ poolText a ++ ", p of ".toList ++ poolText b ++ ".".toList

theorem pieces_rewriteText_bound :
    netIdShape.pieces (rewriteText [poolText '0', poolText '1'] (poolText '2') (twoIds '0' '1')) =
      (netIdShape.pieces (twoIds '0' '1')).map
        (Sum.map id (Renaming.apply ⟨[poolText '0', poolText '1'], poolText '2'⟩)) :=
  pieces_rewriteText (by decide) (by decide) _

/-! ## The substitutions -/

def addressesOf (manifest : RequirementsManifest) (key : String) : SlotAirAddresses :=
  (List.lookup key manifest.airAddresses).getD ⟨[], []⟩

/-- A slot's rule: what it has compiled in becomes the net of its resource. -/
def ruleOf (manifest : RequirementsManifest) (b : BoundSlot) : Renaming String :=
  ⟨(addressesOf manifest b.slotKey).netIds, poolNetId b.resourceId⟩

theorem replaceNetIds_eq (old : List String) (resourceId : Uuid) :
    replaceNetIds old resourceId = Renaming.apply ⟨old, poolNetId resourceId⟩ := by
  have hnew : ∀ old, replaceNetIds old resourceId (poolNetId resourceId) = poolNetId resourceId := by
    intro old
    induction old with
    | nil => rfl
    | cons o old ih =>
      show replaceNetIds old resourceId (if poolNetId resourceId = o then poolNetId resourceId else poolNetId resourceId) = _
      rw [ite_self, ih]
  funext netId
  induction old with
  | nil => rfl
  | cons o old ih =>
    show replaceNetIds old resourceId (if netId = o then poolNetId resourceId else netId) = _
    by_cases h : netId = o
    · rw [if_pos h, hnew, Renaming.apply, if_pos (h ▸ List.mem_cons_self)]
    · rw [if_neg h, ih, Renaming.apply, Renaming.apply]
      simp only [List.mem_cons, h, false_or]

section

variable (describe : ResourceRow → Int → Option EnvelopeText) (request : LaunchRequest) (manifest : RequirementsManifest)

/-- The overrides of a slot; `none` where the resolver fails. -/
def overridesOf (b : BoundSlot) : Option (List (String × EnvelopeText)) :=
  (addressesOf manifest b.slotKey).resourceKeys.mapM fun key =>
    (resolveOne describe request.db request.workspaceId request.isMember b.resourceId b.version).map
      fun envelope => (key, envelope)

/-- What a slot injects into a published transition. -/
def injectedBy (t : AirTransition) (b : BoundSlot) : List (String × EnvelopeText) :=
  if hasPrepareTransitionSuffix t.id ∧ t.anchored then
    ((overridesOf describe request manifest b).getD []).filter fun e => e.1 ∈ t.keys
  else []

end

/-- A published transition with assignments ahead of its end marker. -/
def AirTransition.inject (t : AirTransition) (texts : List (String × EnvelopeText)) : AirTransition :=
  { t with injected := texts }

section

variable {describe : ResourceRow → Int → Option EnvelopeText} {request : LaunchRequest}
  {manifest : RequirementsManifest} {t : AirTransition} {b : BoundSlot} {order : List BoundSlot}

theorem spliceOverrides_nil (t : AirTransition) : spliceOverrides [] t = t := by
  rw [spliceOverrides]
  split
  · rw [List.filter_nil, List.append_nil]
  · rfl

/-- A substitution renames the net ids, and then injects. -/
theorem substitute_eq (air : Air) (b : BoundSlot) : substitute describe request manifest air b =
    (overridesOf describe request manifest b).map fun overrides =>
      ⟨air.netIds.map (ruleOf manifest b).apply, air.transitions.map fun t =>
        spliceOverrides overrides (t.inject (Renaming.renameIn (ruleOf manifest b).apply t.injected))⟩ := by
  have hrewrite : ∀ old, rewritePoolNetIds air old b.resourceId =
      ⟨air.netIds.map (Renaming.apply ⟨old, poolNetId b.resourceId⟩), air.transitions.map fun t =>
        t.inject (Renaming.renameIn (Renaming.apply ⟨old, poolNetId b.resourceId⟩) t.injected)⟩ := by
    intro old
    rw [rewritePoolNetIds, replaceNetIds_eq]
    rfl
  rw [substitute, overridesOf, ruleOf, addressesOf]
  cases List.lookup b.slotKey manifest.airAddresses with
  | none =>
    dsimp only [Option.getD_none]
    rw [List.mapM_nil]
    have hkept : Renaming.apply ⟨[], poolNetId b.resourceId⟩ = id := rfl
    show some air = some _
    simp only [hkept, List.map_id, Renaming.renameIn_id, spliceOverrides_nil]
    exact congrArg some (congrArg (Air.mk _) (List.map_id _).symm)
  | some addresses =>
    dsimp only [Option.getD_some]
    rw [hrewrite]
    split
    · next hnil =>
      rw [hnil, List.mapM_nil]
      show some _ = some _
      simp only [spliceOverrides_nil]
    · rw [injectResourceOverrides]
      refine congrArg (Option.map · _) (funext fun overrides => ?_)
      rw [spliceOverridesIntoAir, List.map_map]
      rfl

theorem spliceOverrides_inject {overrides : List (String × EnvelopeText)}
    (h : overridesOf describe request manifest b = some overrides) {texts : List (String × EnvelopeText)}
    (htexts : ∀ e ∈ texts, e.1 ∈ t.keys) : spliceOverrides overrides (t.inject texts) =
      t.inject (texts ++ injectedBy describe request manifest t b) := by
  have hkeys : ∀ key, (t.inject texts).references key = decide (key ∈ t.keys) := by
    intro key
    rw [AirTransition.references, Bool.eq_iff_iff, Bool.or_eq_true, List.any_eq_true]
    constructor
    · rintro (hkey | ⟨e, he, hkey⟩)
      · exact hkey
      · exact decide_eq_true (of_decide_eq_true hkey ▸ htexts e he)
    · exact .inl
  rw [spliceOverrides, injectedBy, h, Option.getD_some]
  show (if hasPrepareTransitionSuffix t.id ∧ t.anchored then _ else _) = _
  split
  · simp only [hkeys]
    rfl
  · rw [List.append_nil]

theorem key_mem_of_injectedBy {e : String × EnvelopeText} (he : e ∈ injectedBy describe request manifest t b) :
    e.1 ∈ t.keys := by
  rw [injectedBy] at he
  split at he
  · exact of_decide_eq_true (List.mem_filter.mp he).2
  · cases he

/-- **What the substitutions make of a published AIR, in an order.** -/
theorem foldlM_substitute {netIds : List String} {transitions : List AirTransition}
    {texts : AirTransition → List (String × EnvelopeText)} (htexts : ∀ t, ∀ e ∈ texts t, e.1 ∈ t.keys)
    (h : ∀ b ∈ order, (overridesOf describe request manifest b).isSome) :
    order.foldlM (substitute describe request manifest) ⟨netIds, transitions.map fun t => t.inject (texts t)⟩ =
      some ⟨netIds.map (Renaming.applyAll (order.map (ruleOf manifest))), transitions.map fun t =>
        t.inject (Renaming.renameIn (Renaming.applyAll (order.map (ruleOf manifest))) (texts t) ++
          Renaming.written (ruleOf manifest) (injectedBy describe request manifest t) order)⟩ := by
  induction order generalizing netIds texts with
  | nil =>
    have hkept : Renaming.applyAll (([] : List BoundSlot).map (ruleOf manifest)) = id := rfl
    simp only [hkept, List.map_id, Renaming.renameIn_id, Renaming.written, List.append_nil]
    rfl
  | cons b order ih =>
    rw [List.forall_mem_cons] at h
    obtain ⟨overrides, hoverrides⟩ := Option.isSome_iff_exists.mp h.1
    have hkept : ∀ t, ∀ e ∈ Renaming.renameIn (ruleOf manifest b).apply (texts t), e.1 ∈ t.keys := by
      intro t e he
      obtain ⟨e', he', rfl⟩ := List.mem_map.mp he
      exact htexts t e' he'
    have hone : ∀ t : AirTransition, spliceOverrides overrides
        ((t.inject (texts t)).inject (Renaming.renameIn (ruleOf manifest b).apply (t.inject (texts t)).injected)) =
          t.inject (Renaming.renameIn (ruleOf manifest b).apply (texts t) ++
            injectedBy describe request manifest t b) := fun t => spliceOverrides_inject hoverrides (hkept t)
    rw [List.foldlM_cons, substitute_eq, hoverrides, Option.map_some]
    show order.foldlM (substitute describe request manifest) _ = _
    simp only [List.map_map, Function.comp_def, hone]
    rw [ih (fun t e he => (List.mem_append.mp he).elim (hkept t e) key_mem_of_injectedBy) h.2]
    refine congrArg some (congrArg₂ Air.mk (List.map_map ..) (List.map_congr_left fun t _ => congrArg t.inject ?_))
    rw [Renaming.renameIn_append, Renaming.renameIn_renameIn, List.append_assoc]
    rfl

theorem foldlM_substitute_none : ∀ {order : List BoundSlot} {air : Air},
    (∃ b ∈ order, overridesOf describe request manifest b = none) →
      order.foldlM (substitute describe request manifest) air = none
  | [], _, ⟨_, hb, _⟩ => nomatch hb
  | b :: order, air, ⟨b', hb', hnone⟩ => by
    rw [List.foldlM_cons, substitute_eq]
    cases hone : overridesOf describe request manifest b with
    | none => rfl
    | some overrides =>
      refine foldlM_substitute_none ⟨b', (List.mem_cons.mp hb').resolve_left ?_, hnone⟩
      rintro rfl
      rw [hone] at hnone
      cases hnone

end

/-! ## The launch -/

/-- The order of a hash map: any order, the same slots. -/
def IsOrder (order : List BoundSlot → List BoundSlot) : Prop := ∀ bounds, (order bounds).Perm bounds

/-- The launch binds every slot it needs. -/
def Launches (request : LaunchRequest) (template : WorkflowTemplate) (manifest : RequirementsManifest)
    (bounds : KeyedList BoundSlot.slotKey) : Prop :=
  template.requirementsJson = some manifest ∧ resolveEffectiveBindings request template = .ok ⟨bounds, []⟩

/-- A net of the baseline and the one in its place: that of the resource bound to the slot that has compiled it in. -/
structure NetRebound (manifest : RequirementsManifest) (bounds : List BoundSlot) (netId netId' : String) : Prop where
  bound : ∀ b ∈ bounds, netId ∈ (addressesOf manifest b.slotKey).netIds → netId' = poolNetId b.resourceId
  kept : (∀ b ∈ bounds, netId ∉ (addressesOf manifest b.slotKey).netIds) → netId' = netId

/-- The substitutions are made at once: in whatever order they come, the AIR is one, and its nets are rebound. -/
structure Simultaneous (describe : ResourceRow → Int → Option EnvelopeText) (request : LaunchRequest)
    (template : WorkflowTemplate) : Prop where
  same : ∀ order order', IsOrder order → IsOrder order' →
    prepareAirWithBindings describe order request template = prepareAirWithBindings describe order' request template
  rebound : ∀ manifest bounds, Launches request template manifest bounds → ∀ order air, IsOrder order →
    prepareAirWithBindings describe order request template = .ok air →
      List.Forall₂ (NetRebound manifest bounds.toList) template.airJson.netIds air.netIds

/-- The substitutions do not get in each other's way. No net that one has compiled in is compiled in by another, nor is
its new net, unless they are bound to one resource. In no transition does it matter which of two comes first, for what
they inject and for what they rename in what a third has injected. -/
structure Separate (describe : ResourceRow → Int → Option EnvelopeText) (request : LaunchRequest)
    (manifest : RequirementsManifest) (air : Air) (bounds : List BoundSlot) : Prop where
  nets : ∀ s ∈ bounds, ∀ t ∈ bounds, ∀ netId ∈ air.netIds, netId ∈ (addressesOf manifest s.slotKey).netIds →
    netId ∈ (addressesOf manifest t.slotKey).netIds ∨
      poolNetId s.resourceId ∈ (addressesOf manifest t.slotKey).netIds → t.resourceId = s.resourceId
  injections : ∀ transition ∈ air.transitions, ∀ s ∈ bounds, ∀ t ∈ bounds,
    Renaming.Exchange (ruleOf manifest) (injectedBy describe request manifest transition) s t
  renamings : ∀ transition ∈ air.transitions, ∀ s ∈ bounds, ∀ t ∈ bounds, ∀ u ∈ bounds, s ≠ t → s ≠ u →
    Renaming.Agree (ruleOf manifest) (injectedBy describe request manifest transition) s t u

section

variable {describe : ResourceRow → Int → Option EnvelopeText} {request : LaunchRequest} {template : WorkflowTemplate}
  {manifest : RequirementsManifest} {bounds : KeyedList BoundSlot.slotKey}

theorem prepare_of_launches (h : Launches request template manifest bounds)
    (order : List BoundSlot → List BoundSlot) : prepareAirWithBindings describe order request template =
      match (order bounds.toList).foldlM (substitute describe request manifest) template.airJson with
      | some air => .ok air
      | none => .error (.binding .db) := by
  rw [prepareAirWithBindings, h.2, h.1]
  rfl

theorem prepare_error (h : Launches request template manifest bounds)
    (hnone : ¬∀ b ∈ bounds.toList, (overridesOf describe request manifest b).isSome)
    {order : List BoundSlot → List BoundSlot} (horder : IsOrder order) :
    prepareAirWithBindings describe order request template = .error (.binding .db) := by
  obtain ⟨b, hb⟩ := not_forall.mp hnone
  obtain ⟨hmem, hb⟩ := Classical.not_imp.mp hb
  rw [prepare_of_launches h,
    foldlM_substitute_none ⟨b, (horder bounds.toList).mem_iff.mpr hmem, Option.not_isSome_iff_eq_none.mp hb⟩]

theorem airJson_eq (template : WorkflowTemplate) : template.airJson =
    ⟨template.airJson.netIds, template.airJson.transitions.map fun t => t.inject []⟩ := by
  have hsame : template.airJson.transitions.map (fun t => t.inject []) = template.airJson.transitions :=
    (List.map_congr_left fun t ht => by
      rw [AirTransition.inject, ← template.published t ht]
      rfl).trans (List.map_id _)
  rw [hsame]

/-- What a launch makes of the AIR, in an order. -/
def launchedAir (describe : ResourceRow → Int → Option EnvelopeText) (request : LaunchRequest)
    (manifest : RequirementsManifest) (air : Air) (order : List BoundSlot) : Air where
  netIds := air.netIds.map (Renaming.applyAll (order.map (ruleOf manifest)))
  transitions := air.transitions.map fun t =>
    t.inject (Renaming.written (ruleOf manifest) (injectedBy describe request manifest t) order)

theorem prepare_ok_iff (h : Launches request template manifest bounds) {order : List BoundSlot → List BoundSlot}
    (horder : IsOrder order) {air : Air} : prepareAirWithBindings describe order request template = .ok air ↔
      (∀ b ∈ bounds.toList, (overridesOf describe request manifest b).isSome) ∧
        air = launchedAir describe request manifest template.airJson (order bounds.toList) := by
  by_cases hall : ∀ b ∈ bounds.toList, (overridesOf describe request manifest b).isSome
  · have hair := @foldlM_substitute describe request manifest (order bounds.toList) template.airJson.netIds
      template.airJson.transitions (fun _ => []) (fun _ e he => absurd he List.not_mem_nil)
      fun b hb => hall b ((horder bounds.toList).mem_iff.mp hb)
    rw [← airJson_eq] at hair
    rw [prepare_of_launches h, hair]
    exact ⟨fun heq => ⟨hall, (Except.ok.inj heq).symm⟩, fun heq => by rw [heq.2]; rfl⟩
  · rw [prepare_error h hall horder]
    exact iff_of_false (fun heq => nomatch heq) fun heq => hall heq.1

theorem launches_or (describe : ResourceRow → Int → Option EnvelopeText) (request : LaunchRequest)
    (template : WorkflowTemplate) : (∃ manifest bounds, Launches request template manifest bounds) ∨
      ∃ result, ∀ order, prepareAirWithBindings describe order request template = result := by
  cases hresolve : resolveEffectiveBindings request template with
  | error e => exact .inr ⟨_, fun order => by rw [prepareAirWithBindings, hresolve]⟩
  | ok resolved =>
    obtain ⟨bounds, unbound⟩ := resolved
    by_cases hunbound : unbound = []
    · subst hunbound
      cases hmanifest : template.requirementsJson with
      | none =>
        refine .inr ⟨.ok template.airJson, fun order => ?_⟩
        rw [prepareAirWithBindings, hresolve, hmanifest]
        rfl
      | some manifest => exact .inl ⟨manifest, bounds, hmanifest, hresolve⟩
    · refine .inr ⟨.error (.unbound (unbound.map fun slot => (slot.key, slot.resourceType))), fun order => ?_⟩
      rw [prepareAirWithBindings, hresolve]
      exact if_pos hunbound

/-- An order that takes the bounds of the launch as given. -/
def orderAs (bounds order : List BoundSlot) (l : List BoundSlot) : List BoundSlot := if l = bounds then order else l

theorem isOrder_orderAs {bounds order : List BoundSlot} (h : order.Perm bounds) : IsOrder (orderAs bounds order) := by
  intro l
  rw [orderAs]
  split
  · next hl => rwa [hl]
  · exact .refl l

theorem orderAs_self (bounds order : List BoundSlot) : orderAs bounds order bounds = order := if_pos rfl

theorem prepare_orderAs (hlaunch : Launches request template manifest bounds)
    (hall : ∀ b ∈ bounds.toList, (overridesOf describe request manifest b).isSome) {order : List BoundSlot}
    (horder : order.Perm bounds.toList) :
    prepareAirWithBindings describe (orderAs bounds.toList order) request template =
      .ok (launchedAir describe request manifest template.airJson order) := by
  refine (prepare_ok_iff hlaunch (isOrder_orderAs horder)).mpr ⟨hall, ?_⟩
  rw [orderAs_self]

theorem separate_of_simultaneous (h : Simultaneous describe request template)
    (hlaunch : Launches request template manifest bounds)
    (hall : ∀ b ∈ bounds.toList, (overridesOf describe request manifest b).isSome) :
    Separate describe request manifest template.airJson bounds.toList := by
  have hwritten : ∀ t ∈ template.airJson.transitions, ∀ order order' : List BoundSlot, order.Perm bounds.toList →
      order'.Perm bounds.toList →
        Renaming.written (ruleOf manifest) (injectedBy describe request manifest t) order =
          Renaming.written (ruleOf manifest) (injectedBy describe request manifest t) order' := by
    intro t ht order order' horder horder'
    have hsame := h.same _ _ (isOrder_orderAs horder) (isOrder_orderAs horder')
    rw [prepare_orderAs hlaunch hall horder, prepare_orderAs hlaunch hall horder'] at hsame
    have htransitions := congrArg Air.transitions (Except.ok.inj hsame)
    exact congrArg AirTransition.injected (List.map_inj_left.mp htransitions t ht)
  have hiff := fun t ht => (Renaming.written_perm_iff bounds.nodup.of_map).mp (hwritten t ht)
  refine ⟨fun s hs t ht netId hnet hold => ?_, fun t ht => (hiff t ht).1, fun t ht => (hiff t ht).2⟩
  have hnew : ∀ order : List BoundSlot, order.Perm bounds.toList → ∀ b ∈ bounds.toList,
      netId ∈ (ruleOf manifest b).old →
        Renaming.applyAll (order.map (ruleOf manifest)) netId = (ruleOf manifest b).new := by
    intro order horder b hb hmem
    have hrebound := h.rebound manifest bounds hlaunch _ _ (isOrder_orderAs horder) (prepare_orderAs hlaunch hall horder)
    exact (List.forall₂_same.mp (List.forall₂_map_right_iff.mp hrebound) netId hnet).bound b hb hmem
  exact fun hother => poolNetId_inj.mp (Renaming.applyAll_new_iff.mp hnew s hs hold t ht hother)

theorem netRebound_of_separate {air : Air} {bounds : List BoundSlot}
    (h : Separate describe request manifest air bounds) {order : List BoundSlot}
    (horder : order.Perm bounds) {netId : String} (hnet : netId ∈ air.netIds) :
    NetRebound manifest bounds netId (Renaming.applyAll (order.map (ruleOf manifest)) netId) := by
  have hnew : ∀ order : List BoundSlot, order.Perm bounds → ∀ b ∈ bounds, netId ∈ (ruleOf manifest b).old →
      Renaming.applyAll (order.map (ruleOf manifest)) netId = (ruleOf manifest b).new :=
    Renaming.applyAll_new_iff.mpr fun s hs hold t ht hother =>
      congrArg poolNetId (h.nets s hs t ht netId hnet hold hother)
  refine ⟨hnew order horder, fun hnone => ?_⟩
  exact Renaming.applyAll_of_notMem (List.forall_mem_map.mpr fun b hb => hnone b (horder.mem_iff.mp hb))

theorem NetRebound.unique {bounds : List BoundSlot} {netId a b : String} (ha : NetRebound manifest bounds netId a)
    (hb : NetRebound manifest bounds netId b) : a = b := by
  by_cases hbound : ∃ slot ∈ bounds, netId ∈ (addressesOf manifest slot.slotKey).netIds
  · obtain ⟨slot, hslot, hold⟩ := hbound
    rw [ha.bound slot hslot hold, hb.bound slot hslot hold]
  · have hnone := fun slot hslot hold => hbound ⟨slot, hslot, hold⟩
    rw [ha.kept hnone, hb.kept hnone]

theorem launchedAir_perm {air : Air} {bounds order order' : List BoundSlot}
    (h : Separate describe request manifest air bounds) (hnodup : bounds.Nodup) (horder : order.Perm bounds)
    (horder' : order'.Perm bounds) :
    launchedAir describe request manifest air order = launchedAir describe request manifest air order' := by
  refine congrArg₂ Air.mk (List.map_congr_left fun netId hnet => ?_) (List.map_congr_left fun t ht => ?_)
  · exact (netRebound_of_separate h horder hnet).unique (netRebound_of_separate h horder' hnet)
  · exact congrArg t.inject ((Renaming.written_perm_iff hnodup).mpr ⟨h.injections t ht, h.renamings t ht⟩
      order order' horder horder')

theorem simultaneous_of_separate (h : ∀ manifest bounds, Launches request template manifest bounds →
      (∀ b ∈ bounds.toList, (overridesOf describe request manifest b).isSome) →
        Separate describe request manifest template.airJson bounds.toList) :
    Simultaneous describe request template := by
  constructor
  · intro order order' horder horder'
    obtain ⟨manifest, bounds, hlaunch⟩ | ⟨result, hresult⟩ := launches_or describe request template
    · by_cases hall : ∀ b ∈ bounds.toList, (overridesOf describe request manifest b).isSome
      · rw [(prepare_ok_iff hlaunch horder).mpr ⟨hall, rfl⟩]
        exact ((prepare_ok_iff hlaunch horder').mpr ⟨hall, launchedAir_perm (h manifest bounds hlaunch hall)
          bounds.nodup.of_map (horder _) (horder' _)⟩).symm
      · rw [prepare_error hlaunch hall horder, prepare_error hlaunch hall horder']
    · rw [hresult, hresult]
  · intro manifest bounds hlaunch order air horder hok
    obtain ⟨hall, rfl⟩ := (prepare_ok_iff hlaunch horder).mp hok
    refine List.forall₂_map_right_iff.mpr (List.forall₂_same.mpr fun netId hnet => ?_)
    exact netRebound_of_separate (h manifest bounds hlaunch hall) (horder _) hnet

/-- **Every order of the substitutions gives one AIR, with every net rebound, exactly when the substitutions are
separate**, where the resolver has all their overrides. -/
theorem simultaneous_iff (describe : ResourceRow → Int → Option EnvelopeText) (request : LaunchRequest)
    (template : WorkflowTemplate) : Simultaneous describe request template ↔
      ∀ manifest bounds, Launches request template manifest bounds →
        (∀ b ∈ bounds.toList, (overridesOf describe request manifest b).isSome) →
          Separate describe request manifest template.airJson bounds.toList :=
  ⟨fun h _ _ hlaunch hall => separate_of_simultaneous h hlaunch hall, simultaneous_of_separate⟩

end

def poolResource (id : String) : ResourceRow := ⟨⟨id⟩, ⟨"o"⟩, "capacity", 1, false, false⟩

def twoPools : Resources where
  toList := [poolResource "1", poolResource "2"]
  nodup := by decide

def usingPools : WorkflowTemplate where
  workspaceId := ⟨"o"⟩
  forkedFrom := none
  airJson := ⟨["pool-1", "pool-2"], []⟩
  published := fun _ ht => absurd ht (List.not_mem_nil)
  requirementsJson := some ⟨[⟨"left", "capacity", true⟩, ⟨"right", "capacity", true⟩],
    [("left", ⟨["pool-1"], []⟩), ("right", ⟨["pool-2"], []⟩)]⟩

/-- Each slot is bound to the pool of the other. -/
def swapPools : LaunchRequest :=
  ⟨twoPools, ⟨"o"⟩, true, fun slot => if slot = "left" then some ⟨"2"⟩ else some ⟨"1"⟩, fun _ => none⟩

/-- Swapped bindings end in one pool, and which it is depends on the order. -/
theorem not_simultaneous_swapPools : ¬Simultaneous (fun _ _ => some []) swapPools usingPools := by
  intro h
  have hsame := h.same id List.reverse (fun bounds => .refl bounds) List.reverse_perm
  revert hsame
  decide

end Bindings

end Mekhan
