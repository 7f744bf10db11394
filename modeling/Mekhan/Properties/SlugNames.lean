import Mekhan.Compiler.SlugIndex
import Mekhan.Nats.EventStore

/-!
# Names of nodes

The index gives every node one slug and every slug one node. The shapes and the scripts write the slug of a loop, a
map or a lease scope without asking the index, and only a loop is kept from being renamed there.
-/

namespace Mekhan

namespace Slugs

/-! ## The two maps of the index -/

namespace SlugIndex

/-- The two maps of an index are inverse to each other. -/
def Inverse (index : SlugIndex) : Prop := ∀ s id, index.bySlug s = some id ↔ index.byNode id = some s

theorem inverse_empty : Inverse empty := fun _ _ => by simp [empty]

variable {index : SlugIndex} {s id : String}

theorem Inverse.insert (h : index.Inverse) (hs : index.bySlug s = none) (hid : index.byNode id = none) :
    (index.insert s id).Inverse := by
  intro s' id'
  by_cases hsame : s' = s <;> by_cases hsame' : id' = id
  · subst hsame hsame'
    simp [SlugIndex.insert]
  · subst hsame
    have hnone : index.byNode id' ≠ some s' := fun hsome => by simp [(h s' id').mpr hsome] at hs
    simp [SlugIndex.insert, hsame', hnone, Ne.symm hsame']
  · subst hsame'
    have hnone : index.bySlug s' ≠ some id' := fun hsome => by simp [(h s' id').mp hsome] at hid
    simp [SlugIndex.insert, hsame, hnone, Ne.symm hsame]
  · simpa [SlugIndex.insert, hsame, hsame'] using h s' id'

end SlugIndex

variable {g : WorkflowGraph} {index index' : SlugIndex} {n : WorkflowNode}

/-- What a node without a slug gets: one that nobody holds. -/
structure Adds (n : WorkflowNode) (s : String) (index index' : SlugIndex) : Prop where
  free : index.bySlug s = none
  eq : index' = index.insert s n.id

theorem adds_of_claim (hinv : index.Inverse) (hnew : index.byNode n.id = none) (h : claim index n = .ok index') :
    Adds n n.slug index index' := by
  unfold claim at h
  split at h
  · next other hother =>
    split at h
    · next hsame =>
      rw [← hsame, (hinv _ _).mp hother] at hnew
      cases hnew
    · cases h
  · next hfree => exact ⟨hfree, (Except.ok.inj h).symm⟩

theorem free_of_freeSlug : ∀ {fuel k : Nat} {s s' : String}, freeSlug g index n fuel s k = .ok s' →
    index.bySlug s' = none ∧ (index.bySlug s = none → s' = s)
  | 0, _, _, _, h => by cases h
  | fuel + 1, k, s, s', h => by
    unfold freeSlug at h
    split at h
    · next hfree =>
      cases h
      exact ⟨hfree, fun _ => rfl⟩
    · next holder hheld =>
      split at h
      · cases h
      · exact ⟨(free_of_freeSlug h).1, fun hfree => by rw [hfree] at hheld; cases hheld⟩

/-- **What the second pass does** with a node that has no slug: it keeps its own if that is free, and a loop has no
other. -/
theorem adds_of_addDerived (hinv : index.Inverse) (hnew : index.byNode n.id = none)
    (h : addDerived g index n = .ok index') :
    ∃ s, Adds n s index index' ∧ (s = n.slug ↔ index.bySlug n.slug = none) ∧ (n.data = .loop → s = n.slug) := by
  rw [addDerived, hnew] at h
  simp only [Option.isSome_none, Bool.false_eq_true, if_false] at h
  split at h
  · have hadds := adds_of_claim hinv hnew h
    exact ⟨n.slug, hadds, iff_of_true rfl hadds.free, fun _ => rfl⟩
  · next hloop =>
    cases hs : freeSlug g index n (g.nodes.length + 1) n.slug 2 with
    | error e =>
      rw [hs] at h
      cases h
    | ok s =>
      rw [hs] at h
      cases h
      obtain ⟨hfree, hown⟩ := free_of_freeSlug hs
      exact ⟨s, ⟨hfree, rfl⟩, ⟨fun heq => heq ▸ hfree, hown⟩, fun h => absurd h hloop⟩

/-! ## The passes -/

/-- An index between two others of a pass over some nodes. -/
structure Extends (nodes : List WorkflowNode) (index index' : SlugIndex) : Prop where
  inverse : index'.Inverse
  kept : ∀ id s, index.byNode id = some s → index'.byNode id = some s
  frame : ∀ id, id ∉ nodes.map (·.id) → index'.byNode id = index.byNode id

theorem Extends.refl (h : index.Inverse) (nodes : List WorkflowNode) : Extends nodes index index :=
  ⟨h, fun _ _ h => h, fun _ _ => rfl⟩

theorem Extends.cons {index'' : SlugIndex} {rest : List WorkflowNode} (h : Extends [n] index index')
    (h' : Extends rest index' index'') : Extends (n :: rest) index index'' where
  inverse := h'.inverse
  kept := fun id s hs => h'.kept id s (h.kept id s hs)
  frame := fun id hid => by
    rw [List.map_cons, List.mem_cons, not_or] at hid
    rw [h'.frame id hid.2, h.frame id (by simpa using hid.1)]

variable {s : String} {after before : List WorkflowNode}

theorem Adds.extends (h : Adds n s index index') (hinv : index.Inverse) (hnew : index.byNode n.id = none) :
    Extends [n] index index' where
  inverse := h.eq ▸ hinv.insert h.free hnew
  kept := fun id s' hs' => by
    have hne : id ≠ n.id := fun heq => by simp [heq, hnew] at hs'
    rw [h.eq]
    simpa [SlugIndex.insert, hne] using hs'
  frame := fun id hid => by
    rw [h.eq]
    exact Function.update_of_ne (by simpa using hid) _ _

theorem Adds.slugFor (h : Adds n s index index') : index'.byNode n.id = some s := by
  rw [h.eq]
  exact Function.update_self ..

theorem explicit_pass : ∀ {rest : List WorkflowNode} {index index' : SlugIndex},
    rest.foldlM addExplicit index = .ok index' → index.Inverse → (rest.map (·.id)).Nodup →
      (∀ n ∈ rest, index.byNode n.id = none) → Extends rest index index' ∧
        ∀ n ∈ rest, index'.byNode n.id = if n.explicit then some n.slug else none
  | [], _, _, h, hinv, _, _ => by
    cases h
    exact ⟨.refl hinv [], by simp⟩
  | n :: rest, index, index', h, hinv, hnodup, hnew => by
    rw [List.foldlM_cons] at h
    obtain ⟨hn, hrest⟩ := List.nodup_cons.mp hnodup
    rw [List.forall_mem_cons] at hnew
    obtain ⟨next, hnext, hfold⟩ : ∃ next, addExplicit index n = .ok next ∧ rest.foldlM addExplicit next = .ok index' := by
      cases hnext : addExplicit index n with
      | error e => rw [hnext] at h; cases h
      | ok next => rw [hnext] at h; exact ⟨next, rfl, h⟩
    have hstep : Extends [n] index next ∧ next.byNode n.id = if n.explicit then some n.slug else none := by
      rw [addExplicit] at hnext
      split at hnext
      · next hexplicit =>
        have hadds := adds_of_claim hinv hnew.1 hnext
        exact ⟨hadds.extends hinv hnew.1, by rw [if_pos hexplicit, hadds.slugFor]⟩
      · next hderived =>
        cases hnext
        exact ⟨.refl hinv _, by rw [if_neg hderived, hnew.1]⟩
    have hfresh : ∀ m ∈ rest, next.byNode m.id = none := fun m hm => by
      have hne : m.id ∉ [n].map (·.id) := fun hmem =>
        hn (List.mem_singleton.mp hmem ▸ List.mem_map_of_mem hm)
      rw [hstep.1.frame m.id hne, hnew.2 m hm]
    obtain ⟨hext, hslugs⟩ := explicit_pass hfold hstep.1.inverse hrest hfresh
    exact ⟨hstep.1.cons hext, List.forall_mem_cons.mpr ⟨(hext.frame n.id hn).trans hstep.2, hslugs⟩⟩

theorem derived_step (h : addDerived g index n = .ok index') (hinv : index.Inverse) :
    Extends [n] index index' ∧ ∃ s, index'.byNode n.id = some s := by
  cases hnew : index.byNode n.id with
  | none =>
    obtain ⟨s, hadds, -, -⟩ := adds_of_addDerived hinv hnew h
    exact ⟨hadds.extends hinv hnew, s, hadds.slugFor⟩
  | some s =>
    rw [addDerived, hnew] at h
    cases h
    exact ⟨.refl hinv _, s, hnew⟩

theorem derived_pass : ∀ {rest : List WorkflowNode} {index index' : SlugIndex},
    rest.foldlM (addDerived g) index = .ok index' → index.Inverse →
      Extends rest index index' ∧ ∀ n ∈ rest, ∃ s, index'.byNode n.id = some s
  | [], _, _, h, hinv => by
    cases h
    exact ⟨.refl hinv [], by simp⟩
  | n :: rest, index, index', h, hinv => by
    rw [List.foldlM_cons] at h
    cases hnext : addDerived g index n with
    | error e =>
      rw [hnext] at h
      cases h
    | ok next =>
      rw [hnext] at h
      obtain ⟨hstep, s, hs⟩ := derived_step hnext hinv
      obtain ⟨hext, hall⟩ := derived_pass h hstep.inverse
      exact ⟨hstep.cons hext, List.forall_mem_cons.mpr ⟨⟨s, hext.kept _ _ hs⟩, hall⟩⟩

/-! ## The whole index -/

theorem slugIndexUpTo_spec {derived : List WorkflowNode} (h : slugIndexUpTo g derived = .ok index) :
    ∃ first, Extends derived first index ∧ (∀ n ∈ derived, ∃ s, index.byNode n.id = some s) ∧
      (∀ n ∈ g.nodes, first.byNode n.id = if n.explicit then some n.slug else none) ∧
        ∀ id, id ∉ g.nodes.map (·.id) → first.byNode id = none := by
  rw [slugIndexUpTo] at h
  cases hfirst : g.nodes.foldlM addExplicit .empty with
  | error e =>
    rw [hfirst] at h
    cases h
  | ok first =>
    rw [hfirst] at h
    obtain ⟨hext, hslugs⟩ := explicit_pass hfirst SlugIndex.inverse_empty g.ids_nodup fun _ _ => rfl
    obtain ⟨hext', hall⟩ := derived_pass h hext.inverse
    exact ⟨first, hext', hall, hslugs, hext.frame⟩

theorem slugIndexUpTo_append : slugIndexUpTo g (before ++ after) =
    (slugIndexUpTo g before).bind fun index => after.foldlM (addDerived g) index := by
  rw [slugIndexUpTo, slugIndexUpTo]
  cases g.nodes.foldlM addExplicit .empty with
  | error e => rfl
  | ok first => exact List.foldlM_append ..

/-! ## The search for a suffix ends -/

/-- The slugs that are tried, in order. -/
def candidate (base : String) : Nat → String
  | 0 => base
  | i + 1 => base ++ "_" ++ toString (i + 2)

theorem candidate_injective (base : String) : Function.Injective (candidate base)
  | 0, 0, _ => rfl
  | 0, j + 1, h => by
    have hlength := congrArg String.length h
    simp [candidate, show "_".length = 1 from rfl] at hlength
    omega
  | i + 1, 0, h => by
    have hlength := congrArg String.length h
    simp [candidate, show "_".length = 1 from rfl] at hlength
    omega
  | i + 1, j + 1, h => by
    have hlist := congrArg String.toList h
    simp only [candidate, String.toList_append] at hlist
    have hnumber := toString_nat_injective (String.toList_injective (List.append_cancel_left hlist))
    omega

theorem held_of_outOfFuel : ∀ {fuel i : Nat},
    freeSlug g index n fuel (candidate n.slug i) (i + 2) = .error .outOfFuel →
      ∀ j < fuel, ∃ id, index.bySlug (candidate n.slug (i + j)) = some id
  | 0, _, _, _, hj => absurd hj (Nat.not_lt_zero _)
  | fuel + 1, i, h, j, hj => by
    unfold freeSlug at h
    split at h
    · cases h
    · next holder hheld =>
      split at h
      · cases h
      · cases j with
        | zero => exact ⟨holder, hheld⟩
        | succ j =>
          rw [← Nat.succ_add_eq_add_succ]
          exact held_of_outOfFuel (i := i + 1) h j (by omega)

/-- One more slug is tried than there are nodes to hold them. -/
theorem freeSlug_ends (hinv : index.Inverse) (hknown : ∀ id s, index.byNode id = some s → id ∈ g.nodes.map (·.id)) :
    freeSlug g index n (g.nodes.length + 1) n.slug 2 ≠ .error .outOfFuel := by
  intro h
  have hfirst : freeSlug g index n (g.nodes.length + 1) (candidate n.slug 0) (0 + 2) = .error .outOfFuel := by
    rw [candidate, Nat.zero_add]
    exact h
  have hheld := held_of_outOfFuel hfirst
  simp only [Nat.zero_add] at hheld
  choose! holder hholder using hheld
  have hcard : (g.nodes.map (·.id)).toFinset.card < (Finset.range (g.nodes.length + 1)).card := by
    rw [Finset.card_range]
    exact Nat.lt_succ_of_le ((List.toFinset_card_le _).trans (by simp))
  obtain ⟨i, hi, j, hj, hne, hsame⟩ := Finset.exists_ne_map_eq_of_card_lt_of_maps_to (f := holder) hcard fun j hj =>
    List.mem_toFinset.mpr (hknown _ _ ((hinv _ _).mp (hholder j (Finset.mem_range.mp hj))))
  have hi := (hinv _ _).mp (hholder i (Finset.mem_range.mp hi))
  rw [hsame, (hinv _ _).mp (hholder j (Finset.mem_range.mp hj))] at hi
  exact hne (candidate_injective _ (Option.some.inj hi)).symm

theorem error_of_foldlM {α β ε : Type} {f : β → α → Except ε β} {e : ε} : ∀ {l : List α} {b : β},
    l.foldlM f b = .error e →
      ∃ before x after b', l = before ++ x :: after ∧ before.foldlM f b = .ok b' ∧ f b' x = .error e
  | [], _, h => by cases h
  | x :: l, b, h => by
    rw [List.foldlM_cons] at h
    cases hx : f b x with
    | error e' =>
      rw [hx] at h
      cases h
      exact ⟨[], x, l, b, rfl, rfl, hx⟩
    | ok b' =>
      rw [hx] at h
      obtain ⟨before, y, after, b'', rfl, hbefore, hy⟩ := error_of_foldlM h
      exact ⟨x :: before, y, after, b'', rfl, by rw [List.foldlM_cons, hx]; exact hbefore, hy⟩

theorem claim_ne_outOfFuel : claim index n ≠ .error .outOfFuel := by
  unfold claim
  split
  · split <;> nofun
  · nofun

/-- **The index is always made or refused.** -/
theorem slugIndex_ends (g : WorkflowGraph) : slugIndex g ≠ .error .outOfFuel := by
  intro h
  rw [slugIndex, slugIndexUpTo] at h
  cases hfirst : g.nodes.foldlM addExplicit .empty with
  | error e =>
    rw [hfirst] at h
    cases h
    obtain ⟨_, n, _, index, -, -, hn⟩ := error_of_foldlM hfirst
    rw [addExplicit] at hn
    split at hn
    · exact claim_ne_outOfFuel hn
    · cases hn
  | ok first =>
    rw [hfirst] at h
    obtain ⟨before, n, after, index, hnodes, hbefore, hn⟩ := error_of_foldlM h
    have hindex : slugIndexUpTo g before = .ok index := by
      rw [slugIndexUpTo, hfirst]
      exact hbefore
    obtain ⟨first, hext, -, -, hframe⟩ := slugIndexUpTo_spec hindex
    rw [addDerived] at hn
    split at hn
    · cases hn
    · split at hn
      · exact claim_ne_outOfFuel hn
      · refine freeSlug_ends hext.inverse (fun id s hs => ?_) (n := n) (g := g) ?_
        · by_contra hid
          have hout : id ∉ before.map (·.id) := fun hmem =>
            hid (by rw [hnodes, List.map_append]; exact List.mem_append_left _ hmem)
          rw [hext.frame id hout, hframe id hid] at hs
          cases hs
        · cases hfree : freeSlug g index n (g.nodes.length + 1) n.slug 2 with
          | ok s =>
            rw [hfree] at hn
            cases hn
          | error e =>
            rw [hfree] at hn
            cases hn
            rfl

/-! ## Agreement -/

/-- **When a node that derives its slug keeps it**: nobody holds it when the second pass comes to the node. -/
theorem slugFor_derived (hnodes : g.nodes = before ++ n :: after)
    (hderived : n.explicit = false) (h : slugIndex g = .ok index) :
    ∃ held, slugIndexUpTo g before = .ok held ∧ (index.slugFor n.id = some n.slug ↔ held.bySlug n.slug = none) ∧
      (n.data = .loop → index.slugFor n.id = some n.slug) := by
  rw [slugIndex, hnodes, slugIndexUpTo_append] at h
  cases hheld : slugIndexUpTo g before with
  | error e =>
    rw [hheld] at h
    cases h
  | ok held =>
    refine ⟨held, rfl, ?_⟩
    rw [hheld] at h
    change (n :: after).foldlM (addDerived g) held = .ok index at h
    rw [List.foldlM_cons] at h
    obtain ⟨first, hext, -, hfirst, -⟩ := slugIndexUpTo_spec hheld
    have hnodup := hnodes ▸ g.ids_nodup
    rw [List.map_append, List.map_cons, List.nodup_middle, List.nodup_cons, List.mem_append, not_or] at hnodup
    have hnew : held.byNode n.id = none := by
      rw [hext.frame n.id hnodup.1.1, hfirst n (by rw [hnodes]; simp), hderived]
      rfl
    cases hnext : addDerived g held n with
    | error e =>
      rw [hnext] at h
      cases h
    | ok next =>
      rw [hnext] at h
      obtain ⟨s, hadds, hown, hloop⟩ := adds_of_addDerived hext.inverse hnew hnext
      obtain ⟨hrest, -⟩ := derived_pass h (hadds.extends hext.inverse hnew).inverse
      have hslug : index.slugFor n.id = some s := hrest.kept _ _ hadds.slugFor
      rw [hslug, Option.some.injEq]
      exact ⟨hown, hloop⟩

theorem slugFor_explicit (hmem : n ∈ g.nodes) (hexplicit : n.explicit = true) (h : slugIndex g = .ok index) :
    index.slugFor n.id = some n.slug := by
  obtain ⟨first, hext, -, hfirst, -⟩ := slugIndexUpTo_spec h
  exact hext.kept _ _ ((hfirst n hmem).trans (if_pos hexplicit))

/-- A bijection between nodes and slugs that agrees with the slugs that are written out. -/
structure Agrees (g : WorkflowGraph) (index : SlugIndex) : Prop where
  total : ∀ n ∈ g.nodes, ∃ s, index.slugFor n.id = some s
  distinct : ∀ m ∈ g.nodes, ∀ n ∈ g.nodes, index.slugFor m.id = index.slugFor n.id → m.id = n.id
  back : ∀ n ∈ g.nodes, ∀ s, index.slugFor n.id = some s → index.nodeFor s = some n.id
  explicit : ∀ n ∈ g.nodes, n.explicit = true → index.slugFor n.id = some n.slug
  written : ∀ n ∈ g.nodes, n.embedsSlug → index.slugFor n.id = some n.slug

/-- No map and no lease scope derives a slug that is held already when the second pass comes to it. -/
def Unshadowed (g : WorkflowGraph) : Prop :=
  ∀ before n after, g.nodes = before ++ n :: after → n.data = .map ∨ n.data = .leaseScope → n.explicit = false →
    ∀ held, slugIndexUpTo g before = .ok held → held.bySlug n.slug = none

/-- **The index agrees with the written slugs** exactly where no map and no lease scope is renamed. -/
theorem slugIndex_agrees_iff (g : WorkflowGraph) (index : SlugIndex) (h : slugIndex g = .ok index) :
    Agrees g index ↔ Unshadowed g := by
  obtain ⟨first, hext, htotal, -⟩ := slugIndexUpTo_spec h
  constructor
  · intro hagrees before n after hnodes hkind hderived held hheld
    obtain ⟨held', hheld', hown, -⟩ := slugFor_derived hnodes hderived h
    obtain rfl : held' = held := Except.ok.inj (hheld'.symm.trans hheld)
    exact hown.mp (hagrees.written n (by rw [hnodes]; simp) (by tauto))
  · intro hunshadowed
    refine ⟨htotal, fun m hm n hn hsame => ?_, fun n _ s hs => (hext.inverse s n.id).mpr hs,
      fun n hn hexplicit => slugFor_explicit hn hexplicit h, fun n hn hkind => ?_⟩
    · obtain ⟨s, hs⟩ := htotal m hm
      exact Option.some.inj (((hext.inverse s m.id).mpr hs).symm.trans ((hext.inverse s n.id).mpr (hsame.symm.trans hs)))
    · cases hexplicit : n.explicit with
      | true => exact slugFor_explicit hn hexplicit h
      | false =>
        obtain ⟨before, after, hnodes⟩ := List.append_of_mem hn
        obtain ⟨held, hheld, hown, hloop⟩ := slugFor_derived hnodes hexplicit h
        rcases hkind with hkind | hkind | hkind
        · exact hloop hkind
        · exact hown.mpr (hunshadowed before n after hnodes (.inr hkind) hexplicit held hheld)
        · exact hown.mpr (hunshadowed before n after hnodes (.inl hkind) hexplicit held hheld)

/-- A step and a map whose ids differ in a character that no slug has. -/
def dashedAndDotted : WorkflowGraph where
  nodes := [⟨"a-b", none, .automatedStep⟩, ⟨"a.b", none, .map⟩]
  ids_nodup := by decide

theorem slugIndex_agrees_iff_dashedAndDotted : ∃ index, slugIndex dashedAndDotted = .ok index ∧
    (Agrees dashedAndDotted index ↔ Unshadowed dashedAndDotted) :=
  ⟨_, rfl, slugIndex_agrees_iff dashedAndDotted _ rfl⟩

theorem map_renamed : ¬ ∀ g index, slugIndex g = .ok index → Agrees g index := fun h => by
  have hwritten := (h dashedAndDotted _ rfl).written ⟨"a.b", none, .map⟩ (by decide) (.inr (.inr rfl))
  exact absurd hwritten (by decide)

end Slugs

end Mekhan
