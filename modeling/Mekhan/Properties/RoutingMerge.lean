import Mekhan.Application.BindingSpec
import Mekhan.Infra.JsonValue
import Mekhan.Infra.PartialUnion

/-!
# Merging reply routing

A binding merges the routing of the tokens it consumes one token after the other, in the order of its arcs.

* `exists_mergeRoutings_of_build` — what a binding carries is such a merge
-/

namespace Mekhan

open Infra

namespace ReplyRouting

/-- What a routing can say: where to reply, that there are channels, where a channel leads. -/
inductive Field where
  | replyTo
  | channels
  | channel (key : String)

def facts (r : ReplyRouting) : Field → Option (Option BridgeReplyAddress)
  | .replyTo => r.replyTo.map some
  | .channels => r.replyChannels.map fun _ => none
  | .channel key => (r.replyChannels.bind (·.lookup key)).map some

/-- Two routings that name different addresses for one reply. -/
def Conflicts (r r' : ReplyRouting) : Prop :=
  (∃ a ∈ r.replyTo, ∃ b ∈ r'.replyTo, a ≠ b) ∨
    ∃ key, ∃ a ∈ r.replyChannels.bind (·.lookup key), ∃ b ∈ r'.replyChannels.bind (·.lookup key), a ≠ b

/-- The union of routings: what any of them says, and nothing else. -/
structure IsUnion (rs : List ReplyRouting) (u : ReplyRouting) : Prop where
  replyTo : ∀ a, u.replyTo = some a ↔ ∃ r ∈ rs, r.replyTo = some a
  channels : u.replyChannels.isSome ↔ ∃ r ∈ rs, r.replyChannels.isSome
  channel : ∀ key a, u.replyChannels.bind (·.lookup key) = some a ↔
    ∃ r ∈ rs, r.replyChannels.bind (·.lookup key) = some a

variable {r r' : ReplyRouting}

theorem agree_iff : PartialUnion.Agree r.facts r'.facts ↔ ¬ r.Conflicts r' := by
  constructor
  · rintro h (⟨a, ha, b, hb, hne⟩ | ⟨key, a, ha, b, hb, hne⟩)
    · have heq := h .replyTo (some a) (some b) (congrArg (Option.map some) ha) (congrArg (Option.map some) hb)
      exact hne (Option.some.inj heq)
    · have heq := h (.channel key) (some a) (some b) (congrArg (Option.map some) ha) (congrArg (Option.map some) hb)
      exact hne (Option.some.inj heq)
  · intro h field v w hv hw
    by_contra hne
    cases field with
    | replyTo =>
      obtain ⟨a, ha, rfl⟩ := Option.map_eq_some_iff.mp hv
      obtain ⟨b, hb, rfl⟩ := Option.map_eq_some_iff.mp hw
      exact h (.inl ⟨a, ha, b, hb, fun heq => hne (congrArg some heq)⟩)
    | channels =>
      obtain ⟨_, -, rfl⟩ := Option.map_eq_some_iff.mp hv
      obtain ⟨_, -, rfl⟩ := Option.map_eq_some_iff.mp hw
      exact hne rfl
    | channel key =>
      obtain ⟨a, ha, rfl⟩ := Option.map_eq_some_iff.mp hv
      obtain ⟨b, hb, rfl⟩ := Option.map_eq_some_iff.mp hw
      exact h (.inr ⟨key, a, ha, b, hb, fun heq => hne (congrArg some heq)⟩)

theorem view_eq_of_facts_eq (h : r.facts = r'.facts) : r.view = r'.view := by
  have hreply : r.replyTo = r'.replyTo :=
    Option.map_injective (Option.some_injective _) (congrFun h .replyTo)
  have hlookup : ∀ key, r.replyChannels.bind (·.lookup key) = r'.replyChannels.bind (·.lookup key) := fun key =>
    Option.map_injective (Option.some_injective _) (congrFun h (.channel key))
  have hchannels := congrFun h .channels
  refine Prod.ext hreply ?_
  obtain ⟨_, channels⟩ := r
  obtain ⟨_, channels'⟩ := r'
  cases channels with
  | none =>
    cases channels' with
    | none => rfl
    | some _ => exact absurd hchannels (by simp [facts])
  | some m =>
    cases channels' with
    | none => exact absurd hchannels (by simp [facts])
    | some m' => exact congrArg some (Finmap.ext_lookup hlookup)

theorem isUnion_of_facts {rs : List ReplyRouting} {u : ReplyRouting}
    (h : PartialUnion.IsUnion (rs.map facts) u.facts) : IsUnion rs u := by
  have hsays : ∀ field v, u.facts field = some v ↔ ∃ r ∈ rs, r.facts field = some v := fun field v => by
    simp only [h field v, List.mem_map, exists_exists_and_eq_and]
  refine ⟨fun a => ?_, ?_, fun key a => ?_⟩
  · simpa only [facts, Option.map_eq_some_iff, Option.some.injEq, exists_eq_right] using hsays .replyTo (some a)
  · simpa [facts, Option.isSome_iff_exists] using hsays .channels none
  · simpa only [facts, Option.map_eq_some_iff, Option.some.injEq, exists_eq_right] using
      hsays (.channel key) (some a)

end ReplyRouting

/-! ## One merge -/

/-- What becomes of the channels when others are merged in. -/
def ChannelsMerged (m : HashMap String BridgeReplyAddress) (l : List (String × BridgeReplyAddress)) :
    Option (HashMap String BridgeReplyAddress) → Prop
  | none => ∃ key, ∃ a ∈ m.lookup key, ∃ b ∈ l.lookup key, a ≠ b
  | some m' => (∀ key, ∀ a ∈ m.lookup key, ∀ b ∈ l.lookup key, a = b) ∧
      ∀ key, m'.lookup key = (m.lookup key).or (l.lookup key)

theorem ChannelsMerged.cons {m n : HashMap String BridgeReplyAddress} {key : String} {addr : BridgeReplyAddress}
    {rest : List (String × BridgeReplyAddress)} {merged : Option (HashMap String BridgeReplyAddress)}
    (hsame : ∀ k, k ≠ key → n.lookup k = m.lookup k) (hn : n.lookup key = some addr)
    (hm : ∀ a ∈ m.lookup key, a = addr) (hfresh : rest.lookup key = none) (h : ChannelsMerged n rest merged) :
    ChannelsMerged m ((key, addr) :: rest) merged := by
  have hself : ((key, addr) :: rest).lookup key = some addr := List.lookup_cons_self
  have hother : ∀ k, k ≠ key → ((key, addr) :: rest).lookup k = rest.lookup k := fun k hk =>
    (lookup_cons_ite ..).trans (if_neg hk)
  cases merged with
  | none =>
    obtain ⟨k, a, ha, b, hb, hne⟩ := h
    by_cases hk : k = key
    · rw [hk, hfresh] at hb
      cases hb
    · exact ⟨k, a, hsame k hk ▸ ha, b, (hother k hk).symm ▸ hb, hne⟩
  | some m' =>
    obtain ⟨hagree, hunion⟩ := h
    refine ⟨fun k a ha b hb => ?_, fun k => ?_⟩
    · by_cases hk : k = key
      · rw [hk, hself] at hb
        exact (hm a (hk ▸ ha)).trans (Option.some.inj hb)
      · exact hagree k a ((hsame k hk).symm ▸ ha) b (hother k hk ▸ hb)
    · rw [hunion]
      by_cases hk : k = key
      · rw [hk, hn, hself, Option.some_or]
        cases hmk : m.lookup key with
        | none => rfl
        | some a => rw [hm a hmk, Option.some_or]
      · rw [hsame k hk, hother k hk]

theorem mergeChannels_spec : ∀ {l : List (String × BridgeReplyAddress)} {m : HashMap String BridgeReplyAddress},
    (l.map (·.1)).Nodup → ChannelsMerged m l (mergeChannels m l)
  | [], m, _ => ⟨fun _ _ _ _ hb => absurd hb (by simp), fun key => by simp⟩
  | (key, addr) :: rest, m, hnodup => by
    obtain ⟨hnot, hrest⟩ := List.nodup_cons.mp hnodup
    have hfresh : rest.lookup key = none := lookup_eq_none_iff_notMem.mpr hnot
    rw [mergeChannels]
    cases hm : m.lookup key with
    | none =>
      refine .cons (fun k hk => AList.lookup_insert_ne hk) (AList.lookup_insert m) ?_ hfresh (mergeChannels_spec hrest)
      exact fun a ha => absurd (hm.symm.trans ha) (by simp)
    | some existing =>
      dsimp only
      by_cases heq : existing = addr
      · rw [if_pos heq]
        refine .cons (fun _ _ => rfl) (hm.trans (congrArg some heq)) ?_ hfresh (mergeChannels_spec hrest)
        exact fun a ha => (Option.some.inj (ha.symm.trans hm)).trans heq
      · rw [if_neg heq]
        exact ⟨key, existing, hm, addr, List.lookup_cons_self, heq⟩

theorem lookup_toPairs {V : Type} (m : HashMap String V) (key : String) : m.toPairs.lookup key = m.lookup key := by
  ext v
  rw [lookup_eq_some_iff_mem m.toPairs_nodup, HashMap.mem_toPairs]
  exact AList.mem_lookup_iff.symm

section

variable {channels channels' : Option (HashMap String BridgeReplyAddress)}

/-- The channels of two routings, where either may have none. -/
def mergeOptionalChannels : Option (HashMap String BridgeReplyAddress) → Option (HashMap String BridgeReplyAddress) →
    Option (Option (HashMap String BridgeReplyAddress))
  | some a, some b => (mergeChannels a b.toPairs).map some
  | some a, none => some (some a)
  | none, other => some other

theorem mergeOptionalChannels_none (h : mergeOptionalChannels channels channels' = none) :
    ∃ key, ∃ a ∈ channels.bind (·.lookup key), ∃ b ∈ channels'.bind (·.lookup key), a ≠ b := by
  cases channels with
  | none => exact absurd h (by simp [mergeOptionalChannels])
  | some m =>
    cases channels' with
    | none => exact absurd h (by simp [mergeOptionalChannels])
    | some m' =>
      have hspec := mergeChannels_spec (m := m) m'.toPairs_nodup
      rw [Option.map_eq_none_iff.mp h] at hspec
      simpa only [ChannelsMerged, lookup_toPairs, Option.bind_some] using hspec

theorem mergeOptionalChannels_some {merged : Option (HashMap String BridgeReplyAddress)}
    (h : mergeOptionalChannels channels channels' = some merged) :
    (∀ key, ∀ a ∈ channels.bind (·.lookup key), ∀ b ∈ channels'.bind (·.lookup key), a = b) ∧
      (∀ v : Option BridgeReplyAddress,
        (merged.map fun _ => v) = (channels.map fun _ => v).or (channels'.map fun _ => v)) ∧
        ∀ key, merged.bind (·.lookup key) = (channels.bind (·.lookup key)).or (channels'.bind (·.lookup key)) := by
  cases channels with
  | none =>
    cases h
    exact ⟨fun _ a ha => absurd ha (by simp), by simp, fun key => by simp⟩
  | some m =>
    cases channels' with
    | none =>
      cases h
      exact ⟨fun _ a _ b hb => absurd hb (by simp), by simp, fun key => by simp⟩
    | some m' =>
      obtain ⟨n, hn, rfl⟩ := Option.map_eq_some_iff.mp h
      have hspec := mergeChannels_spec (m := m) m'.toPairs_nodup
      rw [hn] at hspec
      simp only [ChannelsMerged, lookup_toPairs] at hspec
      exact ⟨hspec.1, fun _ => rfl, hspec.2⟩

end

theorem mergeReplyRouting_eq (r r' : ReplyRouting) : mergeReplyRouting r r' =
      if ∃ a ∈ r.replyTo, ∃ b ∈ r'.replyTo, a ≠ b then none
      else (mergeOptionalChannels r.replyChannels r'.replyChannels).map fun channels =>
        ⟨r.replyTo.or r'.replyTo, channels⟩ := by
  obtain ⟨replyTo, channels⟩ := r
  obtain ⟨replyTo', channels'⟩ := r'
  have hbind : ∀ (merged : Option (HashMap String BridgeReplyAddress)) (replyTo : Option BridgeReplyAddress),
      ((merged.map some).bind fun channels => some (⟨replyTo, channels⟩ : ReplyRouting)) =
        (merged.map some).map fun channels => ⟨replyTo, channels⟩ := fun merged _ => by cases merged <;> rfl
  cases replyTo with
  | none => cases channels <;> cases channels' <;> simp [mergeReplyRouting, mergeOptionalChannels, hbind]
  | some a =>
    cases replyTo' with
    | none => cases channels <;> cases channels' <;> simp [mergeReplyRouting, mergeOptionalChannels, hbind]
    | some b =>
      by_cases heq : a = b
      · cases channels <;> cases channels' <;> simp [mergeReplyRouting, mergeOptionalChannels, heq, hbind]
      · simp [mergeReplyRouting, heq]

/-- **One merge refuses a conflict and gives the union otherwise.** -/
theorem merges_replyRouting : PartialUnion.Merges ReplyRouting.facts mergeReplyRouting where
  refused h := by
    rw [ReplyRouting.agree_iff, not_not]
    rw [mergeReplyRouting_eq] at h
    split at h
    · next hto => exact .inl hto
    · exact .inr (mergeOptionalChannels_none (Option.map_eq_none_iff.mp h))
  agree h := by
    rw [ReplyRouting.agree_iff]
    rw [mergeReplyRouting_eq] at h
    split at h
    · cases h
    · next hto =>
      obtain ⟨channels, hchannels, -⟩ := Option.map_eq_some_iff.mp h
      rintro (hconflict | ⟨key, a, ha, b, hb, hne⟩)
      · exact hto hconflict
      · exact hne ((mergeOptionalChannels_some hchannels).1 key a ha b hb)
  union h field := by
    rw [mergeReplyRouting_eq] at h
    split at h
    · cases h
    · obtain ⟨channels, hchannels, rfl⟩ := Option.map_eq_some_iff.mp h
      obtain ⟨-, hsome, hlookup⟩ := mergeOptionalChannels_some hchannels
      cases field with
      | replyTo => exact Option.map_or
      | channels => exact hsome none
      | channel key =>
        exact (congrArg (Option.map some) (hlookup key)).trans Option.map_or

/-! ## The fold -/

theorem mergeRoutings_eq : ∀ (ts : List Token) (routing : Option ReplyRouting),
    mergeRoutings routing ts = PartialUnion.foldMerge mergeReplyRouting routing (ts.filterMap (·.replyRouting))
  | [], _ => by simp [mergeRoutings, PartialUnion.foldMerge]
  | t :: rest, routing => by
    unfold mergeRoutings
    cases ht : t.replyRouting with
    | none => rw [List.filterMap_cons_none ht, mergeRoutings_eq rest]
    | some incoming =>
      rw [List.filterMap_cons_some ht]
      cases routing with
      | none => exact mergeRoutings_eq rest _
      | some existing =>
        dsimp only [PartialUnion.foldMerge]
        cases mergeReplyRouting existing incoming with
        | none => rfl
        | some merged => exact mergeRoutings_eq rest _

theorem map_view_eq_of_map_facts_eq {o o' : Option (Option ReplyRouting)}
    (h : o.map (Option.map ReplyRouting.facts) = o'.map (Option.map ReplyRouting.facts)) :
    o.map (Option.map ReplyRouting.view) = o'.map (Option.map ReplyRouting.view) := by
  rcases o with - | - | u <;> rcases o' with - | - | v <;> simp_all
  exact ReplyRouting.view_eq_of_facts_eq h

/-- **The merge of the routings of tokens does not depend on their order, nor on how often a routing occurs**: it
fails exactly when two of them give a field two addresses, and otherwise is their union. -/
theorem routingMerge_orderIndependent (ts : List Token) : (mergeRoutings none ts = none ↔
      ∃ r ∈ ts.filterMap (·.replyRouting), ∃ r' ∈ ts.filterMap (·.replyRouting), r.Conflicts r') ∧
    (∀ merged, mergeRoutings none ts = some merged → (merged = none ↔ ts.filterMap (·.replyRouting) = []) ∧
        ∀ u, merged = some u → u.IsUnion (ts.filterMap (·.replyRouting))) ∧ (∀ us : List Token, us.Perm ts →
      (mergeRoutings none us).map (Option.map ReplyRouting.view) =
        (mergeRoutings none ts).map (Option.map ReplyRouting.view)) ∧ ∀ us : List Token, (∀ t ∈ us, t ∈ ts) →
      (mergeRoutings none (ts ++ us)).map (Option.map ReplyRouting.view) =
        (mergeRoutings none ts).map (Option.map ReplyRouting.view) := by
  have hspec := PartialUnion.foldMerge_spec merges_replyRouting (ts.filterMap (·.replyRouting))
  rw [← mergeRoutings_eq] at hspec
  have hconflict : ¬ PartialUnion.Consistent ((ts.filterMap (·.replyRouting)).map ReplyRouting.facts) ↔
      ∃ r ∈ ts.filterMap (·.replyRouting), ∃ r' ∈ ts.filterMap (·.replyRouting), r.Conflicts r' := by
    simp only [PartialUnion.Consistent, List.forall_mem_map, ReplyRouting.agree_iff, not_forall, not_not, exists_prop]
  have hsame : ∀ us : List Token, (∀ t, t ∈ us ↔ t ∈ ts) →
      (mergeRoutings none us).map (Option.map ReplyRouting.view) =
        (mergeRoutings none ts).map (Option.map ReplyRouting.view) := by
    intro us hmem
    have hrouting : ∀ r, r ∈ us.filterMap (·.replyRouting) ↔ r ∈ ts.filterMap (·.replyRouting) := fun r => by
      simp only [List.mem_filterMap, hmem]
    rw [mergeRoutings_eq, mergeRoutings_eq]
    exact map_view_eq_of_map_facts_eq (PartialUnion.foldMerge_congr merges_replyRouting hrouting)
  refine ⟨?_, ?_, fun us hperm => hsame us fun t => hperm.mem_iff, fun us hus => hsame _ fun t => ?_⟩
  · rw [← hconflict]
    constructor
    · intro hnone
      rwa [hnone] at hspec
    · intro hnot
      rcases hmerge : mergeRoutings none ts with - | - | u
      · rfl
      · rw [hmerge] at hspec
        exact absurd (by rw [show _ = [] from hspec]; simp [PartialUnion.Consistent]) hnot
      · rw [hmerge] at hspec
        exact absurd hspec.2.1 hnot
  · intro merged hmerge
    rw [hmerge] at hspec
    cases merged with
    | none => exact ⟨iff_of_true rfl (List.map_eq_nil_iff.mp hspec), fun u hu => absurd hu (by simp)⟩
    | some u =>
      refine ⟨iff_of_false (by simp) fun hnil => hspec.1 (List.map_eq_nil_iff.mpr hnil), fun u' hu => ?_⟩
      cases hu
      exact ReplyRouting.isUnion_of_facts hspec.2.2
  · rw [List.mem_append]
    exact or_iff_left_of_imp (hus t)

/-! ## In a binding -/

section Binding

variable {arcs : List ArcTokens} {transition : Transition} {schemaRegistry : Option SchemaRegistry}
  {b b' b'' : TokenBinding}

/-- From one binding to the next, the routings of tokens of consuming arcs were merged in. -/
def Merged (arcs : List ArcTokens) (b b' : TokenBinding) : Prop :=
  ∃ ts : List Token, (∀ t ∈ ts, ∃ a ∈ arcs, a.arc.read = false ∧ t ∈ a.tokens) ∧
    mergeRoutings b.consumedReplyRouting ts = some b'.consumedReplyRouting

theorem mergeRoutings_append (ts ts' : List Token) (routing : Option ReplyRouting) :
    mergeRoutings routing (ts ++ ts') = (mergeRoutings routing ts).bind fun r => mergeRoutings r ts' := by
  induction ts generalizing routing with
  | nil => rfl
  | cons t ts ih =>
    cases hr : t.replyRouting with
    | none => simpa only [List.cons_append, mergeRoutings, hr] using ih routing
    | some incoming =>
      cases routing with
      | none => simpa only [List.cons_append, mergeRoutings, hr] using ih _
      | some existing =>
        simp only [List.cons_append, mergeRoutings, hr]
        cases mergeReplyRouting existing incoming with
        | none => rfl
        | some merged => exact ih _

theorem Merged.refl (arcs : List ArcTokens) (b : TokenBinding) : Merged arcs b b := ⟨[], by simp, rfl⟩

theorem Merged.trans (h : Merged arcs b b') (h' : Merged arcs b' b'') : Merged arcs b b'' := by
  obtain ⟨ts, hts, hmerge⟩ := h
  obtain ⟨ts', hts', hmerge'⟩ := h'
  refine ⟨ts ++ ts', List.forall_mem_append.mpr ⟨hts, hts'⟩, ?_⟩
  rw [mergeRoutings_append, hmerge]
  exact hmerge'

theorem merged_foldlM : ∀ {indexed : List (ArcTokens × Nat)} {b b' : TokenBinding}, (∀ a ∈ indexed, a.1 ∈ arcs) →
    indexed.foldlM (bindArc transition schemaRegistry) b = some b' → Merged arcs b b'
  | [], b, _, _, h => Option.some.inj h ▸ Merged.refl arcs b
  | a :: indexed, b, b', harcs, h => by
    rw [List.forall_mem_cons] at harcs
    rw [List.foldlM_cons] at h
    obtain ⟨next, hnext, hrest⟩ := Option.bind_eq_some_iff.mp h
    obtain ⟨taken, hbound⟩ := exists_arcBound hnext
    obtain ⟨ts, hts, hmerge⟩ := hbound.merges
    have hstep : Merged arcs b next := ⟨ts, fun t ht => ⟨a.1, harcs.1, hts t ht⟩, hmerge⟩
    exact hstep.trans (merged_foldlM harcs.2 hrest)

/-- **What a binding carries is a merge of the routings of tokens that it may consume.** -/
theorem exists_mergeRoutings_of_build {indices : List Nat}
    (h : buildBindingForIndices transition schemaRegistry arcs indices = some b) :
    ∃ ts : List Token, (∀ t ∈ ts, ∃ a ∈ arcs, a.arc.read = false ∧ t ∈ a.tokens) ∧
      mergeRoutings none ts = some b.consumedReplyRouting := by
  obtain ⟨first, hfirst, hrest⟩ := Option.bind_eq_some_iff.mp h
  have harcs : ∀ a ∈ arcs.zip indices, a.1 ∈ arcs := fun a ha => (List.of_mem_zip ha).1
  exact (merged_foldlM (fun a ha => harcs a (List.mem_of_mem_filter ha)) hfirst).trans
    (merged_foldlM (fun a ha => harcs a (List.mem_of_mem_filter ha)) hrest)

end Binding

end Mekhan
