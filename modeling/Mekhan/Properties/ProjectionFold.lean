import Mekhan.Infra.Runs
import Mekhan.Projections.Framework

/-!
# Every event folded once

A replay that stops early leaves a hole: the driver takes a gap between the last folded event and the
delivered one for events that a subject filter left out, folds the delivered event over it and
acknowledges it. An empty replay looks like one of the event 0, which is then not folded at all.
-/

namespace Mekhan

namespace ProjectionFold

open Infra Projections

variable {S : Type} {p : Projection S} {log : List PersistedEvent}

def foldLog (p : Projection S) (log : List PersistedEvent) : S := log.foldl p.absorb p.init

/-- Sequence numbers are strictly increasing. -/
def Numbered (log : List PersistedEvent) : Prop := log.Pairwise (·.sequence < ·.sequence)

/-! ## Sequences and positions -/

variable {i j : Nat} {a b : PersistedEvent}

theorem Numbered.sequence_lt (h : Numbered log) (ha : log[i]? = some a)
    (hb : log[j]? = some b) (hij : i < j) : a.sequence < b.sequence := by
  obtain ⟨hi, rfl⟩ := List.getElem?_eq_some_iff.mp ha
  obtain ⟨hj, rfl⟩ := List.getElem?_eq_some_iff.mp hb
  exact List.pairwise_iff_getElem.mp h i j hi hj hij

theorem Numbered.le_iff (h : Numbered log) (ha : log[i]? = some a)
    (hb : log[j]? = some b) : a.sequence ≤ b.sequence ↔ i ≤ j := by
  constructor
  · intro hle
    by_contra hlt
    have := h.sequence_lt hb ha (by omega)
    omega
  · intro hle
    rcases Nat.lt_or_eq_of_le hle with hlt | rfl
    · exact (h.sequence_lt ha hb hlt).le
    · rw [Option.some.inj (ha.symm.trans hb)]

variable {ev : PersistedEvent} {k n : Nat} {acked : List PersistedEvent} {entry : NetEntry S}
  {net : NetFold S}

theorem getElem?_idxOf (h : ev ∈ log) : log[log.idxOf ev]? = some ev := by
  rw [List.getElem?_eq_getElem (List.idxOf_lt_length_of_mem h), List.getElem_idxOf]

theorem foldLog_take_succ (h : log[n]? = some ev) :
    foldLog p (log.take (n + 1)) = p.absorb (foldLog p (log.take n)) ev := by
  unfold foldLog
  rw [List.take_add_one, h, List.foldl_append]
  rfl

theorem streamEvents_take (h : Numbered log) {n : Nat} {last : PersistedEvent} (hlast : log[n]? = some last) :
    streamEvents (log.take (n + 1)) p.absorb p.init = (foldLog p (log.take (n + 1)), last.sequence) := by
  have hfold : ∀ (l : List PersistedEvent) (s : S) (k : Nat),
      l.foldl (fun acc ev => (p.absorb acc.1 ev, max acc.2 ev.sequence)) (s, k) =
        (l.foldl p.absorb s, l.foldl (fun k ev => max k ev.sequence) k) := by
    intro l
    induction l with
    | nil => exact fun s k => rfl
    | cons ev l ih => exact fun s k => ih _ _
  have hmax : ∀ n last, log[n]? = some last →
      (log.take (n + 1)).foldl (fun k ev => max k ev.sequence) 0 = last.sequence := by
    intro n
    induction n with
    | zero =>
      intro last hlast
      rw [List.take_add_one, hlast]
      simp
    | succ n ih =>
      intro last hlast
      have hlt : n < log.length := by
        have := (List.getElem?_eq_some_iff.mp hlast).1
        omega
      have hn : log[n]? = some log[n] := List.getElem?_eq_getElem hlt
      have hle := (h.le_iff hn hlast).mpr (Nat.le_succ n)
      rw [List.take_add_one, hlast, List.foldl_append, ih _ hn]
      exact Nat.max_eq_right hle
  unfold streamEvents foldLog
  rw [hfold, hmax n last hlast]

/-! ## A net -/

/-- The entry is the fold of the first `n` events of the log, of which there is one. -/
structure FoldedTo (p : Projection S) (log : List PersistedEvent) (n : Nat) (entry : NetEntry S) : Prop where
  state : entry.state = foldLog p (log.take n)
  last : ∃ ev, log[n - 1]? = some ev ∧ ev.sequence = entry.lastApplied
  pos : 0 < n

/-- What holds of a net between two of its events, `k` of which were delivered. -/
structure NetInv (p : Projection S) (log : List PersistedEvent) (k : Nat) (net : NetFold S)
    (acked : List PersistedEvent) : Prop where
  delivered : k ≤ log.length
  seen : ∀ ev ∈ acked, ev ∈ log.take k
  cached : ∀ entry ∈ net.entry, ∃ n, k ≤ n ∧ FoldedTo p log n entry ∧ net.rows = some entry.state
  known : ∀ s ∈ net.rows, ∃ n, s = foldLog p (log.take n) ∧ ∀ ev ∈ acked, ev ∈ log.take n
  unknown : net.rows = none → ∃ ev ∈ log, ev ∉ acked

theorem NetInv.complete (h : NetInv p log k net acked)
    (hnum : Numbered log) (hall : ∀ ev ∈ log, ev ∈ acked) : net.rows = some (foldLog p log) := by
  cases hrows : net.rows with
  | none =>
    obtain ⟨ev, hev, hnot⟩ := h.unknown hrows
    exact absurd (hall ev hev) hnot
  | some s =>
    obtain ⟨n, rfl, hacked⟩ := h.known s hrows
    have htake : log.take n = log := by
      rw [List.take_eq_self_iff]
      by_contra hlt
      have hn : log[n]? = some log[n] := List.getElem?_eq_getElem (by omega)
      have hmem := hacked _ (hall _ (List.mem_of_getElem? hn))
      obtain ⟨i, hi⟩ := List.mem_iff_getElem?.mp hmem
      rw [List.getElem?_take] at hi
      split at hi
      case isFalse => cases hi
      case isTrue hin =>
        have := (hnum.le_iff hn hi).mp le_rfl
        omega
    rw [htake]

theorem mem_take_of_idxOf (hev : ev ∈ log) (h : log.idxOf ev < n) : ev ∈ log.take n := by
  refine List.mem_of_getElem? (i := log.idxOf ev) ?_
  rw [List.getElem?_take, if_pos h]
  exact getElem?_idxOf hev

theorem mem_take_mono {m : Nat} (h : m ≤ n) (hev : ev ∈ log.take m) : ev ∈ log.take n :=
  List.take_subset_take_left log h hev

/-- An event was folded on an entry of the first `n`, which is all that was delivered, and it too. -/
theorem netInv_folded (hk : k ≤ log.length) (hacked : ∀ e ∈ acked, e ∈ log.take k) (hev : ev ∈ log)
    (hn : max k (log.idxOf ev + 1) ≤ n) (hentry : FoldedTo p log n entry) :
    NetInv p log (max k (log.idxOf ev + 1)) (folded ev entry) (ev :: acked) := by
  have hlt := List.idxOf_lt_length_of_mem hev
  have hall : ∀ e ∈ ev :: acked, e ∈ log.take (max k (log.idxOf ev + 1)) := by
    intro e he
    rcases List.mem_cons.mp he with rfl | he
    · exact mem_take_of_idxOf hev (by omega)
    · exact mem_take_mono (by omega) (hacked e he)
  constructor
  case delivered => omega
  case seen => exact hall
  case cached =>
    intro e he
    refine ⟨n, hn, ?_⟩
    unfold folded at he ⊢
    dsimp only at he ⊢
    split at he
    · cases he
    · cases he
      exact ⟨hentry, rfl⟩
  case known =>
    intro s hs
    cases hs
    exact ⟨n, hentry.state, fun e he => mem_take_mono hn (hall e he)⟩
  case unknown => exact fun hnone => by cases hnone

/-- The replay that a bootstrap would get has all that was delivered before, and at least one event. -/
def Replays (k : Nat) (net : NetFold S) (a : Attempt) : Prop :=
  net.entry = none → k ≤ a.history ∧ 0 < a.history

theorem FoldedTo.apply (h : FoldedTo p log n entry)
    (hev : log[n]? = some ev) : FoldedTo p log (n + 1) ⟨ev.sequence, p.absorb entry.state ev⟩ where
  state := by rw [foldLog_take_succ hev, h.state]
  last := ⟨ev, hev, rfl⟩
  pos := Nat.succ_pos n

/-- An event past the entry is the next one of the log, where the entry has all that was delivered. -/
theorem FoldedTo.idxOf_eq (hnum : Numbered log)
    (h : FoldedTo p log n entry) (hev : ev ∈ log) (hk : k ≤ n) (hidx : log.idxOf ev ≤ k)
    (hlt : entry.lastApplied < ev.sequence) : log.idxOf ev = n ∧ k = n := by
  obtain ⟨last, hlast, hseq⟩ := h.last
  have hpos := h.pos
  have hnot : ¬ log.idxOf ev ≤ n - 1 := by
    rw [← hnum.le_iff (getElem?_idxOf hev) hlast]
    omega
  omega

theorem FoldedTo.idxOf_lt (hnum : Numbered log)
    (h : FoldedTo p log n entry) (hev : ev ∈ log) (hle : ev.sequence ≤ entry.lastApplied) :
    log.idxOf ev < n := by
  obtain ⟨last, hlast, hseq⟩ := h.last
  have hpos := h.pos
  have := (hnum.le_iff (getElem?_idxOf hev) hlast).mp (by omega)
  omega

theorem foldedTo_replay {a : Attempt} (hnum : Numbered log) (hlog : log ≠ []) (hk : k ≤ log.length)
    (hhistory : k ≤ a.history ∧ 0 < a.history) : ∃ n entry, k ≤ n ∧ FoldedTo p log n entry ∧
      streamEvents (log.take a.history) p.absorb p.init = (entry.state, entry.lastApplied) := by
  have hlength := List.length_pos_iff.mpr hlog
  obtain ⟨n, hn⟩ : ∃ n, min a.history log.length = n + 1 := ⟨min a.history log.length - 1, by omega⟩
  have htake : log.take a.history = log.take (n + 1) := by
    rw [← hn]
    rcases Nat.le_total a.history log.length with hle | hle
    · rw [Nat.min_eq_left hle]
    · rw [Nat.min_eq_right hle, List.take_of_length_le hle, List.take_length]
  have hlast : log[n]? = some log[n] := List.getElem?_eq_getElem (by omega)
  refine ⟨n + 1, ⟨_, foldLog p (log.take (n + 1))⟩, by omega, ⟨rfl, ⟨_, hlast, rfl⟩, Nat.succ_pos n⟩, ?_⟩
  rw [htake, streamEvents_take hnum hlast]

/-- **An event that is processed is folded once, whatever came before.** -/
theorem netInv_step {net' : NetFold S}
    {a : Attempt} (hnum : Numbered log) (h : NetInv p log k net acked) (hev : ev ∈ log)
    (hidx : log.idxOf ev ≤ k) (hreplays : Replays k net a) (hs : stepEvent p log a net ev = some net') :
    NetInv p log (max k (log.idxOf ev + 1)) net' (ev :: acked) := by
  have happly : ∀ {n : Nat} {entry : NetEntry S}, k ≤ n → FoldedTo p log n entry →
      entry.lastApplied < ev.sequence → applyEvent p a entry ev = some net' →
        NetInv p log (max k (log.idxOf ev + 1)) net' (ev :: acked) := by
    intro n entry hkn hentry hlt hs
    obtain ⟨hn, -⟩ := hentry.idxOf_eq hnum hev hkn hidx hlt
    unfold applyEvent at hs
    split at hs
    case isFalse => cases hs
    case isTrue =>
      cases hs
      have hnext : log[n]? = some ev := hn ▸ getElem?_idxOf hev
      exact netInv_folded h.delivered h.seen hev (by omega) (hentry.apply hnext)
  cases hentry : net.entry with
  | some entry =>
    obtain ⟨n, hkn, hfolded, hrows⟩ := h.cached entry hentry
    unfold stepEvent classify at hs
    rw [hentry] at hs
    dsimp only [Option.map_some] at hs
    by_cases hle : ev.sequence ≤ entry.lastApplied
    · rw [if_pos hle] at hs
      cases hs
      have hn := hfolded.idxOf_lt hnum hev hle
      have heq : ({ net with entry := if isTerminal ev.event then none else some entry } : NetFold S) =
          folded ev entry := by
        unfold folded
        rw [hrows]
      rw [heq]
      exact netInv_folded h.delivered h.seen hev (by omega) hfolded
    · rw [if_neg hle] at hs
      exact happly hkn hfolded (by omega) hs
  | none =>
    obtain ⟨n, entry, hkn, hfolded, hstream⟩ :=
      foldedTo_replay (p := p) hnum (List.ne_nil_of_mem hev) h.delivered (hreplays hentry)
    unfold stepEvent at hs
    rw [hentry, hstream] at hs
    dsimp only [Option.map_none] at hs
    split at hs
    case isFalse => cases hs
    case isTrue =>
      split at hs
      case isTrue hlt => exact happly hkn hfolded hlt hs
      case isFalse hle =>
        cases hs
        have hn := hfolded.idxOf_lt hnum hev (by omega)
        exact netInv_folded h.delivered h.seen hev (by omega) hfolded

/-! ## A group -/

/-- Each replay of a group has what was delivered before. -/
def GroupReplays (p : Projection S) (log : List PersistedEvent) :
    Nat → NetFold S → List (PersistedEvent × Attempt) → Prop
  | _, _, [] => True
  | k, net, (ev, a) :: items => Replays k net a ∧
      ∀ net' ∈ stepEvent p log a net ev, GroupReplays p log (max k (log.idxOf ev + 1)) net' items

theorem NetInv.subset {acked' : List PersistedEvent}
    (h : NetInv p log k net acked) (hsub : ∀ ev ∈ acked', ev ∈ acked) : NetInv p log k net acked' where
  delivered := h.delivered
  seen ev hev := h.seen ev (hsub ev hev)
  cached := h.cached
  known s hs := by
    obtain ⟨n, hn, hacked⟩ := h.known s hs
    exact ⟨n, hn, fun ev hev => hacked ev (hsub ev hev)⟩
  unknown hnone := by
    obtain ⟨ev, hev, hnot⟩ := h.unknown hnone
    exact ⟨ev, hev, fun hmem => hnot (hsub ev hmem)⟩

theorem deliveredAfter_bounds : ∀ {evs : List PersistedEvent} {k : Nat}, k ≤ log.length →
    Deliverable log k evs → k ≤ deliveredAfter log k evs ∧ deliveredAfter log k evs ≤ log.length ∧
      ∀ ev ∈ evs, ev ∈ log.take (deliveredAfter log k evs)
  | [], k, hk, _ => ⟨le_rfl, hk, fun ev hev => absurd hev List.not_mem_nil⟩
  | ev :: evs, k, hk, ⟨hev, _, hrest⟩ => by
    have hlt := List.idxOf_lt_length_of_mem hev
    obtain ⟨hle, hlength, hall⟩ := deliveredAfter_bounds (k := max k (log.idxOf ev + 1)) (by omega) hrest
    have hcons : deliveredAfter log k (ev :: evs) = deliveredAfter log (max k (log.idxOf ev + 1)) evs := rfl
    rw [hcons]
    refine ⟨by omega, hlength, fun e he => ?_⟩
    rcases List.mem_cons.mp he with rfl | he
    · exact mem_take_of_idxOf hev (by omega)
    · exact hall e he

/-- **A group leaves its net as it should be.** -/
theorem netInv_group (hnum : Numbered log) : ∀ {items : List (PersistedEvent × Attempt)} {k : Nat}
    {net : NetFold S} {acked : List PersistedEvent}, NetInv p log k net acked →
      Deliverable log k (items.map (·.1)) → GroupReplays p log k net items →
        NetInv p log (deliveredAfter log k (items.map (·.1))) (processGroup p log net items).1
          ((acked ++ items.map (·.1)).filter (· ∉ (processGroup p log net items).2))
  | [], k, net, acked, h, _, _ => h.subset fun ev hev => by
      have hmem := (List.mem_filter.mp hev).1
      rwa [List.map_nil, List.append_nil] at hmem
  | (ev, a) :: items, k, net, acked, h, hdeliver, hreplays => by
    have hbounds := deliveredAfter_bounds h.delivered hdeliver
    obtain ⟨hev, hidx, hrest⟩ := hdeliver
    unfold processGroup
    cases hstep : stepEvent p log a net ev with
    | some net' =>
      have hafter := netInv_step hnum h hev hidx hreplays.1 hstep
      have hgroup := netInv_group hnum hafter hrest (hreplays.2 net' hstep)
      refine hgroup.subset fun e he => ?_
      obtain ⟨hmem, hkeep⟩ := List.mem_filter.mp he
      refine List.mem_filter.mpr ⟨?_, hkeep⟩
      rcases List.mem_append.mp hmem with hold | hnew
      · exact List.mem_append_left _ (List.mem_cons_of_mem _ hold)
      · rcases List.mem_cons.mp hnew with rfl | hitem
        · exact List.mem_append_left _ List.mem_cons_self
        · exact List.mem_append_right _ hitem
    | none =>
      obtain ⟨hle, hlength, hall⟩ := hbounds
      constructor
      case delivered => exact hlength
      case seen =>
        intro e he
        rcases List.mem_append.mp (List.mem_filter.mp he).1 with hold | hitem
        · exact mem_take_mono hle (h.seen e hold)
        · exact hall e hitem
      case cached => exact fun entry hentry => by cases hentry
      case known => exact fun s hs => by cases hs
      case unknown =>
        intro _
        refine ⟨ev, hev, fun hmem => ?_⟩
        exact of_decide_eq_true (List.mem_filter.mp hmem).2 List.mem_cons_self

/-! ## Grouping a batch -/

section

variable {M : Type}

def itemsOf (groups : List (NetGroup M)) (netId : String) : List M :=
  ((groups.find? (·.netId = netId)).map (·.items)).getD []

theorem itemsOf_addToGroup (groups : List (NetGroup M)) (net : String) (item : M) (netId : String) :
    itemsOf (addToGroup groups net item) netId =
      itemsOf groups netId ++ if net = netId then [item] else [] := by
  have hmap : ∀ l : List (NetGroup M),
      (l.map fun g => if g.netId = net then { g with items := g.items ++ [item] } else g).find?
        (·.netId = netId) = (l.find? (·.netId = netId)).map
          fun g => if g.netId = net then { g with items := g.items ++ [item] } else g := by
    intro l
    rw [List.find?_map]
    congr 1
    refine congrArg (fun f => l.find? f) (funext fun g => ?_)
    dsimp only [Function.comp_apply]
    split <;> rfl
  unfold itemsOf addToGroup
  split
  case isTrue hany =>
    rw [hmap]
    cases hfind : groups.find? (·.netId = netId) with
    | none =>
      have hne : net ≠ netId := by
        rintro rfl
        obtain ⟨g, hg, hid⟩ := List.any_eq_true.mp hany
        exact List.find?_eq_none.mp hfind g hg hid
      rw [if_neg hne]
      rfl
    | some g =>
      have hid : g.netId = netId := by simpa using List.find?_some hfind
      rw [Option.map_some, Option.map_some, Option.map_some, Option.getD_some, Option.getD_some, hid]
      by_cases hne : netId = net
      · rw [if_pos hne, if_pos hne.symm]
      · rw [if_neg hne, if_neg (Ne.symm hne), List.append_nil]
  case isFalse hnone =>
    rw [List.find?_append]
    cases hfind : groups.find? (·.netId = netId) with
    | some g =>
      have hid : g.netId = netId := by simpa using List.find?_some hfind
      have hne : net ≠ netId := by
        rintro rfl
        exact hnone (List.any_eq_true.mpr ⟨g, List.mem_of_find?_eq_some hfind, decide_eq_true hid⟩)
      rw [if_neg hne, List.append_nil]
      rfl
    | none =>
      by_cases hne : net = netId
      · simp [hne]
      · simp [hne]

/-- **A batch's groups have each net's messages, in arrival order.** -/
theorem itemsOf_planBatch (msgs : List (String × M)) (netId : String) :
    itemsOf (planBatch msgs) netId = (msgs.filter (·.1 = netId)).map (·.2) := by
  have hfold : ∀ (msgs : List (String × M)) (groups : List (NetGroup M)),
      itemsOf (msgs.foldl (fun gs msg => addToGroup gs msg.1 msg.2) groups) netId =
        itemsOf groups netId ++ (msgs.filter (·.1 = netId)).map (·.2) := by
    intro msgs
    induction msgs with
    | nil => exact fun groups => (List.append_nil _).symm
    | cons msg msgs ih =>
      intro groups
      rw [List.foldl_cons, ih, itemsOf_addToGroup, List.append_assoc, List.filter_cons]
      by_cases hnet : msg.1 = netId
      · rw [if_pos hnet, if_pos (decide_eq_true hnet)]
        rfl
      · rw [if_neg hnet, if_neg (by simpa using hnet)]
        rfl
  exact hfold msgs []

end

/-! ## The cache -/

section

variable {V : Type}

variable {key : String} {w : V}

theorem lookup_filter {k : String} {l : List (String × Nat × V)} :
    (l.filter (·.1 ≠ k)).lookup key = if key = k then none else l.lookup key := by
  induction l with
  | nil => simp
  | cons e l ih =>
    obtain ⟨k', v⟩ := e
    rw [List.filter_cons]
    by_cases hk : k' = k
    · rw [if_neg (by simpa using hk), ih]
      split
      case isTrue => rfl
      case isFalse hne =>
        have hne' : (key == k') = false := by simpa [hk] using hne
        rw [List.lookup_cons, hne']
    · rw [if_pos (by simpa using hk), List.lookup_cons, List.lookup_cons, ih]
      by_cases hkey : key = k'
      · have hne : key ≠ k := fun h => hk (hkey.symm.trans h)
        simp [hkey, hk]
      · have hbeq : (key == k') = false := by simpa using hkey
        rw [hbeq]

theorem get?_remove (c : LruNetCache V) (key k : String) :
    (c.remove k).get? key = if key = k then none else c.get? key := by
  unfold LruNetCache.get? LruNetCache.remove
  dsimp only
  rw [lookup_filter]
  split <;> rfl

theorem get?_insert {c : LruNetCache V} {k : String} {v : V}
    (h : (c.insert k v).get? key = some w) : (key = k ∧ v = w) ∨ (key ≠ k ∧ c.get? key = some w) := by
  have hevict : ∀ c' : LruNetCache V, (c' = c ∨ ∃ k', c' = c.remove k') →
      ((c'.map.filter (·.1 ≠ k)).lookup key).map (·.2) = some w → key ≠ k ∧ c.get? key = some w := by
    intro c' hc' hw
    rw [lookup_filter] at hw
    split at hw
    case isTrue => cases hw
    case isFalse hne =>
      refine ⟨hne, ?_⟩
      rcases hc' with rfl | ⟨k', rfl⟩
      · exact hw
      · have hremove : (c.remove k').get? key = some w := hw
        rw [get?_remove] at hremove
        split at hremove
        · cases hremove
        · exact hremove
  unfold LruNetCache.insert LruNetCache.get? at h
  dsimp only at h
  rw [List.lookup_cons] at h
  by_cases hkey : key = k
  · rw [show (key == k) = true by simpa using hkey] at h
    exact .inl ⟨hkey, Option.some.inj h⟩
  · rw [show (key == k) = false by simpa using hkey] at h
    refine .inr (hevict _ ?_ h)
    split
    case isFalse => exact .inl rfl
    case isTrue =>
      split
      case h_1 k' _ => exact .inr ⟨k', rfl⟩
      case h_2 => exact .inl rfl

/-- What is in the cache after the groups' entries were put back is one of these or was there before. -/
theorem get?_putBack {f : String → Option V} (finish : List String) :
    ∀ {c : LruNetCache V}, (c.putBack finish f).get? key = some w → f key = some w ∨ c.get? key = some w := by
  unfold LruNetCache.putBack
  induction finish with
  | nil => exact fun h => .inr h
  | cons k finish ih =>
    intro c h
    rw [List.foldl_cons] at h
    rcases ih h with hf | hc
    · exact .inl hf
    · cases hk : f k with
      | none =>
        rw [hk] at hc
        exact .inr hc
      | some v =>
        rw [hk] at hc
        rcases get?_insert hc with ⟨rfl, rfl⟩ | ⟨-, hold⟩
        · exact .inl hk
        · exact .inr hold

theorem get?_removeAll {M : Type} (groups : List (NetGroup M)) :
    ∀ {c : LruNetCache V}, (groups.foldl (fun c g => c.remove g.netId) c).get? key = some w →
      c.get? key = some w ∧ groups.find? (·.netId = key) = none := by
  induction groups with
  | nil => exact fun h => ⟨h, rfl⟩
  | cons g groups ih =>
    intro c h
    obtain ⟨hc, hnone⟩ := ih h
    rw [get?_remove] at hc
    split at hc
    case isTrue => cases hc
    case isFalse hne =>
      refine ⟨hc, ?_⟩
      rw [List.find?_cons_of_neg (by simpa using Ne.symm hne)]
      exact hnone

end

/-! ## The driver -/

variable {logs : String → List PersistedEvent} {d d' : Driver S}

/-- Each replay of a batch has what was delivered of its net before, and at least one event. -/
def Replayed (p : Projection S) (logs : String → List PersistedEvent) (d : Driver S) : DriverAction → Prop
  | .batch msgs _ => ∀ netId, p.wantsNet netId → GroupReplays p (logs netId) (d.delivered netId)
      ⟨d.cache.get? netId, d.rows netId⟩ ((msgs.filter (·.1 = netId)).map (·.2))
  | .restart => True

/-- What holds of every net between two batches. -/
def DriverInv (p : Projection S) (logs : String → List PersistedEvent) (d : Driver S) : Prop :=
  ∀ netId, NetInv p (logs netId) (d.delivered netId) ⟨d.cache.get? netId, d.rows netId⟩ (d.acked netId)

/-- The entry that a net's group ends with. -/
def endedWith (p : Projection S) (logs : String → List PersistedEvent) (d : Driver S)
    (groups : List (NetGroup (PersistedEvent × Attempt))) (netId : String) : Option (NetEntry S) :=
  (groups.find? (·.netId = netId)).bind fun g => (d.groupResult p logs g).1.entry

theorem NetInv.evict {entry entry' : Option (NetEntry S)} {rows : Option S}
    (h : NetInv p log k ⟨entry, rows⟩ acked)
    (hsub : ∀ e ∈ entry', entry = some e) : NetInv p log k ⟨entry', rows⟩ acked where
  delivered := h.delivered
  seen := h.seen
  cached e he := h.cached e (hsub e he)
  known := h.known
  unknown := h.unknown

theorem driverInv_start (p : Projection S) (logs : String → List PersistedEvent) (cap : Nat) :
    DriverInv p logs (Driver.start p cap) := by
  intro netId
  constructor
  case delivered => exact Nat.zero_le _
  case seen => exact fun ev hev => absurd hev List.not_mem_nil
  case cached => exact fun e he => by cases he
  case known =>
    intro s hs
    cases hs
    exact ⟨0, rfl, fun ev hev => absurd hev List.not_mem_nil⟩
  case unknown => exact fun hnone => by cases hnone

theorem driverInv_step {act : DriverAction} (hnum : ∀ netId, Numbered (logs netId)) (h : DriverInv p logs d)
    (hcond : Replayed p logs d act) (hs : d.step p logs act = some d') : DriverInv p logs d' := by
  cases act with
  | restart =>
    cases hs
    exact fun netId => (h netId).evict fun e he => by cases he
  | batch msgs finish =>
    unfold Driver.step at hs
    dsimp only at hs
    split at hs
    case isFalse => cases hs
    case isTrue hready =>
      cases hs
      intro netId
      unfold Driver.runBatch
      dsimp only
      generalize hgroups : planBatch (msgs.filter fun msg => p.wantsNet msg.1) = groups at hready
      have hitems : itemsOf groups netId =
          ((msgs.filter fun msg => p.wantsNet msg.1).filter (·.1 = netId)).map (·.2) := by
        rw [← hgroups, itemsOf_planBatch]
      have hcache : ∀ e, ((groups.foldl (fun c g => c.remove g.netId) d.cache).putBack finish
          (endedWith p logs d groups)).get? netId = some e → endedWith p logs d groups netId = some e ∨
            (d.cache.get? netId = some e ∧ groups.find? (·.netId = netId) = none) := fun e he =>
        (get?_putBack finish he).imp_right (get?_removeAll groups)
      cases hgroup : groups.find? (·.netId = netId) with
      | none =>
        refine (h netId).evict fun e he => ?_
        rcases hcache e he with hnew | ⟨hold, -⟩
        · unfold endedWith at hnew
          rw [hgroup] at hnew
          cases hnew
        · exact hold
      | some g =>
        have hid : g.netId = netId := by simpa using List.find?_some hgroup
        subst hid
        have hitems' : g.items = ((msgs.filter fun msg => p.wantsNet msg.1).filter (·.1 = g.netId)).map (·.2) := by
          rw [← hitems, itemsOf, hgroup]
          rfl
        have hreplays : GroupReplays p (logs g.netId) (d.delivered g.netId)
            ⟨d.cache.get? g.netId, d.rows g.netId⟩ g.items := by
          rw [hitems', List.filter_filter]
          by_cases hwants : p.wantsNet g.netId
          · have hfilter : (fun msg : String × PersistedEvent × Attempt =>
                decide (msg.1 = g.netId) && p.wantsNet msg.1) = fun msg => decide (msg.1 = g.netId) := by
              funext msg
              by_cases hnet : msg.1 = g.netId
              · rw [hnet, hwants, Bool.and_true]
              · rw [decide_eq_false hnet, Bool.false_and]
            rw [hfilter]
            exact hcond g.netId hwants
          · rw [List.filter_eq_nil_iff.mpr]
            · trivial
            · intro msg _ hboth
              obtain ⟨hnet, hmsg⟩ := Bool.and_eq_true_iff.mp hboth
              exact hwants (of_decide_eq_true hnet ▸ hmsg)
        have hinv := netInv_group (hnum g.netId) (h g.netId)
          (hready.2 g (List.mem_of_find?_eq_some hgroup)) hreplays
        refine hinv.evict fun e he => ?_
        rcases hcache e he with hnew | ⟨-, hnone⟩
        · unfold endedWith at hnew
          rw [hgroup] at hnew
          exact hnew
        · exact absurd (hgroup.symm.trans hnone) nofun

/-- **A net whose events are all acknowledged has the rows of the fold of its log, each event counted
once, where no replay stopped short of what was delivered.** -/
theorem projection_complete (p : Projection S) (logs : String → List PersistedEvent) (cap : Nat)
    (hnum : ∀ netId, Numbered (logs netId)) {run : List DriverAction}
    (hrun : Along (Driver.step p logs) (Replayed p logs) (Driver.start p cap) run)
    (hend : exec (Driver.step p logs) (Driver.start p cap) run = some d) (netId : String)
    (hall : ∀ ev ∈ logs netId, ev ∈ d.acked netId) : d.rows netId = some (foldLog p (logs netId)) :=
  (exec_invariant_along (fun _ _ _ h hcond hs => driverInv_step hnum h hcond hs)
    (driverInv_start p logs cap) hrun hend netId).complete (hnum netId) hall

/-! ## Short replays -/

def sequences : Projection (List Nat) := ⟨fun netId => netId = "n", [], fun s ev => s ++ [ev.sequence]⟩

def event (sequence : Nat) : PersistedEvent := ⟨sequence, ⟨0⟩, .errorOccurred "", "", none⟩

/-- A message of the net, with a replay of so many events. -/
def message (sequence history : Nat) : String × PersistedEvent × Attempt :=
  ("n", event sequence, ⟨history, true, true⟩)

/-- Both events in one batch, with a replay that has them. -/
theorem projection_complete_batch : ∃ d, exec (Driver.step sequences fun _ => [event 0, event 1])
    (Driver.start sequences 1) [.batch [message 0 2, message 1 2] ["n"]] = some d ∧ d.rows "n" = some [0, 1] := by
  have hrun : Along (Driver.step sequences fun _ => [event 0, event 1])
      (Replayed sequences fun _ => [event 0, event 1]) (Driver.start sequences 1)
      [.batch [message 0 2, message 1 2] ["n"]] := by
    refine ⟨fun netId hwants => ?_, fun _ _ => trivial⟩
    obtain rfl : netId = "n" := of_decide_eq_true hwants
    exact ⟨fun _ => by decide, fun net' _ => ⟨fun _ => by decide, fun _ _ => trivial⟩⟩
  have hnum : ∀ _ : String, Numbered [event 0, event 1] := fun _ => by
    unfold Numbered
    decide
  exact ⟨_, rfl, projection_complete sequences _ 1 hnum hrun rfl "n" (by decide)⟩

/-- An empty replay leaves out the event 0; and after a restart, a replay of one event leaves out the
second, which was acknowledged before. -/
theorem short_replay : (∃ d, exec (Driver.step sequences fun _ => [event 0]) (Driver.start sequences 1)
      [.batch [message 0 0] ["n"]] = some d ∧ (∀ ev ∈ [event 0], ev ∈ d.acked "n") ∧
        d.rows "n" ≠ some (foldLog sequences [event 0])) ∧
    ∃ d, exec (Driver.step sequences fun _ => [event 0, event 1, event 2]) (Driver.start sequences 1)
      [.batch [message 0 1, message 1 2] ["n"], .restart, .batch [message 2 1] ["n"]] = some d ∧
        (∀ ev ∈ [event 0, event 1, event 2], ev ∈ d.acked "n") ∧
          d.rows "n" ≠ some (foldLog sequences [event 0, event 1, event 2]) :=
  ⟨⟨_, rfl, by decide, by decide⟩, ⟨_, rfl, by decide, by decide⟩⟩

end ProjectionFold

end Mekhan
