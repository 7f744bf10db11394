import Mathlib.Order.Lattice

/-!
# Entries in the order of their keys

A map that is walked in the order of its keys is the list of its entries in that order. `insertEntry` takes
the place of the entry with the key.

* `mem_insertEntry` — what is in the list after an insertion.
* `sorted_insertEntry`, `sorted_insertAll` — the order stays.
-/

namespace Infra

variable {K V : Type*} [LinearOrder K]

/-- Each key once, in order. -/
def SortedEntries (l : List (K × V)) : Prop := l.Pairwise fun a b => a.1 < b.1

/-- Inserts in order, in place of an entry of the key. -/
def insertEntry (k : K) (v : V) : List (K × V) → List (K × V)
  | [] => [(k, v)]
  | e :: l => if k < e.1 then (k, v) :: e :: l else if k = e.1 then (k, v) :: l else e :: insertEntry k v l

def insertAll (l entries : List (K × V)) : List (K × V) := entries.foldl (fun l e => insertEntry e.1 e.2 l) l

variable {k : K} {v : V} {e e' : K × V} {l : List (K × V)}

theorem SortedEntries.tail (h : SortedEntries (e :: l)) : SortedEntries l := List.Pairwise.of_cons h

theorem SortedEntries.lt (h : SortedEntries (e :: l)) (he : e' ∈ l) : e.1 < e'.1 := List.rel_of_pairwise_cons h he

theorem sortedEntries_nil : SortedEntries ([] : List (K × V)) := List.Pairwise.nil

theorem SortedEntries.eq_of_mem : ∀ {l : List (K × V)}, SortedEntries l → e ∈ l → e' ∈ l → e.1 = e'.1 → e = e'
  | e₀ :: l, h, he, he', hkey => by
    cases List.mem_cons.mp he with
    | inl heq =>
      cases List.mem_cons.mp he' with
      | inl heq' => rw [heq, heq']
      | inr hmem' => exact absurd hkey (heq ▸ (h.lt hmem').ne)
    | inr hmem =>
      cases List.mem_cons.mp he' with
      | inl heq' => exact absurd hkey (heq' ▸ (h.lt hmem).ne')
      | inr hmem' => exact h.tail.eq_of_mem hmem hmem' hkey

theorem insertEntry_nil : insertEntry k v [] = [(k, v)] := rfl

theorem insertEntry_of_lt {k' : K} {v' : V} (h : k < k') :
    insertEntry k v ((k', v') :: l) = (k, v) :: (k', v') :: l := by
  rw [insertEntry, if_pos h]

theorem insertEntry_of_gt {k' : K} {v' : V} (h : k' < k) :
    insertEntry k v ((k', v') :: l) = (k', v') :: insertEntry k v l := by
  rw [insertEntry, if_neg h.asymm, if_neg h.ne']

theorem mem_insertEntry : ∀ {l : List (K × V)}, SortedEntries l →
    (e ∈ insertEntry k v l ↔ e = (k, v) ∨ (e ∈ l ∧ e.1 ≠ k))
  | [], _ => by simp [insertEntry]
  | e₀ :: l, h => by
    have htail : ∀ e ∈ l, e₀.1 < e.1 := fun e he => h.lt he
    rw [insertEntry]
    split
    · next hlt =>
      have hne : ∀ e ∈ e₀ :: l, e.1 ≠ k := by
        intro e he
        rcases List.mem_cons.mp he with rfl | he
        · exact hlt.ne'
        · exact (hlt.trans (htail e he)).ne'
      rw [List.mem_cons]
      exact or_congr_right ⟨fun he => ⟨he, hne e he⟩, And.left⟩
    · split
      · next heq =>
        subst heq
        rw [List.mem_cons, List.mem_cons]
        refine or_congr_right ⟨fun he => ⟨.inr he, (htail e he).ne'⟩, ?_⟩
        rintro ⟨rfl | he, hne⟩
        · exact absurd rfl hne
        · exact he
      · next hne =>
        rw [List.mem_cons, List.mem_cons, mem_insertEntry h.tail]
        constructor
        · rintro (rfl | rfl | ⟨he, hk⟩)
          · exact .inr ⟨.inl rfl, fun h => hne h.symm⟩
          · exact .inl rfl
          · exact .inr ⟨.inr he, hk⟩
        · rintro (rfl | ⟨rfl | he, hk⟩)
          · exact .inr (.inl rfl)
          · exact .inl rfl
          · exact .inr (.inr ⟨he, hk⟩)

theorem sorted_insertEntry : ∀ {l : List (K × V)}, SortedEntries l → SortedEntries (insertEntry k v l)
  | [], _ => List.pairwise_singleton _ _
  | e₀ :: l, h => by
    rw [insertEntry]
    split
    · next hlt =>
      refine List.Pairwise.cons ?_ h
      intro e he
      rcases List.mem_cons.mp he with rfl | he
      · exact hlt
      · exact hlt.trans (h.lt he)
    · split
      · next heq => exact List.Pairwise.cons (fun e he => heq ▸ h.lt he) h.tail
      · next hlt hne =>
        refine List.Pairwise.cons ?_ (sorted_insertEntry h.tail)
        intro e he
        rcases (mem_insertEntry h.tail).mp he with rfl | ⟨he, _⟩
        · exact lt_of_le_of_ne (not_lt.mp hlt) (fun h => hne h.symm)
        · exact h.lt he

theorem sorted_insertAll : ∀ {entries l : List (K × V)}, SortedEntries l → SortedEntries (insertAll l entries)
  | [], _, h => h
  | e :: entries, l, h => by
    rw [insertAll, List.foldl_cons]
    exact sorted_insertAll (sorted_insertEntry h)

theorem mem_insertEntry_of_ne (h : SortedEntries l) (hne : e.1 ≠ k) : e ∈ insertEntry k v l ↔ e ∈ l := by
  rw [mem_insertEntry h]
  constructor
  · rintro (rfl | ⟨he, _⟩)
    · exact absurd rfl hne
    · exact he
  · exact fun he => .inr ⟨he, hne⟩

theorem exists_mem_insertAll : ∀ {entries l : List (K × V)}, SortedEntries l →
    ((∃ v, (k, v) ∈ insertAll l entries) ↔ (∃ v, (k, v) ∈ l) ∨ ∃ v, (k, v) ∈ entries)
  | [], _, _ => by simp [insertAll]
  | e :: entries, l, h => by
    rw [insertAll, List.foldl_cons, ← insertAll, exists_mem_insertAll (sorted_insertEntry h)]
    have hfirst : (∃ v, (k, v) ∈ insertEntry e.1 e.2 l) ↔ (∃ v, (k, v) ∈ l) ∨ k = e.1 := by
      constructor
      · rintro ⟨v, hv⟩
        rcases (mem_insertEntry h).mp hv with heq | ⟨hmem, _⟩
        · exact .inr (Prod.mk.inj heq).1
        · exact .inl ⟨v, hmem⟩
      · rintro (⟨v, hv⟩ | rfl)
        · by_cases heq : k = e.1
          · exact ⟨e.2, (mem_insertEntry h).mpr (.inl (by rw [heq]))⟩
          · exact ⟨v, (mem_insertEntry h).mpr (.inr ⟨hv, heq⟩)⟩
        · exact ⟨e.2, (mem_insertEntry h).mpr (.inl rfl)⟩
    have hentries : (∃ v, (k, v) ∈ e :: entries) ↔ k = e.1 ∨ ∃ v, (k, v) ∈ entries := by
      constructor
      · rintro ⟨v, hv⟩
        rcases List.mem_cons.mp hv with heq | hv
        · exact .inl (congrArg Prod.fst heq)
        · exact .inr ⟨v, hv⟩
      · rintro (rfl | ⟨v, hv⟩)
        · exact ⟨e.2, List.mem_cons_self⟩
        · exact ⟨v, List.mem_cons_of_mem _ hv⟩
    rw [hfirst, hentries, or_assoc]

theorem mem_insertAll_const : ∀ {ks : List K} {l : List (K × V)}, SortedEntries l →
    (e ∈ insertAll l (ks.map fun k => (k, v)) ↔ (e.1 ∈ ks ∧ e.2 = v) ∨ (e ∈ l ∧ e.1 ∉ ks))
  | [], _, _ => by simp [insertAll]
  | k :: ks, l, h => by
    rw [List.map_cons, insertAll, List.foldl_cons, ← insertAll, mem_insertAll_const (sorted_insertEntry h),
      mem_insertEntry h, List.mem_cons]
    constructor
    · rintro (⟨hks, hv⟩ | ⟨rfl | ⟨hl, hk⟩, hks⟩)
      · exact .inl ⟨.inr hks, hv⟩
      · exact .inl ⟨.inl rfl, rfl⟩
      · exact .inr ⟨hl, fun hmem => hmem.elim hk hks⟩
    · rintro (⟨hk, hv⟩ | ⟨hl, hno⟩)
      · by_cases hks : e.1 ∈ ks
        · exact .inl ⟨hks, hv⟩
        · exact .inr ⟨.inl (Prod.ext (hk.resolve_right hks) hv), hks⟩
      · exact .inr ⟨.inr ⟨hl, fun hk => hno (.inl hk)⟩, fun hks => hno (.inr hks)⟩

end Infra
