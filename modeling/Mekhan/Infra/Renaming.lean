import Mathlib.Data.List.Perm.Basic

/-!
# Renaming, one rule after another

Rules rename names one after another, so a later rule may rename what an earlier one has written. The names stand
in a text as tokens, and a rule replaces text.
-/

namespace Infra

/-! ## Rules -/

/-- Some old names and the new one for all of them. -/
structure Renaming (α : Type) where
  old : List α
  new : α

namespace Renaming

variable {α : Type} [DecidableEq α]

def apply (r : Renaming α) (x : α) : α := if x ∈ r.old then r.new else x

/-- One renaming after the other. -/
def applyAll (rules : List (Renaming α)) (x : α) : α := rules.foldl (fun x r => r.apply x) x

theorem applyAll_append (a b : List (Renaming α)) (x : α) : applyAll (a ++ b) x = applyAll b (applyAll a x) :=
  List.foldl_append

variable {x : α} {rules : List (Renaming α)}

theorem applyAll_of_agree {y : α} (hx : ∀ r ∈ rules, x ∈ r.old → r.new = y)
    (hy : ∀ r ∈ rules, y ∈ r.old → r.new = y) :
    applyAll rules x = if ∃ r ∈ rules, x ∈ r.old then y else x := by
  have hstay : ∀ l : List (Renaming α), (∀ r ∈ l, y ∈ r.old → r.new = y) → applyAll l y = y := by
    intro l
    induction l with
    | nil => exact fun _ => rfl
    | cons r l ih =>
      intro hl
      rw [List.forall_mem_cons] at hl
      have hr : r.apply y = y := by
        rw [apply]
        split
        · next hmem => exact hl.1 hmem
        · rfl
      show applyAll l (r.apply y) = y
      rw [hr, ih hl.2]
  induction rules with
  | nil => simp [applyAll]
  | cons r rules ih =>
    rw [List.forall_mem_cons] at hx hy
    show applyAll rules (r.apply x) = _
    by_cases hr : x ∈ r.old
    · rw [apply, if_pos hr, hx.1 hr, hstay rules hy.2, if_pos ⟨r, List.mem_cons_self, hr⟩]
    · rw [apply, if_neg hr, ih hx.2 hy.2]
      simp [hr]

/-- **Every order of the rules gives a name what its rules say exactly when the rules agree on it and on what it
becomes.** -/
theorem applyAll_new_iff {ι : Type} {rule : ι → Renaming α} {l : List ι} :
    (∀ order : List ι, order.Perm l → ∀ i ∈ l, x ∈ (rule i).old → applyAll (order.map rule) x = (rule i).new) ↔
      ∀ i ∈ l, x ∈ (rule i).old → ∀ j ∈ l, x ∈ (rule j).old ∨ (rule i).new ∈ (rule j).old →
        (rule j).new = (rule i).new := by
  constructor
  · rintro h i hi hx j hj (hx' | hnew)
    · exact (h l (.refl _) j hj hx').symm.trans (h l (.refl _) i hi hx)
    · -- The rule comes last.
      obtain ⟨before, after, rfl⟩ := List.append_of_mem hj
      have hperm : ((before ++ after) ++ [j]).Perm (before ++ j :: after) := by
        rw [List.append_assoc]
        exact (List.perm_append_left_iff before).mpr List.perm_append_comm
      have hlast := h _ hperm i hi hx
      rw [List.map_append, applyAll_append] at hlast
      change (rule j).apply (applyAll ((before ++ after).map rule) x) = (rule i).new at hlast
      rw [apply] at hlast
      split at hlast
      · exact hlast
      · next hnot => exact absurd (hlast ▸ hnew) hnot
  · intro h order hperm i hi hx
    rw [applyAll_of_agree (y := (rule i).new)]
    · exact if_pos ⟨rule i, List.mem_map_of_mem (hperm.mem_iff.mpr hi), hx⟩
    · refine List.forall_mem_map.mpr fun j hj hx' => ?_
      exact h i hi hx j (hperm.mem_iff.mp hj) (.inl hx')
    · refine List.forall_mem_map.mpr fun j hj hnew => ?_
      exact h i hi hx j (hperm.mem_iff.mp hj) (.inr hnew)

theorem applyAll_of_notMem (h : ∀ r ∈ rules, x ∉ r.old) : applyAll rules x = x := by
  rw [applyAll_of_agree (y := x) (fun r hr hx => absurd hx (h r hr)) fun r hr hx => absurd hx (h r hr)]
  exact ite_self x

/-- Rules that all make one thing of a name, and keep that, make it of the name in every order. -/
theorem applyAll_perm {y : α} {rules' : List (Renaming α)} (hx : ∀ r ∈ rules, r.apply x = x ∨ r.apply x = y)
    (hy : ∀ r ∈ rules, r.apply y = y) (hperm : rules.Perm rules') : applyAll rules x = applyAll rules' x := by
  have hstay : ∀ l : List (Renaming α), (∀ r ∈ l, r.apply y = y) → applyAll l y = y := by
    intro l hl
    induction l with
    | nil => rfl
    | cons r l ih =>
      rw [List.forall_mem_cons] at hl
      show applyAll l (r.apply y) = y
      rw [hl.1, ih hl.2]
  have hclosed : ∀ l : List (Renaming α), (∀ r ∈ l, r.apply x = x ∨ r.apply x = y) → (∀ r ∈ l, r.apply y = y) →
      applyAll l x = if ∀ r ∈ l, r.apply x = x then x else y := by
    intro l hx hy
    induction l with
    | nil => simp [applyAll]
    | cons r l ih =>
      rw [List.forall_mem_cons] at hx hy
      show applyAll l (r.apply x) = _
      by_cases hr : r.apply x = x
      · rw [hr, ih hx.2 hy.2]
        simp [hr]
      · rw [hx.1.resolve_left hr, hstay l hy.2, if_neg fun hall => hr (hall r List.mem_cons_self)]
  rw [hclosed rules hx hy, hclosed rules' (fun r hr => hx r (hperm.mem_iff.mpr hr))
    fun r hr => hy r (hperm.mem_iff.mpr hr)]
  simp only [hperm.mem_iff]

/-! ## Rules that write

Each rule renames what those before it have written, and then writes texts of its own.
-/

section

variable {ι κ γ : Type}

/-- Texts under keys, in pieces that are symbols or names, with their names renamed. -/
def renameIn (f : α → α) (texts : List (κ × List (γ ⊕ α))) : List (κ × List (γ ⊕ α)) :=
  texts.map (Prod.map id (List.map (Sum.map id f)))

def names (texts : List (κ × List (γ ⊕ α))) : List α := texts.flatMap fun e => e.2.filterMap Sum.getRight?

variable {texts texts' : List (κ × List (γ ⊕ α))} {f g : α → α}

omit [DecidableEq α] in
@[simp] theorem renameIn_id : renameIn id texts = texts := by
  simp [renameIn]

omit [DecidableEq α] in
theorem renameIn_append : renameIn f (texts ++ texts') = renameIn f texts ++ renameIn f texts' :=
  List.map_append

omit [DecidableEq α] in
theorem renameIn_renameIn : renameIn g (renameIn f texts) = renameIn (g ∘ f) texts := by
  rw [renameIn, renameIn, List.map_map]
  refine List.map_congr_left fun e _ => Prod.ext rfl ((List.map_map).trans ?_)
  refine List.map_congr_left fun piece _ => ?_
  cases piece <;> rfl

omit [DecidableEq α] in
@[simp] theorem length_renameIn : (renameIn f texts).length = texts.length := List.length_map _

omit [DecidableEq α] in
theorem renameIn_eq_iff : renameIn f texts = renameIn g texts ↔ ∀ x ∈ names texts, f x = g x := by
  simp only [renameIn, names, List.map_inj_left, List.mem_flatMap, List.mem_filterMap]
  constructor
  · rintro h x ⟨e, he, piece, hpiece, hx⟩
    obtain rfl := Sum.getRight?_eq_some_iff.mp hx
    exact Sum.inr.inj (List.map_inj_left.mp (congrArg Prod.snd (h e he)) _ hpiece)
  · intro h e he
    refine Prod.ext rfl (List.map_inj_left.mpr fun piece hpiece => ?_)
    cases piece with
    | inl c => rfl
    | inr x => exact congrArg Sum.inr (h x ⟨e, he, _, hpiece, rfl⟩)

omit [DecidableEq α] in
theorem names_append : names (texts ++ texts') = names texts ++ names texts' := List.flatMap_append

omit [DecidableEq α] in
theorem names_renameIn : names (renameIn f texts) = (names texts).map f := by
  simp only [names, renameIn, List.flatMap_map, List.map_flatMap, Prod.map_snd, List.filterMap_map,
    List.map_filterMap]
  refine List.flatMap_congr fun e _ => List.filterMap_congr fun piece _ => ?_
  cases piece <;> rfl

variable (rule : ι → Renaming α) (out : ι → List (κ × List (γ ⊕ α)))

/-- What the rules leave written, in an order. -/
def written : List ι → List (κ × List (γ ⊕ α))
  | [] => []
  | i :: rest => renameIn (applyAll (rest.map rule)) (out i) ++ written rest

/-- Two rules write the same in either order. -/
def Exchange (i j : ι) : Prop :=
  renameIn (rule j).apply (out i) ++ out j = renameIn (rule i).apply (out j) ++ out i

/-- Two rules rename what a third has written to the same in either order. -/
def Agree (i j k : ι) : Prop :=
  renameIn (rule k).apply (renameIn (rule j).apply (out i)) =
    renameIn (rule j).apply (renameIn (rule k).apply (out i))

variable {rule out} {i j k : ι}

theorem count_map_apply_le (r : Renaming α) {y : α} (hy : r.new ≠ y) (l : List α) :
    (l.map r.apply).count y ≤ l.count y := by
  rw [List.count_eq_countP, List.count_eq_countP, List.countP_map]
  refine List.countP_mono_left fun x _ hx => ?_
  have hxy : r.apply x = y := beq_iff_eq.mp hx
  rw [apply] at hxy
  split at hxy
  · exact absurd hxy hy
  · exact beq_iff_eq.mpr hxy

theorem apply_eq_of_count {r : Renaming α} {l : List α} (h : (l.map r.apply).count r.new ≤ l.count r.new) :
    ∀ x ∈ l, r.apply x = x := by
  induction l with
  | nil => exact fun _ hx => absurd hx (List.not_mem_nil)
  | cons a l ih =>
    have hle : l.count r.new ≤ (l.map r.apply).count r.new := by
      rw [List.count_eq_countP, List.count_eq_countP, List.countP_map]
      refine List.countP_mono_left fun x _ hx => ?_
      obtain rfl : x = r.new := beq_iff_eq.mp hx
      exact beq_iff_eq.mpr (ite_self _)
    rw [List.map_cons, List.count_cons, List.count_cons] at h
    have ha : r.apply a = a := by
      by_contra hne
      have hnew : r.apply a = r.new := by
        rw [apply] at hne ⊢
        split
        · rfl
        · next hmem => exact absurd (if_neg hmem) hne
      have hother : a ≠ r.new := fun heq => hne (heq ▸ hnew)
      simp [hnew, hother] at h
      omega
    rw [ha] at h
    exact List.forall_mem_cons.mpr ⟨ha, ih (by omega)⟩

/-- A rule that renames what the other has written has the same new name: counted, the new names would else
be too many. -/
theorem Exchange.new_eq_or (h : Exchange rule out i j) :
    (rule j).new = (rule i).new ∨ ∀ x ∈ names (out i), (rule j).apply x = x := by
  rw [or_iff_not_imp_left]
  intro hne
  refine apply_eq_of_count ?_
  have hnames := congrArg (fun texts => (names texts).count (rule j).new) h
  simp only [names_append, names_renameIn, List.count_append] at hnames
  have hle := count_map_apply_le (rule i) (Ne.symm hne) (names (out j))
  omega

variable {l order order' : List ι}

theorem renameIn_perm (hpair : ∀ i ∈ l, ∀ j ∈ l, Exchange rule out i j)
    (htriple : ∀ i ∈ l, ∀ j ∈ l, ∀ k ∈ l, i ≠ j → i ≠ k → Agree rule out i j k) {rest rest' : List ι}
    (hrest : rest.Perm rest') (hi : i ∈ l) (hsub : ∀ j ∈ rest, j ∈ l ∧ i ≠ j) :
    renameIn (applyAll (rest.map rule)) (out i) = renameIn (applyAll (rest'.map rule)) (out i) := by
  refine renameIn_eq_iff.mpr fun x hx => ?_
  by_cases hfix : ∀ j ∈ rest, ∀ z ∈ names (out i), (rule j).apply z = z
  · have hfixed : ∀ r ∈ rest.map rule, r.apply x = x := List.forall_mem_map.mpr fun j hj => hfix j hj x hx
    exact applyAll_perm (fun r hr => .inl (hfixed r hr)) hfixed (hrest.map rule)
  · -- The new name of a rule that renames is that of the rule that wrote, and no rule renames it.
    obtain ⟨j, hj, z, hz, hne⟩ : ∃ j ∈ rest, ∃ z ∈ names (out i), (rule j).apply z ≠ z := by
      simpa using hfix
    have hnew : (rule j).new = (rule i).new :=
      (hpair i hi j (hsub j hj).1).new_eq_or.resolve_right fun hall => hne (hall z hz)
    have hzj : (rule j).apply z = (rule i).new := by
      rw [apply] at hne ⊢
      split
      · exact hnew
      · next hmem => exact absurd (if_neg hmem) hne
    have hkept : ∀ k ∈ rest, (rule k).apply (rule i).new = (rule i).new := by
      intro k hk
      rcases (hpair i hi k (hsub k hk).1).new_eq_or with hk' | hk'
      · rw [← hk']
        exact ite_self _
      · have hagree := htriple i hi j (hsub j hj).1 k (hsub k hk).1 (hsub j hj).2 (hsub k hk).2
        rw [Agree, renameIn_renameIn, renameIn_renameIn, renameIn_eq_iff] at hagree
        have hzk := hagree z hz
        rw [Function.comp_apply, Function.comp_apply, hk' z hz, hzj] at hzk
        exact hzk
    refine applyAll_perm (y := (rule i).new) (List.forall_mem_map.mpr fun k hk => ?_)
      (List.forall_mem_map.mpr hkept) (hrest.map rule)
    rcases (hpair i hi k (hsub k hk).1).new_eq_or with hk' | hk'
    · rw [apply]
      split
      · exact .inr hk'
      · exact .inl rfl
    · exact .inl (hk' x hx)

theorem written_append (before after : List ι) : written rule out (before ++ after) =
    renameIn (applyAll (after.map rule)) (written rule out before) ++ written rule out after := by
  induction before with
  | nil => rfl
  | cons i before ih =>
    have hcomp : applyAll (List.map rule (before ++ after)) =
        applyAll (after.map rule) ∘ applyAll (before.map rule) := by
      funext x
      rw [List.map_append, applyAll_append, Function.comp_apply]
    rw [List.cons_append, written, written, ih, renameIn_append, renameIn_renameIn, hcomp, List.append_assoc]

theorem written_pair (i j : ι) :
    written rule out [i, j] = renameIn (rule j).apply (out i) ++ out j := by
  show renameIn (rule j).apply (out i) ++ (renameIn id (out j) ++ []) = _
  rw [renameIn_id, List.append_nil]

theorem written_triple (i j k : ι) : written rule out [i, j, k] =
    renameIn (rule k).apply (renameIn (rule j).apply (out i)) ++ written rule out [j, k] := by
  rw [renameIn_renameIn]
  rfl

theorem written_perm (hpair : ∀ i ∈ l, ∀ j ∈ l, Exchange rule out i j)
    (htriple : ∀ i ∈ l, ∀ j ∈ l, ∀ k ∈ l, i ≠ j → i ≠ k → Agree rule out i j k) (hperm : order.Perm order') :
    order.Nodup → (∀ i ∈ order, i ∈ l) → written rule out order = written rule out order' := by
  induction hperm with
  | nil => exact fun _ _ => rfl
  | cons i hperm ih =>
    intro hnodup hsub
    rw [List.nodup_cons] at hnodup
    rw [List.forall_mem_cons] at hsub
    rw [written, written, ih hnodup.2 hsub.2]
    congr 1
    refine renameIn_perm hpair htriple hperm hsub.1 fun j hj => ⟨hsub.2 j hj, ?_⟩
    rintro rfl
    exact hnodup.1 hj
  | swap i j rest =>
    intro _ hsub
    have hexchange := hpair j (hsub j List.mem_cons_self) i (hsub i (by simp))
    have hsplit : ∀ a b, written rule out (a :: b :: rest) =
        renameIn (applyAll (rest.map rule)) (written rule out [a, b]) ++ written rule out rest :=
      fun a b => written_append [a, b] rest
    rw [hsplit, hsplit, written_pair, written_pair, hexchange]
  | trans hfirst _ ihfirst ihsecond =>
    intro hnodup hsub
    rw [ihfirst hnodup hsub]
    exact ihsecond (hfirst.nodup_iff.mp hnodup) fun i hi => hsub i (hfirst.mem_iff.mpr hi)

/-- **Rules leave the same written in every order exactly when any two write the same in either order, and agree on
what any third has written.** -/
theorem written_perm_iff (hl : l.Nodup) :
    (∀ order order' : List ι, order.Perm l → order'.Perm l → written rule out order = written rule out order') ↔
      (∀ i ∈ l, ∀ j ∈ l, Exchange rule out i j) ∧
        ∀ i ∈ l, ∀ j ∈ l, ∀ k ∈ l, i ≠ j → i ≠ k → Agree rule out i j k := by
  constructor
  · intro h
    -- Some rules come last, in either order.
    have hlast : ∀ last last' : List ι, last.Nodup → last ⊆ l → last.Perm last' →
        written rule out last = written rule out last' := by
      intro last last' hnodup hsub hlast
      obtain ⟨m, hm, hsublist⟩ := List.subperm_of_subset hnodup hsub
      obtain ⟨others, hothers⟩ := hsublist.exists_perm_append
      have horder : (others ++ last).Perm l :=
        (List.perm_append_comm.trans (hm.symm.append_right others)).trans hothers.symm
      have hsame := h _ _ horder (((List.perm_append_left_iff others).mpr hlast.symm).trans horder)
      rw [written_append, written_append] at hsame
      exact (List.append_inj hsame (by rw [length_renameIn, length_renameIn])).2
    refine ⟨fun i hi j hj => ?_, fun i hi j hj k hk hij hik => ?_⟩
    · by_cases hij : i = j
      · rw [hij]
        rfl
      · have hsame := hlast [i, j] [j, i] (by simp [hij]) (by simp [hi, hj]) (.swap ..)
        rwa [written_pair, written_pair] at hsame
    · by_cases hjk : j = k
      · rw [hjk]
        rfl
      · have hsame := hlast [i, j, k] [i, k, j] (by simp [hij, hik, hjk]) (by simp [hi, hj, hk])
          (.cons i (.swap ..))
        rw [written_triple, written_triple] at hsame
        exact (List.append_inj hsame (by simp only [length_renameIn])).1
  · rintro ⟨hpair, htriple⟩ order order' horder horder'
    exact written_perm hpair htriple (horder.trans horder'.symm) (horder.nodup_iff.mpr hl)
      fun i hi => horder.mem_iff.mp hi

end

end Renaming

/-! ## Text -/

/-- Every occurrence of a text replaced, from the left. -/
def replaceAll {α : Type} [DecidableEq α] (old new : List α) (text : List α) : List α :=
  match text with
  | [] => []
  | c :: rest =>
    if old ≠ [] ∧ old <+: c :: rest then new ++ replaceAll old new ((c :: rest).drop old.length)
    else c :: replaceAll old new rest
termination_by text.length
decreasing_by
  · next h =>
    have := List.length_pos_of_ne_nil h.1
    simp only [List.length_drop, List.length_cons]
    omega
  · simp

/-- Tokens of one width that begin with a symbol they have nowhere else. -/
structure TokenShape (α : Type) where
  isToken : List α → Bool
  width : Nat
  first : α
  shape : ∀ {w}, isToken w = true → w.length = width ∧ ∃ rest, w = first :: rest ∧ first ∉ rest

namespace TokenShape

variable {α : Type} (S : TokenShape α)

variable {new old rest w : List α} {c : α}

theorem width_pos (h : S.isToken w = true) : 0 < S.width := by
  obtain ⟨hlen, rest, rfl, -⟩ := S.shape h
  rw [← hlen]
  exact Nat.succ_pos _

/-- Cuts a text into names and the elements between them. -/
def pieces (text : List α) : List (α ⊕ List α) :=
  match text with
  | [] => []
  | c :: rest =>
    if _h : S.isToken ((c :: rest).take S.width) = true then
      .inr ((c :: rest).take S.width) :: pieces ((c :: rest).drop S.width)
    else .inl c :: pieces rest
termination_by text.length
decreasing_by
  · have := S.width_pos _h
    simp only [List.length_drop, List.length_cons]
    omega
  · simp

def swap [DecidableEq α] (old new w : List α) : List α := if w = old then new else w

variable {S}

theorem pieces_token (h : S.isToken w = true) (rest : List α) :
    S.pieces (w ++ rest) = .inr w :: S.pieces rest := by
  obtain ⟨hlen, w', rfl, -⟩ := S.shape h
  have htake : (S.first :: (w' ++ rest)).take S.width = S.first :: w' := by
    rw [← List.cons_append, ← hlen, List.take_left]
  have hdrop : (S.first :: (w' ++ rest)).drop S.width = rest := by
    rw [← List.cons_append, ← hlen, List.drop_left]
  rw [List.cons_append, pieces, dif_pos (by rw [htake]; exact h), htake, hdrop]

theorem pieces_plain (h : S.isToken ((c :: rest).take S.width) = false) :
    S.pieces (c :: rest) = .inl c :: S.pieces rest := by
  rw [pieces, dif_neg (by rw [h]; exact Bool.false_ne_true)]

variable [DecidableEq α]

theorem replaceAll_prefix (h : old ≠ []) (new rest : List α) :
    replaceAll old new (old ++ rest) = new ++ replaceAll old new rest := by
  obtain ⟨c, old, rfl⟩ := List.exists_cons_of_ne_nil h
  rw [List.cons_append, replaceAll, if_pos ⟨h, ⟨rest, rfl⟩⟩, ← List.cons_append, List.drop_left]

theorem replaceAll_cons (h : ¬old <+: c :: rest) :
    replaceAll old new (c :: rest) = c :: replaceAll old new rest := by
  rw [replaceAll, if_neg fun hboth => h hboth.2]

theorem replaceAll_append (h : ∀ c ∈ w, ∀ rest, ¬old <+: c :: rest) (rest : List α) :
    replaceAll old new (w ++ rest) = w ++ replaceAll old new rest := by
  induction w with
  | nil => rfl
  | cons c w ih =>
    rw [List.forall_mem_cons] at h
    rw [List.cons_append, replaceAll_cons (h.1 _), ih h.2, List.cons_append]

section

variable {old new : List α} (hold : S.isToken old = true) (hnew : S.isToken new = true)
include hold hnew

theorem replaceAll_shares (text : List α) : replaceAll old new text = text ∨
    ∃ w a b, text = w ++ S.first :: a ∧ replaceAll old new text = w ++ S.first :: b := by
  induction text with
  | nil => exact .inl (by rw [replaceAll])
  | cons c rest ih =>
    by_cases hprefix : old <+: c :: rest
    · obtain ⟨tail, htail⟩ := hprefix
      obtain ⟨-, old', hold', -⟩ := S.shape hold
      obtain ⟨-, new', hnew', -⟩ := S.shape hnew
      refine .inr ⟨[], old' ++ tail, new' ++ replaceAll old new tail, ?_, ?_⟩
      · rw [← htail, hold']
        rfl
      · rw [← htail, replaceAll_prefix (by rw [hold']; exact List.cons_ne_nil _ _), hnew']
        rfl
    · rw [replaceAll_cons hprefix]
      rcases ih with heq | ⟨w, a, b, hrest, hreplaced⟩
      · exact .inl (by rw [heq])
      · exact .inr ⟨c :: w, a, b, by rw [hrest]; rfl, by rw [hreplaced]; rfl⟩

theorem isToken_replaceAll (c : α) (rest : List α) :
    S.isToken ((c :: replaceAll old new rest).take S.width) = S.isToken ((c :: rest).take S.width) := by
  rcases replaceAll_shares hold hnew rest with heq | ⟨w, a, b, hrest, hreplaced⟩
  · rw [heq]
  · rw [hreplaced, hrest]
    by_cases hwidth : S.width ≤ (c :: w).length
    · rw [← List.cons_append, ← List.cons_append, List.take_append_of_le_length hwidth,
        List.take_append_of_le_length hwidth]
    · -- The first symbol of a token would be inside another.
      have hnot : ∀ tail, S.isToken ((c :: (w ++ S.first :: tail)).take S.width) = false := by
        intro tail
        refine eq_false_of_ne_true fun htoken => ?_
        obtain ⟨-, v, hv, hfirst⟩ := S.shape htoken
        obtain ⟨n, hn⟩ : ∃ n, S.width = (c :: w).length + (n + 1) := ⟨S.width - (c :: w).length - 1, by omega⟩
        rw [← List.cons_append, hn, List.take_length_add_append, List.take_succ_cons, List.cons_append] at hv
        rw [← (List.cons.inj hv).2] at hfirst
        exact hfirst (List.mem_append_right _ List.mem_cons_self)
      rw [hnot, hnot]

/-- **Replacing the text of a token replaces the token, and nothing else.** -/
theorem pieces_replaceAll (text : List α) :
    S.pieces (replaceAll old new text) = (S.pieces text).map (Sum.map id (swap old new)) := by
  induction hn : text.length using Nat.strongRecOn generalizing text with
  | _ n ih =>
    have hne : old ≠ [] := fun hnil => by
      obtain ⟨-, rest, hrest, -⟩ := S.shape hold
      exact List.cons_ne_nil _ _ (hrest.symm.trans hnil)
    cases text with
    | nil => rw [replaceAll, pieces, List.map_nil]
    | cons c rest =>
      cases htoken : S.isToken ((c :: rest).take S.width) with
      | true =>
        have hwidth := S.width_pos htoken
        have hsplit := List.take_append_drop S.width (c :: rest)
        have hshorter : ((c :: rest).drop S.width).length < n := by
          rw [List.length_drop, hn]
          simp only [List.length_cons] at hn
          omega
        have hrest := ih _ hshorter _ rfl
        generalize (c :: rest).take S.width = w at htoken hsplit
        generalize (c :: rest).drop S.width = tail at hsplit hrest
        rw [← hsplit, pieces_token htoken, List.map_cons, ← hrest]
        by_cases hw : w = old
        · rw [hw, replaceAll_prefix hne, pieces_token hnew, Sum.map_inr, swap, if_pos rfl]
        · have hsame : replaceAll old new (w ++ tail) = w ++ replaceAll old new tail := by
            obtain ⟨hlen, w', rfl, hfirst⟩ := S.shape htoken
            obtain ⟨hlenOld, old', rfl, -⟩ := S.shape hold
            have hprefix : ¬S.first :: old' <+: S.first :: (w' ++ tail) := by
              rintro ⟨t, ht⟩
              have heq := congrArg (List.take S.width) ht
              rw [← List.cons_append, ← hlen, hlen, ← hlenOld, List.take_left, hlenOld, ← hlen, List.take_left] at heq
              exact hw heq.symm
            rw [List.cons_append, replaceAll_cons hprefix, replaceAll_append]
            · rfl
            · rintro d hd t ⟨t', ht'⟩
              exact hfirst ((List.cons.inj ht').1 ▸ hd)
          rw [hsame, pieces_token htoken, Sum.map_inr, swap, if_neg hw]
      | false =>
        have hprefix : ¬old <+: c :: rest := by
          rintro ⟨tail, htail⟩
          rw [← htail, ← (S.shape hold).1, List.take_left, hold] at htoken
          cases htoken
        have hrest := ih rest.length (by rw [← hn]; exact Nat.lt_succ_self _) rest rfl
        rw [replaceAll_cons hprefix, pieces_plain (by rw [isToken_replaceAll hold hnew]; exact htoken),
          pieces_plain htoken, hrest, List.map_cons, Sum.map_inl, id]

end

end TokenShape

end Infra
