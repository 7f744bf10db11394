import Mathlib.Data.List.Basic

/-!
# Delimited parts of a text

A text is read from one opening delimiter to the first closing delimiter after it. What stands between the
two is a body. A reader that does not understand a body may go on after the closing delimiter, or after
the opening one; the second finds bodies inside the one it did not understand.
-/

namespace Infra

variable {α β : Type*} [DecidableEq α]

/-! ## The first occurrence of a pattern -/

/-- What stands before the first occurrence of a pattern, and what after it. -/
def splitOnce (pat : List α) : List α → Option (List α × List α)
  | [] => if pat = [] then some ([], []) else none
  | x :: xs =>
    if pat.isPrefixOf (x :: xs) then some ([], (x :: xs).drop pat.length)
    else (splitOnce pat xs).map fun (before, after) => (x :: before, after)

variable {pat a b l before after : List α} {x s : α}

theorem splitOnce_cons (x : α) (xs : List α) : splitOnce pat (x :: xs) =
    if pat.isPrefixOf (x :: xs) then some ([], (x :: xs).drop pat.length)
    else (splitOnce pat xs).map fun (before, after) => (x :: before, after) := rfl

theorem eq_of_splitOnce : ∀ {l before after : List α}, splitOnce pat l = some (before, after) →
    l = before ++ pat ++ after
  | [], before, after, h => by
    rw [splitOnce] at h
    split at h
    · next hpat =>
      cases h
      rw [hpat]
      rfl
    · cases h
  | x :: xs, before, after, h => by
    rw [splitOnce_cons] at h
    split at h
    · next hprefix =>
      obtain ⟨rest, hrest⟩ := List.isPrefixOf_iff_prefix.mp hprefix
      cases h
      rw [← hrest, List.drop_left]
      rfl
    · obtain ⟨⟨before', after'⟩, hxs, heq⟩ := Option.map_eq_some_iff.mp h
      cases heq
      rw [eq_of_splitOnce hxs]
      rfl

theorem length_of_splitOnce (h : splitOnce pat l = some (before, after)) :
    l.length = before.length + pat.length + after.length := by
  rw [eq_of_splitOnce h, List.length_append, List.length_append]

theorem splitOnce_of_append : ∀ {u before after : List α},
    splitOnce pat (u ++ l) = some (u ++ before, after) → splitOnce pat l = some (before, after)
  | [], _, _, h => h
  | x :: u, before, after, h => by
    rw [List.cons_append, splitOnce_cons] at h
    split at h
    · exact absurd (Prod.mk.inj (Option.some.inj h)).1 (by simp)
    · obtain ⟨⟨before', after'⟩, hrest, heq⟩ := Option.map_eq_some_iff.mp h
      obtain ⟨hbefore, rfl⟩ := Prod.mk.inj heq
      rw [(List.cons.inj hbefore).2] at hrest
      exact splitOnce_of_append hrest

theorem isPrefixOf_append_notMem (hs : s ∉ pat) (a b : List α) :
    pat.isPrefixOf (a ++ s :: b) = pat.isPrefixOf a := by
  rw [Bool.eq_iff_iff, List.isPrefixOf_iff_prefix, List.isPrefixOf_iff_prefix]
  constructor
  · rintro ⟨rest, hrest⟩
    rcases List.append_eq_append_iff.mp hrest with ⟨c, rfl, _⟩ | ⟨c, hpat, hc⟩
    · exact List.prefix_append _ _
    · cases c with
      | nil => exact ⟨[], by rw [hpat, List.append_nil, List.append_nil]⟩
      | cons y c =>
        obtain ⟨rfl, _⟩ := List.cons.inj hc
        exact absurd (by rw [hpat]; simp) hs
  · exact fun h => h.trans (List.prefix_append _ _)

theorem splitOnce_append_cons (hs : s ∉ pat) (hne : pat ≠ []) (b : List α) : ∀ a : List α,
    splitOnce pat (a ++ s :: b) = match splitOnce pat a with
      | some (before, after) => some (before, after ++ s :: b)
      | none => (splitOnce pat b).map fun (before, after) => (a ++ s :: before, after)
  | [] => by
    have hno : pat.isPrefixOf (s :: b) = false := by
      have h := isPrefixOf_append_notMem hs [] b
      rw [List.nil_append] at h
      rw [h]
      cases pat with
      | nil => exact absurd rfl hne
      | cons y pat => rfl
    rw [List.nil_append, splitOnce_cons, hno, splitOnce, if_neg hne]
    rfl
  | x :: a => by
    have hprefix := isPrefixOf_append_notMem hs (x :: a) b
    rw [List.cons_append] at hprefix
    rw [List.cons_append, splitOnce_cons, hprefix, splitOnce_cons]
    by_cases h : pat.isPrefixOf (x :: a) = true
    · have hlen := (List.isPrefixOf_iff_prefix.mp h).length_le
      rw [if_pos h, if_pos h]
      dsimp only
      rw [← List.cons_append, List.drop_append_of_le_length hlen]
    · rw [if_neg h, if_neg h, splitOnce_append_cons hs hne b a]
      cases splitOnce pat a with
      | some p => rfl
      | none => cases splitOnce pat b <;> rfl

theorem splitOnce_append_append (hne : pat ≠ []) (b : List α) : ∀ {sep : List α} (a : List α),
    (∀ x ∈ sep, x ∉ pat) → sep ≠ [] →
      (splitOnce pat (a ++ sep ++ b)).map Prod.snd = match splitOnce pat a with
        | some (_, after) => some (after ++ sep ++ b)
        | none => (splitOnce pat b).map Prod.snd
  | [], _, _, hsep => absurd rfl hsep
  | s :: sep, a, hall, _ => by
    have hs : s ∉ pat := hall s List.mem_cons_self
    rw [List.append_assoc, List.cons_append, splitOnce_append_cons hs hne]
    cases splitOnce pat a with
    | some p =>
      dsimp only
      rw [Option.map_some, List.append_assoc, List.cons_append]
    | none =>
      dsimp only
      rw [Option.map_map]
      cases sep with
      | nil => rfl
      | cons s' sep =>
        have h := splitOnce_append_append hne b [] (fun x hx => hall x (List.mem_cons_of_mem _ hx))
          (List.cons_ne_nil s' sep)
        rw [splitOnce, if_neg hne, List.nil_append] at h
        exact h

theorem splitOnce_append_notMem {y : α} (b : List α) : ∀ {a : List α}, y ∉ a →
    splitOnce (y :: pat) (a ++ y :: pat ++ b) = some (a, b)
  | [], _ => by
    have hprefix : (y :: pat).isPrefixOf (y :: (pat ++ b)) = true :=
      List.isPrefixOf_iff_prefix.mpr (List.prefix_append _ _)
    rw [List.nil_append, List.cons_append, splitOnce_cons, if_pos hprefix, ← List.cons_append, List.drop_left]
  | x :: a, ha => by
    have hne : y ≠ x := fun h => ha (h ▸ List.mem_cons_self)
    have hno : (y :: pat).isPrefixOf (x :: (a ++ y :: pat ++ b)) = false := by
      rw [List.isPrefixOf_cons_cons, beq_eq_false_iff_ne.mpr hne, Bool.false_and]
    rw [List.cons_append, List.cons_append, splitOnce_cons, hno,
      splitOnce_append_notMem b fun h => ha (List.mem_cons_of_mem _ h)]
    rfl

/-! ## Bodies -/

/-- An opening and a closing delimiter that have no element in common. -/
structure Delimiters (α : Type*) where
  opening : List α
  closing : List α
  opening_ne : opening ≠ []
  closing_ne : closing ≠ []
  disjoint : ∀ x ∈ closing, x ∉ opening

namespace Delimiters

variable (d : Delimiters α)

/-- The first body of a text, with what stands before its opening delimiter and after its closing one. -/
def next (l : List α) : Option (List α × List α × List α) := do
  let (before, after) ← splitOnce d.opening l
  let (body, rest) ← splitOnce d.closing after
  return (before, body, rest)

variable {d} {body rest : List α}

theorem next_eq_some_iff : d.next l = some (before, body, rest) ↔ ∃ after,
    splitOnce d.opening l = some (before, after) ∧ splitOnce d.closing after = some (body, rest) := by
  unfold next
  simp only [Option.bind_eq_bind, Option.bind_eq_some_iff, Option.pure_def, Option.some.injEq, Prod.mk.injEq,
    Prod.exists]
  constructor
  · rintro ⟨_, after, hopen, _, _, hclose, rfl, rfl, rfl⟩
    exact ⟨after, hopen, hclose⟩
  · rintro ⟨after, hopen, hclose⟩
    exact ⟨_, after, hopen, _, _, hclose, rfl, rfl, rfl⟩

theorem next_eq (h : d.next l = some (before, body, rest)) :
    l = before ++ d.opening ++ body ++ d.closing ++ rest := by
  obtain ⟨after, hopen, hclose⟩ := next_eq_some_iff.mp h
  rw [eq_of_splitOnce hopen, eq_of_splitOnce hclose]
  simp only [List.append_assoc]

theorem length_of_next (h : d.next l = some (before, body, rest)) :
    (body ++ d.closing ++ rest).length < l.length ∧ rest.length < l.length := by
  have hopen := List.length_pos_of_ne_nil d.opening_ne
  rw [next_eq h]
  simp only [List.length_append]
  omega

variable (d) in
/-- The bodies of a text, each from the first opening delimiter after the one before. -/
def bodies (l : List α) : List (List α) :=
  match _h : d.next l with
  | none => []
  | some (_, body, rest) => body :: bodies rest
termination_by l.length
decreasing_by exact (length_of_next _h).2

variable (d) in
/-- A reader that goes on after the opening delimiter of a body it does not understand. -/
def rescan (read : List α → Option β) (l : List α) : List β :=
  match _h : d.next l with
  | none => []
  | some (_, body, rest) =>
    match read body with
    | some value => value :: rescan read rest
    | none => rescan read (body ++ d.closing ++ rest)
termination_by l.length
decreasing_by
  · exact (length_of_next _h).2
  · exact (length_of_next _h).1

variable (d) in
/-- The body, or the first part of it after an opening delimiter that is understood. -/
def readInside (read : List α → Option β) (body : List α) : Option β :=
  match read body with
  | some value => some value
  | none =>
    match _h : splitOnce d.opening body with
    | none => none
    | some (_, inner) => readInside read inner
termination_by body.length
decreasing_by
  have hlen := length_of_splitOnce _h
  have hopen := List.length_pos_of_ne_nil d.opening_ne
  omega

variable {read : List α → Option β}

theorem bodies_of_none (h : d.next l = none) : d.bodies l = [] := by
  rw [bodies]
  split
  · rfl
  · next h' => rw [h] at h'; cases h'

theorem bodies_of_some (h : d.next l = some (before, body, rest)) : d.bodies l = body :: d.bodies rest := by
  rw [bodies]
  split
  · next h' => rw [h] at h'; cases h'
  · next h' =>
    rw [h] at h'
    obtain ⟨_, rfl, rfl⟩ := by simpa using h'
    rfl

theorem next_nil : d.next [] = none := by
  rw [next, splitOnce, if_neg d.opening_ne]
  rfl

theorem bodies_of_notMem {y : α} (hopening : y ∈ d.opening) (hl : y ∉ l) : d.bodies l = [] := by
  cases hnext : d.next l with
  | none => exact bodies_of_none hnext
  | some p =>
    obtain ⟨before, body, rest⟩ := p
    exact absurd (by rw [next_eq hnext]; simp [hopening]) hl

theorem bodies_delimited {y : α} {c : List α} (hclosing : d.closing = y :: c) (hbody : y ∉ body) :
    d.bodies (d.opening ++ (body ++ d.closing)) = [body] := by
  have hopen : splitOnce d.opening (d.opening ++ (body ++ d.closing)) = some ([], body ++ d.closing) := by
    have hne := d.opening_ne
    cases hopening : d.opening with
    | nil => exact absurd hopening hne
    | cons z o => exact splitOnce_append_notMem (body ++ d.closing) (List.not_mem_nil (a := z))
  have hclose : splitOnce d.closing (body ++ d.closing) = some (body, []) := by
    have h : splitOnce (y :: c) (body ++ y :: c ++ []) = some (body, []) := splitOnce_append_notMem [] hbody
    rwa [List.append_nil, ← hclosing] at h
  rw [bodies_of_some (next_eq_some_iff.mpr ⟨_, hopen, hclose⟩), bodies_of_none next_nil]

/-- What follows the closing delimiter decides where the next body is, whatever is skipped before it: the
body itself has no opening delimiter. -/
theorem next_of_noOpening (hbody : splitOnce d.opening body = none) (rest : List α) :
    (d.next (body ++ d.closing ++ rest)).map Prod.snd = (d.next rest).map Prod.snd := by
  have h := splitOnce_append_append d.opening_ne rest body d.disjoint d.closing_ne
  rw [hbody] at h
  unfold next
  cases hleft : splitOnce d.opening (body ++ d.closing ++ rest) with
  | none =>
    rw [hleft] at h
    cases hright : splitOnce d.opening rest with
    | none => rfl
    | some p => rw [hright] at h; cases h
  | some p =>
    rw [hleft] at h
    cases hright : splitOnce d.opening rest with
    | none => rw [hright] at h; cases h
    | some q =>
      rw [hright] at h
      have hsnd : p.2 = q.2 := Option.some.inj h
      simp only [Option.bind_eq_bind, Option.bind_some, hsnd]
      cases splitOnce d.closing q.2 <;> rfl

theorem next_inside {u inner : List α} (hclose : splitOnce d.closing (body ++ d.closing ++ rest) = some (body, rest))
    (hbody : splitOnce d.opening body = some (u, inner)) :
    ∃ v, d.next (body ++ d.closing ++ rest) = some (v, inner, rest) ∧
      splitOnce d.closing (inner ++ d.closing ++ rest) = some (inner, rest) := by
  have heq : body = (u ++ d.opening) ++ inner := eq_of_splitOnce hbody
  have hinner : splitOnce d.closing (inner ++ d.closing ++ rest) = some (inner, rest) := by
    apply splitOnce_of_append (u := u ++ d.opening)
    rw [← heq, ← hclose, heq]
    simp only [List.append_assoc]
  have h := splitOnce_append_append d.opening_ne rest body d.disjoint d.closing_ne
  rw [hbody] at h
  obtain ⟨⟨v, after⟩, hopen, hafter⟩ := Option.map_eq_some_iff.mp h
  obtain rfl : after = inner ++ d.closing ++ rest := hafter
  exact ⟨v, next_eq_some_iff.mpr ⟨_, hopen, hinner⟩, hinner⟩

/-! ## Reading on inside a body -/

theorem rescan_of_none (h : d.next l = none) : d.rescan read l = [] := by
  rw [rescan]
  split
  · rfl
  · next h' => rw [h] at h'; cases h'

theorem rescan_of_some (h : d.next l = some (before, body, rest)) : d.rescan read l = match read body with
      | some value => value :: d.rescan read rest
      | none => d.rescan read (body ++ d.closing ++ rest) := by
  rw [rescan]
  split
  · next h' => rw [h] at h'; cases h'
  · next h' =>
    rw [h] at h'
    obtain ⟨_, rfl, rfl⟩ := by simpa using h'
    rfl

theorem rescan_congr {l l' : List α} (h : (d.next l).map Prod.snd = (d.next l').map Prod.snd) :
    d.rescan read l = d.rescan read l' := by
  cases hl : d.next l with
  | none =>
    rw [hl] at h
    rw [rescan_of_none hl, rescan_of_none (Option.map_eq_none_iff.mp h.symm)]
  | some p =>
    obtain ⟨before, body, rest⟩ := p
    rw [hl] at h
    obtain ⟨⟨before', p⟩, hl', rfl⟩ := Option.map_eq_some_iff.mp h.symm
    rw [rescan_of_some hl, rescan_of_some hl']

/-- What is understood inside a body, after one of its opening delimiters. -/
def readNested (d : Delimiters α) (read : List α → Option β) (body : List α) : Option β :=
  (splitOnce d.opening body).bind fun p => d.readInside read p.2

theorem readInside_eq (body : List α) : d.readInside read body = (read body).or (d.readNested read body) := by
  rw [readInside, readNested]
  cases read body with
  | some value => rfl
  | none =>
    rw [Option.none_or]
    dsimp only
    split
    · next h => rw [h]; rfl
    · next h => rw [h]; rfl

theorem rescan_body : ∀ {body : List α}, splitOnce d.closing (body ++ d.closing ++ rest) = some (body, rest) →
      d.rescan read (body ++ d.closing ++ rest) = (d.readNested read body).toList ++ d.rescan read rest := by
  intro body
  induction hn : body.length using Nat.strongRecOn generalizing body with
  | _ n ih =>
    intro hclose
    cases hbody : splitOnce d.opening body with
    | none =>
      rw [rescan_congr (next_of_noOpening hbody rest), readNested, hbody]
      rfl
    | some p =>
      obtain ⟨u, inner⟩ := p
      obtain ⟨v, hnext, hinner⟩ := next_inside hclose hbody
      have hshort : inner.length < n := by
        have hlen := length_of_splitOnce hbody
        have hopen := List.length_pos_of_ne_nil d.opening_ne
        omega
      have hnested : d.readNested read body = d.readInside read inner := by rw [readNested, hbody]; rfl
      rw [rescan_of_some hnext, hnested, readInside_eq]
      cases read inner with
      | some value => rfl
      | none => exact ih inner.length hshort rfl hinner

theorem rescan_eq (read : List α → Option β) (l : List α) :
    d.rescan read l = (d.bodies l).filterMap (d.readInside read) := by
  induction hn : l.length using Nat.strongRecOn generalizing l with
  | _ n ih =>
    cases hnext : d.next l with
    | none => rw [rescan_of_none hnext, bodies_of_none hnext]; rfl
    | some p =>
      obtain ⟨before, body, rest⟩ := p
      have hrest := ih rest.length (hn ▸ (length_of_next hnext).2) rest rfl
      rw [rescan_of_some hnext, bodies_of_some hnext, List.filterMap_cons, ← hrest, readInside_eq]
      cases read body with
      | some value => rfl
      | none =>
        obtain ⟨after, _, hclose⟩ := next_eq_some_iff.mp hnext
        rw [eq_of_splitOnce hclose] at hclose
        rw [Option.none_or]
        dsimp only
        rw [rescan_body hclose]
        cases d.readNested read body <;> rfl

end Delimiters

end Infra
