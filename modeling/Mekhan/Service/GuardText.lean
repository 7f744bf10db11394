import Mekhan.Application.JoinIndex

/-!
# Guard texts

The compiler composes guards as texts: `lower_decision` splices the guards of a decision into
conjunctions, and `apply_guard_borrows` later replaces the references to other nodes' data in what
came out (`replace_word_boundary` of `compiler/compile.rs`).

`replace_word_boundary` copies bytes and pushes each as a character; texts are therefore ASCII where
something is replaced.
-/

namespace Mekhan

def containsText (needle : List Char) : List Char → Bool
  | [] => needle.isEmpty
  | c :: cs => needle.isPrefixOf (c :: cs) || containsText needle cs

/-- A match may start after this character: it is none of an identifier's and no dot. -/
def boundary : Option Char → Bool
  | none => true
  | some c => !(c.isAlphanum || c = '_' || c = '.')

/-- The loop of `replace_word_boundary`, with whether it replaced anything. `prev` is the character
before, `skip` how much of a match is still to be passed over. -/
def replaceLoop (needle repl : List Char) : Option Char → Nat → List Char → List Char × Bool
  | _, _, [] => ([], false)
  | _, skip + 1, c :: cs => replaceLoop needle repl (some c) skip cs
  | prev, 0, c :: cs =>
    if needle.isPrefixOf (c :: cs) && boundary prev then
      (repl ++ (replaceLoop needle repl (some c) (needle.length - 1) cs).1, true)
    else
      let rest := replaceLoop needle repl (some c) 0 cs
      (c :: rest.1, rest.2)

def replaceWordBoundary (haystack needle repl : String) : Option String :=
  if needle.toList.isEmpty || !containsText needle.toList haystack.toList then none
  else
    let out := replaceLoop needle.toList repl.toList none 0 haystack.toList
    if out.2 then some (String.ofList out.1) else none

/-- The text after the replacement, if there was one. -/
def rewriteText (needle repl text : String) : String :=
  (replaceWordBoundary text needle repl).getD text

/-! ## Conjunctions -/

/-- A guard or its negation, in parentheses. -/
def literal (l : Bool × String) : String := (if l.1 then "(" else "!(") ++ l.2 ++ ")"

/-- Guards and negated guards, all of which have to hold. -/
def conjunction (ls : List (Bool × String)) : String := " && ".intercalate (ls.map literal)

/-! ## Replacing in a conjunction -/

section

variable {needle repl : List Char}

theorem replaceLoop_of_not_contains : ∀ {l : List Char} {prev : Option Char},
    containsText needle l = false → replaceLoop needle repl prev 0 l = (l, false)
  | [], _, _ => rfl
  | c :: cs, prev, h => by
    rw [containsText, Bool.or_eq_false_iff] at h
    rw [replaceLoop, h.1, Bool.false_and, if_neg (by simp), replaceLoop_of_not_contains h.2]

theorem replaceLoop_eq_self : ∀ {l : List Char} {prev : Option Char},
    (replaceLoop needle repl prev 0 l).2 = false → (replaceLoop needle repl prev 0 l).1 = l
  | [], _, _ => rfl
  | c :: cs, prev, h => by
    rw [replaceLoop] at h ⊢
    split at h
    · cases h
    · next hno =>
      rw [if_neg hno]
      exact congrArg (c :: ·) (replaceLoop_eq_self h)

variable {s : Char}

theorem isPrefixOf_append_cons (hs : s ∉ needle) (a b : List Char) :
    needle.isPrefixOf (a ++ s :: b) = needle.isPrefixOf a := by
  induction needle generalizing a with
  | nil => rfl
  | cons n needle ih =>
    cases a with
    | nil =>
      have hne : (n == s) = false := beq_eq_false_iff_ne.mpr fun h => hs (by simp [h])
      rw [List.nil_append, List.isPrefixOf_cons_cons, hne, Bool.false_and]
      rfl
    | cons c a =>
      rw [List.cons_append, List.isPrefixOf_cons_cons, List.isPrefixOf_cons_cons,
        ih (fun h => hs (List.mem_cons_of_mem _ h))]

theorem replaceLoop_append_cons (hs : s ∉ needle) (hne : needle ≠ []) (b : List Char) :
    ∀ {a : List Char} {prev : Option Char} {skip : Nat}, skip ≤ a.length →
      (replaceLoop needle repl prev skip (a ++ s :: b)).1 =
        (replaceLoop needle repl prev skip a).1 ++ s :: (replaceLoop needle repl (some s) 0 b).1
  | [], prev, skip, hskip => by
    obtain rfl : skip = 0 := Nat.le_zero.mp hskip
    have hno : needle.isPrefixOf (s :: b) = false := by
      have h := isPrefixOf_append_cons hs [] b
      rw [List.nil_append] at h
      rw [h]
      cases needle with
      | nil => exact absurd rfl hne
      | cons n needle => rfl
    have hcopy : replaceLoop needle repl prev 0 (s :: b) =
        (s :: (replaceLoop needle repl (some s) 0 b).1, (replaceLoop needle repl (some s) 0 b).2) := by
      rw [replaceLoop, hno, Bool.false_and, if_neg (by simp)]
    rw [List.nil_append, hcopy]
    rfl
  | c :: a, prev, skip + 1, hskip => by
    rw [List.cons_append, replaceLoop, replaceLoop]
    exact replaceLoop_append_cons hs hne b (Nat.le_of_succ_le_succ hskip)
  | c :: a, prev, 0, _ => by
    have hprefix := isPrefixOf_append_cons hs (c :: a) b
    rw [List.cons_append] at hprefix
    rw [List.cons_append, replaceLoop, replaceLoop, hprefix]
    split
    · next hmatch =>
      rw [Bool.and_eq_true] at hmatch
      have hlen : needle.length - 1 ≤ a.length := by
        have hle := (List.isPrefixOf_iff_prefix.mp hmatch.1).length_le
        rw [List.length_cons] at hle
        omega
      dsimp only
      rw [replaceLoop_append_cons hs hne b hlen, List.append_assoc]
    · dsimp only
      rw [replaceLoop_append_cons hs hne b (Nat.zero_le _)]
      rfl

theorem replaceLoop_boundary (hs : boundary (some s) = true) (l : List Char) :
    replaceLoop needle repl (some s) 0 l = replaceLoop needle repl none 0 l := by
  cases l with
  | nil => rfl
  | cons c l =>
    rw [replaceLoop, replaceLoop, hs]
    rfl

end

/-- The characters a conjunction adds to its guards. -/
def isJoint (c : Char) : Bool := c = '(' || c = ')' || c = '!' || c = '&' || c = ' '

theorem boundary_of_isJoint {c : Char} (h : isJoint c = true) : boundary (some c) = true := by
  simp only [isJoint, Bool.or_eq_true, decide_eq_true_eq] at h
  rcases h with (((rfl | rfl) | rfl) | rfl) | rfl <;> rfl

section

variable {needle repl : String}

/-- What the text is after the replacement, as characters. -/
def rewriteChars (needle repl : String) (l : List Char) : List Char :=
  (replaceLoop needle.toList repl.toList none 0 l).1

theorem toList_rewriteText (hne : needle.toList ≠ []) (text : String) :
    (rewriteText needle repl text).toList = rewriteChars needle repl text.toList := by
  unfold rewriteText replaceWordBoundary rewriteChars
  have hempty : needle.toList.isEmpty = false := by simpa using hne
  rw [hempty, Bool.false_or]
  cases hcontains : containsText needle.toList text.toList with
  | false => rw [replaceLoop_of_not_contains hcontains]; rfl
  | true =>
    dsimp only
    rw [if_neg (by simp)]
    split
    · exact String.toList_ofList
    · next hflag =>
      exact (replaceLoop_eq_self (Bool.eq_false_iff.mpr hflag)).symm

variable (hne : needle.toList ≠ []) (hneedle : ∀ c ∈ needle.toList, isJoint c = false)

include hne hneedle in
theorem rewriteChars_cons {s : Char} (hs : isJoint s = true) (a b : List Char) :
    rewriteChars needle repl (a ++ s :: b) =
      rewriteChars needle repl a ++ s :: rewriteChars needle repl b := by
  have hmem : s ∉ needle.toList := fun h => by
    rw [hneedle s h] at hs
    cases hs
  unfold rewriteChars
  rw [replaceLoop_append_cons hmem hne b (Nat.zero_le _), replaceLoop_boundary (boundary_of_isJoint hs)]

include hne hneedle in
theorem rewriteChars_joints (b : List Char) : ∀ {joints : List Char}, (∀ c ∈ joints, isJoint c = true) →
      rewriteChars needle repl (joints ++ b) = joints ++ rewriteChars needle repl b
  | [], _ => rfl
  | s :: joints, h => by
    have hcons : rewriteChars needle repl (s :: (joints ++ b)) =
        s :: rewriteChars needle repl (joints ++ b) :=
      rewriteChars_cons hne hneedle (h s List.mem_cons_self) [] (joints ++ b)
    rw [List.cons_append, hcons, rewriteChars_joints b fun c hc => h c (List.mem_cons_of_mem _ hc)]
    rfl

include hne hneedle in
theorem rewriteChars_literal (l : Bool × String) (b : List Char) :
    rewriteChars needle repl ((literal l).toList ++ b) =
      (literal (l.1, rewriteText needle repl l.2)).toList ++ rewriteChars needle repl b := by
  have hopen : ∀ c ∈ (if l.1 then "(" else "!(").toList, isJoint c = true := by
    cases l.1 <;> exact List.all_eq_true.mp (by decide)
  have hclose : ∀ (g : String) (b : List Char),
      (literal (l.1, g)).toList ++ b =
        (if l.1 then "(" else "!(").toList ++ (g.toList ++ ')' :: b) := by
    intro g b
    simp [literal]
  rw [hclose, hclose, rewriteChars_joints hne hneedle _ hopen,
    rewriteChars_cons hne hneedle (by decide), toList_rewriteText hne]

include hne hneedle in
/-- **A conjunction is rewritten guard by guard.** -/
theorem rewriteText_conjunction (ls : List (Bool × String)) : rewriteText needle repl (conjunction ls) =
      conjunction (ls.map fun l => (l.1, rewriteText needle repl l.2)) := by
  have hchars : ∀ ls : List (Bool × String),
      rewriteChars needle repl (conjunction ls).toList =
        (conjunction (ls.map fun l => (l.1, rewriteText needle repl l.2))).toList := by
    intro ls
    induction ls with
    | nil => rfl
    | cons l ls ih =>
      cases ls with
      | nil =>
        have hone : rewriteChars needle repl ((literal l).toList ++ []) =
            (literal (l.1, rewriteText needle repl l.2)).toList ++ [] :=
          rewriteChars_literal hne hneedle l []
        simpa [conjunction] using hone
      | cons l' ls =>
        have hjoint : ∀ c ∈ " && ".toList, isJoint c = true :=
          List.all_eq_true.mp (by decide)
        have hcons : ∀ (l l' : Bool × String) (ls : List (Bool × String)),
            (conjunction (l :: l' :: ls)).toList =
              (literal l).toList ++ (" && ".toList ++ (conjunction (l' :: ls)).toList) := by
          intro l l' ls
          simp [conjunction, String.intercalate_cons_cons]
        rw [hcons, rewriteChars_literal hne hneedle, rewriteChars_joints hne hneedle _ hjoint, ih,
          List.map_cons, List.map_cons, List.map_cons, hcons]
  apply String.toList_injective
  rw [toList_rewriteText hne, hchars]

end

end Mekhan
