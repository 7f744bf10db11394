import Mekhan.Application.Secrets
import Mekhan.Infra.JsonValue
import Mekhan.Infra.Returns
import Mathlib.Data.List.TakeWhile

/-!
# What the resolution of secrets substitutes

A text is read as characters and references. The loop of `resolve_string` replaces the text of one reference after the
other, each time in all of what it has so far: what a value brings in is searched too, and so is the inside of a
reference whose key has opening braces.
-/

namespace Mekhan

namespace Secrets

open Infra

/-! ## Pieces of a text -/

inductive Piece where
  | char (c : Char)
  | ref (key : List Char)
  deriving DecidableEq

def Piece.text : Piece → List Char
  | char c => [c]
  | ref key => refText key

def Piece.key? : Piece → Option (List Char)
  | char _ => none
  | ref key => some key

def written (ps : List Piece) : List Char := ps.flatMap Piece.text

/-- `keysOf` with the characters between the references. -/
def piecesOf : Nat → List Char → List Piece
  | 0, _ => []
  | _ + 1, [] => []
  | fuel + 1, c :: rest =>
    match refAt (c :: rest) with
    | some (key, after) => .ref key :: piecesOf fuel after
    | none => .char c :: piecesOf fuel rest

def pieces (s : String) : List Piece := piecesOf (s.length + 1) s.toList

/-- The keys of a string, as `extract_secret_keys` finds them. -/
def keysIn (s : String) : List (List Char) := keysOf (s.length + 1) s.toList

variable {key : List Char} {ps : List Piece} {text after : List Char}

theorem refAt_spec (h : refAt text = some (key, after)) : text = refText key ++ after ∧ key ≠ [] ∧ '\x7d' ∉ key := by
  unfold refAt at h
  split at h
  · next hhead =>
    obtain ⟨rest, rfl⟩ := List.isPrefixOf_iff_prefix.mp hhead
    rw [List.drop_left] at h
    dsimp only at h
    split at h
    · next c cs rest' hkey hrest =>
      have hsplit := List.takeWhile_append_dropWhile (p := fun c => decide (c ≠ '\x7d')) (l := rest)
      rw [hkey, hrest] at hsplit
      have hnot : '\x7d' ∉ c :: cs := fun hmem => absurd (List.mem_takeWhile_imp (hkey ▸ hmem)) (by simp)
      rw [hkey] at h
      cases h
      exact ⟨by rw [← hsplit]; simp [refText], List.cons_ne_nil _ _, hnot⟩
    · cases h
  · cases h

theorem length_refText_pos : 0 < (refText key).length := by
  simp [refText, head]

theorem refAt_refText (hne : key ≠ []) (hkey : '\x7d' ∉ key) (rest : List Char) :
    refAt (refText key ++ rest) = some (key, rest) := by
  have hall : ∀ c ∈ key, (decide (c ≠ '\x7d')) = true := fun c hc =>
    decide_eq_true fun heq => hkey (heq ▸ hc)
  have htext : refText key ++ rest = head ++ (key ++ '\x7d' :: '\x7d' :: rest) := by simp [refText]
  rw [htext, refAt, if_pos (List.isPrefixOf_iff_prefix.mpr (List.prefix_append _ _)), List.drop_left,
    List.takeWhile_append_of_pos hall, List.dropWhile_append_of_pos hall]
  cases key with
  | nil => exact absurd rfl hne
  | cons c cs => simp

theorem written_piecesOf : ∀ {fuel : Nat} {text : List Char}, text.length < fuel → written (piecesOf fuel text) = text
  | 0, _, h => absurd h (Nat.not_lt_zero _)
  | _ + 1, [], _ => rfl
  | fuel + 1, c :: rest, h => by
    rw [piecesOf]
    split
    · next key after hat =>
      have htext := (refAt_spec hat).1
      have hlength := congrArg List.length htext
      rw [List.length_append] at hlength
      have hpos := @length_refText_pos key
      show refText key ++ written (piecesOf fuel after) = _
      rw [written_piecesOf (by omega), ← htext]
    · exact congrArg (c :: ·) (written_piecesOf (Nat.lt_of_succ_lt_succ h))

theorem keys_piecesOf : ∀ (fuel : Nat) (text : List Char), (piecesOf fuel text).filterMap Piece.key? = keysOf fuel text
  | 0, _ => rfl
  | _ + 1, [] => rfl
  | fuel + 1, c :: rest => by
    rw [piecesOf, keysOf]
    cases refAt (c :: rest) with
    | some found => exact congrArg (found.1 :: ·) (keys_piecesOf fuel found.2)
    | none => exact keys_piecesOf fuel rest

theorem written_pieces (s : String) : written (pieces s) = s.toList :=
  written_piecesOf (by rw [String.length_toList]; exact Nat.lt_succ_self _)

theorem keys_pieces (s : String) : (pieces s).filterMap Piece.key? = keysIn s := keys_piecesOf _ _

theorem key_of_mem_keysOf : ∀ {fuel : Nat} {text : List Char}, key ∈ keysOf fuel text → key ≠ [] ∧ '\x7d' ∉ key
  | 0, _, h => by cases h
  | _ + 1, [], h => by cases h
  | fuel + 1, c :: rest, h => by
    rw [keysOf] at h
    split at h
    · next hat =>
      rcases List.mem_cons.mp h with rfl | h
      · exact (refAt_spec hat).2
      · exact key_of_mem_keysOf h
    · exact key_of_mem_keysOf h

/-! ## One replacement -/

/-- The reference replaced by a value, whose characters are characters from then on. -/
def fill (key : List Char) (value : String) : Piece → List Piece
  | .ref k => if k = key then value.toList.map .char else [.ref k]
  | p => [p]

/-- The text of the reference begins nowhere but at the reference. -/
def noStray (key : List Char) : List Piece → Bool
  | [] => true
  | p :: ps =>
    (decide (p = .ref key) || p.text.tails.all fun t => t.isEmpty || !(refText key).isPrefixOf (t ++ written ps)) &&
      noStray key ps

theorem replaceAll_copy {pat new rest : List Char} : ∀ {t : List Char} {fuel : Nat},
    (∀ t' ∈ t.tails, t' ≠ [] → pat.isPrefixOf (t' ++ rest) = false) → (t ++ rest).length < fuel →
      ∃ fuel', rest.length < fuel' ∧ replaceAll pat new fuel (t ++ rest) = t ++ replaceAll pat new fuel' rest
  | [], fuel, _, hfuel => ⟨fuel, hfuel, rfl⟩
  | c :: t, 0, _, hfuel => absurd hfuel (Nat.not_lt_zero _)
  | c :: t, fuel + 1, h, hfuel => by
    rw [List.tails, List.forall_mem_cons] at h
    obtain ⟨fuel', hfuel', heq⟩ := replaceAll_copy h.2 (Nat.lt_of_succ_lt_succ hfuel)
    refine ⟨fuel', hfuel', ?_⟩
    rw [List.cons_append, replaceAll, ← List.cons_append, h.1 (List.cons_ne_nil _ _), if_neg Bool.false_ne_true, heq]
    rfl

/-- **A replacement without stray occurrences** fills in the references and nothing else. -/
theorem replaceAll_written {value : String} : ∀ {ps : List Piece} {fuel : Nat}, noStray key ps = true →
    (written ps).length < fuel →
      replaceAll (refText key) value.toList fuel (written ps) = written (ps.flatMap (fill key value))
  | [], 0, _, hfuel => absurd hfuel (Nat.not_lt_zero _)
  | [], _ + 1, _, _ => rfl
  | p :: ps, fuel, h, hfuel => by
    rw [noStray, Bool.and_eq_true, Bool.or_eq_true, decide_eq_true_eq] at h
    change (p.text ++ written ps).length < fuel at hfuel
    change replaceAll _ _ fuel (p.text ++ written ps) = _
    by_cases hp : p = .ref key
    · subst hp
      have hfill : written ((Piece.ref key :: ps).flatMap (fill key value)) =
          value.toList ++ written (ps.flatMap (fill key value)) := by
        simp [written, fill, List.flatMap_append, List.flatMap_map, Piece.text]
      have hpos := @length_refText_pos key
      rw [hfill]
      change (refText key ++ written ps).length < fuel at hfuel
      change replaceAll _ _ fuel (refText key ++ written ps) = _
      rw [List.length_append] at hfuel
      obtain ⟨fuel, rfl⟩ : ∃ n, fuel = n + 1 := ⟨fuel - 1, by omega⟩
      have hstep : replaceAll (refText key) value.toList (fuel + 1) (refText key ++ written ps) =
          value.toList ++ replaceAll (refText key) value.toList fuel (written ps) := by
        have hprefix : (refText key).isPrefixOf (refText key ++ written ps) = true :=
          List.isPrefixOf_iff_prefix.mpr (List.prefix_append _ _)
        cases htext : refText key ++ written ps with
        | nil => simp [List.append_eq_nil_iff.mp htext] at hpos
        | cons c rest =>
          rw [replaceAll, ← htext, if_pos hprefix, List.drop_left]
      rw [hstep, replaceAll_written h.2 (by omega)]
    · have hclear : ∀ t ∈ p.text.tails, t ≠ [] → (refText key).isPrefixOf (t ++ written ps) = false := by
        intro t ht hne
        have hall := List.all_eq_true.mp (h.1.resolve_left hp) t ht
        simpa [hne] using hall
      obtain ⟨fuel', hfuel', hcopy⟩ := replaceAll_copy hclear hfuel
      have hsame : fill key value p = [p] := by
        cases p with
        | char c => rfl
        | ref k => exact if_neg fun hk : k = key => hp (hk ▸ rfl)
      rw [hcopy, replaceAll_written h.2 hfuel', List.flatMap_cons, hsame]
      rfl

/-! ## A string -/

/-- Every replacement of the loop of `resolve_string` is without stray occurrences. -/
def clean (store : SecretStore) : List (List Char) → List Piece → Bool
  | [], _ => true
  | key :: keys, ps => noStray key ps &&
    match store (String.ofList key) with
    | .ok value => clean store keys (ps.flatMap (fill key value))
    | .error _ => true

/-- The text with each of its references replaced, all at once. -/
def substituteText (val : String → String) (s : String) : String :=
  String.ofList ((pieces s).flatMap fun
    | .char c => [c]
    | .ref key => (val (String.ofList key)).toList)

variable {store : SecretStore} {val : String → String} {s : String}

theorem returns_map {α β : Type} {x : Except SecretError α} {g : α → β} : Returns (x.map g) ↔ Returns x := by
  cases x with
  | error e => exact iff_of_false (Returns.not_error e) (Returns.not_error e)
  | ok value => exact iff_of_true (Returns.ok _) (Returns.ok _)

theorem returns_replaceRefs : ∀ {keys : List (List Char)} {text : List Char},
    Returns (replaceRefs store keys text) ↔ ∀ key ∈ keys, Returns (store (String.ofList key))
  | [], text => iff_of_true (Returns.ok _) (by simp)
  | key :: keys, text => by
    rw [replaceRefs, Returns.bind_iff, List.forall_mem_cons]
    constructor
    · rintro ⟨value, hvalue, hrest⟩
      exact ⟨⟨value, hvalue⟩, returns_replaceRefs.mp hrest⟩
    · rintro ⟨⟨value, hvalue⟩, hrest⟩
      exact ⟨value, hvalue, returns_replaceRefs.mpr hrest⟩

theorem replaceRefs_written : ∀ {keys : List (List Char)} {ps : List Piece}, clean store keys ps = true →
    (∀ key ∈ keys, store (String.ofList key) = .ok (val (String.ofList key))) →
      (∀ key, .ref key ∈ ps → key ∈ keys) → replaceRefs store keys (written ps) =
        .ok (String.ofList (ps.flatMap fun
          | .char c => [c]
          | .ref key => (val (String.ofList key)).toList))
  | [], ps, _, _, hcovered => by
    rw [replaceRefs, written]
    refine congrArg _ (congrArg _ (List.flatMap_congr fun p hp => ?_))
    cases p with
    | char c => rfl
    | ref key => exact absurd (hcovered key hp) List.not_mem_nil
  | key :: keys, ps, hclean, hstore, hcovered => by
    rw [List.forall_mem_cons] at hstore
    rw [clean, hstore.1, Bool.and_eq_true] at hclean
    have hrest : ∀ k, .ref k ∈ ps.flatMap (fill key (val (String.ofList key))) → k ∈ keys := by
      intro k hk
      obtain ⟨p, hp, hk⟩ := List.mem_flatMap.mp hk
      cases p with
      | char c => simp [fill] at hk
      | ref k' =>
        by_cases hsame : k' = key
        · simp [fill, hsame] at hk
        · simp only [fill, if_neg hsame, List.mem_singleton, Piece.ref.injEq] at hk
          exact (List.mem_cons.mp (hcovered k' hp)).resolve_left hsame |> hk.symm.subst
    rw [replaceRefs, hstore.1]
    change replaceRefs store keys (replaceAll _ _ _ (written ps)) = _
    rw [replaceAll_written hclean.1 (Nat.lt_succ_self _), replaceRefs_written hclean.2 hstore.2 hrest, List.flatMap_assoc]
    refine congrArg _ (congrArg _ (List.flatMap_congr fun p _ => ?_))
    cases p with
    | char c => rfl
    | ref k =>
      by_cases hsame : k = key
      · simp [fill, hsame, List.flatMap_map]
      · simp [fill, hsame]

theorem keysIn_whole (h : key ∈ keysIn s) (hwhole : s.toList = refText key) : pieces s = [.ref key] := by
  have hkey := key_of_mem_keysOf h
  have hat := refAt_refText hkey.1 hkey.2 []
  rw [List.append_nil] at hat
  have hpos := @length_refText_pos key
  rw [pieces, hwhole]
  cases htext : refText key with
  | nil => simp [htext] at hpos
  | cons c rest =>
    rw [piecesOf, ← htext, hat]
    cases s.length <;> rfl

theorem resolveString_nil (h : keysIn s = []) : resolveString store s = .ok (.str s) := by
  rw [keysIn] at h
  rw [resolveString, h]

theorem resolveString_cons (h : keysIn s = key :: keys) : resolveString store s =
    ((if s.toList = refText key then store (String.ofList key) else replaceRefs store (key :: keys) s.toList).map .str) := by
  rw [keysIn] at h
  rw [resolveString, h]
  exact (apply_ite ..).symm

theorem returns_resolveString :
    Returns (resolveString store s) ↔ ∀ key ∈ keysIn s, Returns (store (String.ofList key)) := by
  cases hkeys : keysIn s with
  | nil => exact iff_of_true (resolveString_nil hkeys ▸ Returns.ok _) (by simp)
  | cons key keys =>
    rw [resolveString_cons hkeys, returns_map]
    split
    · next hwhole =>
      have hpieces := keysIn_whole (hkeys ▸ List.mem_cons_self) hwhole
      have hnone := keys_pieces s
      rw [hpieces, hkeys] at hnone
      obtain rfl : keys = [] := by simpa [Piece.key?] using hnone.symm
      rw [List.forall_mem_singleton]
    · exact returns_replaceRefs ..

theorem resolveString_eq (hclean : clean store (keysIn s) (pieces s) = true)
    (hstore : ∀ key ∈ keysIn s, store (String.ofList key) = .ok (val (String.ofList key))) :
    resolveString store s = .ok (.str (substituteText val s)) := by
  have hcovered : ∀ key, .ref key ∈ pieces s → key ∈ keysIn s := fun key hkey => by
    rw [← keys_pieces]
    exact List.mem_filterMap.mpr ⟨_, hkey, rfl⟩
  have hrun := replaceRefs_written hclean hstore hcovered
  rw [written_pieces] at hrun
  cases hkeys : keysIn s with
  | nil =>
    rw [hkeys, replaceRefs] at hrun
    rw [resolveString_nil hkeys, substituteText, ← Except.ok.inj hrun, String.ofList_toList]
  | cons key keys =>
    rw [resolveString_cons hkeys]
    split
    · next hwhole =>
      have hmem : key ∈ keysIn s := hkeys ▸ List.mem_cons_self
      rw [hstore key hmem, substituteText, keysIn_whole hmem hwhole]
      simp [Except.map]
    · rw [← hkeys, hrun]
      rfl

/-! ## A value -/

section

mutual

/-- The strings of a value, in the order in which they are resolved and searched for keys. -/
def strings : Json → List String
  | .str s => [s]
  | .arr elems => stringsList elems
  | .obj entries => stringsEntries entries
  | .null | .bool _ | .num _ => []

def stringsList : List Json → List String
  | [] => []
  | v :: vs => strings v ++ stringsList vs

def stringsEntries : List (String × Json) → List String
  | [] => []
  | (_, v) :: es => strings v ++ stringsEntries es

end

def extractSecretKeys (v : Json) : List String := (strings v).flatMap fun s => (keysIn s).map String.ofList

mutual

/-- The value with its strings changed. -/
def mapStrings (impl : MapImpl) (f : String → String) : Json → Json
  | .str s => .str (f s)
  | .arr elems => .arr (mapStringsList impl f elems)
  | .obj entries => .obj (collect impl (mapStringsEntries impl f entries))
  | .null => .null
  | .bool b => .bool b
  | .num n => .num n

def mapStringsList (impl : MapImpl) (f : String → String) : List Json → List Json
  | [] => []
  | v :: vs => mapStrings impl f v :: mapStringsList impl f vs

def mapStringsEntries (impl : MapImpl) (f : String → String) : List (String × Json) → List (String × Json)
  | [] => []
  | (k, v) :: es => (k, mapStrings impl f v) :: mapStringsEntries impl f es

end

end

variable {impl : MapImpl} {f : String → String} {v : Json}

theorem mem_stringsList {vs : List Json} : s ∈ stringsList vs ↔ ∃ v ∈ vs, s ∈ strings v := by
  induction vs with
  | nil => simp [stringsList]
  | cons _ _ ih => simp [stringsList, ih]

theorem mem_stringsEntries : ∀ {es : List (String × Json)}, s ∈ stringsEntries es ↔ ∃ e ∈ es, s ∈ strings e.2
  | [] => by simp [stringsEntries]
  | e :: es => by simp [stringsEntries, mem_stringsEntries]

theorem mapStringsList_eq (vs : List Json) : mapStringsList impl f vs = vs.map (mapStrings impl f) := by
  induction vs with
  | nil => rfl
  | cons _ _ ih => exact congrArg (_ :: ·) ih

theorem mapStringsEntries_eq : ∀ es : List (String × Json),
    mapStringsEntries impl f es = es.map fun e => (e.1, mapStrings impl f e.2)
  | [] => rfl
  | _ :: es => congrArg (_ :: ·) (mapStringsEntries_eq es)

theorem resolveSecretsList_eq (vs : List Json) :
    resolveSecretsList impl store vs = vs.mapM (resolveSecrets impl store) := by
  induction vs with
  | nil => rfl
  | cons _ _ ih =>
    rw [resolveSecretsList, List.mapM_cons, ih]
    rfl

/-- A member with its value resolved. -/
def resolveEntry (impl : MapImpl) (store : SecretStore) (e : String × Json) : Except SecretError (String × Json) :=
  (resolveSecrets impl store e.2).map fun v => (e.1, v)

theorem resolveSecretsEntries_eq (es : List (String × Json)) :
    resolveSecretsEntries impl store es = es.mapM (resolveEntry impl store) := by
  induction es with
  | nil => rfl
  | cons e _ ih =>
    rw [resolveSecretsEntries, List.mapM_cons, ih, resolveEntry]
    cases resolveSecrets impl store e.2 <;> rfl

theorem returns_resolveSecrets :
    Returns (resolveSecrets impl store v) ↔ ∀ s ∈ strings v, Returns (resolveString store s) := by
  induction v using Json.memInduction with
  | null | bool | num => exact iff_of_true (Returns.ok _) (by simp [strings])
  | str s => rw [resolveSecrets, strings, List.forall_mem_singleton]
  | arr elems ih =>
    rw [resolveSecrets, returns_map, resolveSecretsList_eq, Returns.mapM_iff, strings]
    simp only [mem_stringsList]
    exact ⟨fun h s ⟨v, hv, hs⟩ => (ih v hv).mp (h v hv) s hs, fun h v hv => (ih v hv).mpr fun s hs => h s ⟨v, hv, hs⟩⟩
  | obj entries ih =>
    rw [resolveSecrets, returns_map, resolveSecretsEntries_eq, Returns.mapM_iff, strings]
    simp only [mem_stringsEntries, resolveEntry, returns_map]
    exact ⟨fun h s ⟨e, he, hs⟩ => (ih e he).mp (h e he) s hs, fun h e he => (ih e he).mpr fun s hs => h s ⟨e, he, hs⟩⟩

theorem resolveSecrets_eq : (∀ s ∈ strings v, resolveString store s = .ok (.str (f s))) →
    resolveSecrets impl store v = .ok (mapStrings impl f v) := by
  induction v using Json.memInduction with
  | null | bool | num => exact fun _ => rfl
  | str s => exact fun h => h s (List.mem_singleton_self s)
  | arr elems ih =>
    intro h
    rw [resolveSecrets, resolveSecretsList_eq, Returns.mapM_eq_ok fun v hv => ih v hv fun s hs =>
      h s (mem_stringsList.mpr ⟨v, hv, hs⟩), mapStrings, mapStringsList_eq]
    rfl
  | obj entries ih =>
    intro h
    rw [resolveSecrets, resolveSecretsEntries_eq, Returns.mapM_eq_ok (g := fun e => (e.1, mapStrings impl f e.2))
      fun e he => ?_, mapStrings, mapStringsEntries_eq]
    · rfl
    · rw [resolveEntry, ih e he fun s hs => h s (mem_stringsEntries.mpr ⟨e, he, hs⟩)]
      rfl

/-! ## What is read -/

variable {store' : SecretStore}

theorem replaceRefs_congr : ∀ {keys : List (List Char)} {text : List Char},
    (∀ key ∈ keys, store' (String.ofList key) = store (String.ofList key)) →
      replaceRefs store' keys text = replaceRefs store keys text
  | [], _, _ => rfl
  | key :: keys, text, h => by
    rw [List.forall_mem_cons] at h
    rw [replaceRefs, replaceRefs, h.1]
    exact bind_congr fun _ => replaceRefs_congr h.2

theorem resolveString_congr (h : ∀ key ∈ keysIn s, store' (String.ofList key) = store (String.ofList key)) :
    resolveString store' s = resolveString store s := by
  cases hkeys : keysIn s with
  | nil => rw [resolveString_nil hkeys, resolveString_nil hkeys]
  | cons key keys =>
    rw [hkeys] at h
    rw [resolveString_cons hkeys, resolveString_cons hkeys, h key List.mem_cons_self, replaceRefs_congr h]

theorem mapM_congr {α β ε : Type} {f g : α → Except ε β} : ∀ {l : List α}, (∀ a ∈ l, f a = g a) → l.mapM f = l.mapM g
  | [], _ => rfl
  | a :: l, h => by
    rw [List.mapM_cons, List.mapM_cons, h a List.mem_cons_self, mapM_congr fun b hb => h b (List.mem_cons_of_mem _ hb)]

theorem resolveSecrets_congr : (∀ s ∈ strings v, resolveString store' s = resolveString store s) →
    resolveSecrets impl store' v = resolveSecrets impl store v := by
  induction v using Json.memInduction with
  | null | bool | num => exact fun _ => rfl
  | str s => exact fun h => h s (List.mem_singleton_self s)
  | arr elems ih =>
    intro h
    rw [resolveSecrets, resolveSecrets, resolveSecretsList_eq, resolveSecretsList_eq, mapM_congr fun v hv =>
      ih v hv fun s hs => h s (mem_stringsList.mpr ⟨v, hv, hs⟩)]
  | obj entries ih =>
    intro h
    rw [resolveSecrets, resolveSecrets, resolveSecretsEntries_eq, resolveSecretsEntries_eq, mapM_congr fun e he => ?_]
    rw [resolveEntry, resolveEntry, ih e he fun s hs => h s (mem_stringsEntries.mpr ⟨e, he, hs⟩)]

/-! ## Simultaneous substitution -/

theorem forall_mem_extractSecretKeys {P : String → Prop} : (∀ key ∈ extractSecretKeys v, P key) ↔
    ∀ s ∈ strings v, ∀ key ∈ keysIn s, P (String.ofList key) := by
  simp only [extractSecretKeys, List.forall_mem_flatMap, List.forall_mem_map]

theorem exists_error_iff {α : Type} {x : Except SecretError α} : (∃ e, x = .error e) ↔ ¬ Returns x := by
  cases x with
  | error e => exact iff_of_true ⟨e, rfl⟩ (Returns.not_error e)
  | ok a => exact iff_of_false nofun (not_not_intro (Returns.ok a))

/-- The resolution fails on a key that cannot be read, otherwise replaces the references and nothing else, and
depends on the keys of the value alone. -/
structure Simultaneous (impl : MapImpl) (store : SecretStore) (v : Json) : Prop where
  fails : (∃ e, resolveSecrets impl store v = .error e) ↔ ∃ key ∈ extractSecretKeys v, ∃ e, store key = .error e
  substitutes : ∀ val, (∀ key ∈ extractSecretKeys v, store key = .ok (val key)) →
    resolveSecrets impl store v = .ok (mapStrings impl (substituteText val) v)
  reads : ∀ store', (∀ key ∈ extractSecretKeys v, store' key = store key) →
    resolveSecrets impl store' v = resolveSecrets impl store v

/-- **The resolution is a simultaneous substitution** where a key cannot be read, or no replacement meets a stray
occurrence. -/
theorem simultaneous_of_clean (impl : MapImpl) (store : SecretStore) (v : Json)
    (hclean : (∀ key ∈ extractSecretKeys v, Returns (store key)) →
      ∀ s ∈ strings v, clean store (keysIn s) (pieces s) = true) : Simultaneous impl store v where
  fails := by
    rw [exists_error_iff, returns_resolveSecrets]
    simp only [returns_resolveString, exists_error_iff]
    rw [← forall_mem_extractSecretKeys (P := fun key => Returns (store key))]
    simp only [not_forall, exists_prop]
  substitutes := fun val hval => resolveSecrets_eq fun s hs =>
    resolveString_eq (hclean (fun key hkey => ⟨_, hval key hkey⟩) s hs) (forall_mem_extractSecretKeys.mp hval s hs)
  reads := fun _ h => resolveSecrets_congr fun s hs => resolveString_congr (forall_mem_extractSecretKeys.mp h s hs)

/-- A secret whose value is a reference to another one. -/
def chained : SecretStore := fun key => .ok (if key = "a" then "\x7b\x7bsecret:b\x7d\x7d" else "hunter2")

def twoRefs : Json := .str "\x7b\x7bsecret:a\x7d\x7d \x7b\x7bsecret:b\x7d\x7d"

theorem simultaneous_of_clean_twoRefs : Simultaneous .btree (fun key => .ok (key ++ "!")) twoRefs :=
  simultaneous_of_clean _ _ _ fun _ => by decide +kernel

/-- **A value that refers to another secret is resolved in turn.** -/
theorem value_is_resolved_again : ¬ ∀ impl store v, Simultaneous impl store v := fun h => by
  have hrun := (h .btree chained twoRefs).substitutes
    (fun key => if key = "a" then "\x7b\x7bsecret:b\x7d\x7d" else "hunter2") fun _ _ => rfl
  exact absurd hrun (by decide +kernel)

end Secrets

end Mekhan
