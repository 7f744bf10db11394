import Mekhan.Infra.HashMap
import Mekhan.Infra.JsonMap

/-!
# Serializers and what they read back

A `Codec` is a serializer and a deserializer of one type. Reading is a relation: a hash map that is
read comes back with whatever iteration order it happens to get, so one tree can be read as several
values. Each codec carries two facts.

* `total` — what was written can be read.
* `stable_iff` — for which values every value read back is again written as the same JSON value.
  `Settled` says it of the value, part by part; the laws of the combinators below compute it.

A `Fields` is the same for the fields a structure writes into its object. Structures are made of
`Fields` joined by `append`, enumerations of codecs joined by `sigma`.
-/

namespace Infra.Serde

open Json

variable {impl : MapImpl} {α β : Type}

/-- What is written for a value, and what may be read from what was written. -/
structure Codec (impl : MapImpl) (α : Type) where
  enc : α → Json
  /-- The values that reading the tree may give. -/
  Reads : Json → α → Prop
  /-- Every value read back from the value's tree is written as the same JSON value. -/
  Settled : α → Prop
  total : ∀ a, ∃ a', Reads (enc a) a'
  stable_iff : ∀ a, (∀ a', Reads (enc a) a' → canon impl (enc a') = canon impl (enc a)) ↔ Settled a

namespace Codec

/-! ## Leaves -/

/-- A codec that reads back exactly what was written. -/
def exact (enc : α → Json) (dec : Json → Option α) (h : ∀ a, dec (enc a) = some a) :
    Codec impl α where
  enc := enc
  Reads j a := dec j = some a
  Settled _ := True
  total a := ⟨a, h a⟩
  stable_iff a := by
    refine ⟨fun _ => trivial, fun _ a' ha' => ?_⟩
    obtain rfl := Option.some.inj ((h a).symm.trans ha')
    rfl

def string : Codec impl String := exact .str asStr? fun _ => rfl

def nat : Codec impl Nat :=
  exact (fun n => .num (.posInt n)) (fun | .num n => n.asU64 | _ => none) fun _ => rfl

def int : Codec impl Int :=
  exact (fun i => .num (.ofInt i)) (fun | .num n => n.toInt? | _ => none)
    fun i => Number.toInt?_ofInt i

def bool : Codec impl Bool := exact .bool (fun | .bool b => some b | _ => none) fun _ => rfl

/-- A JSON value: it is read into maps, whatever the tree, and `double` is what the parser makes of the
text printed for a double. -/
def value (double : BitVec 64 → BitVec 64) : Codec impl Json where
  enc := id
  Reads j v := v = canon impl (mapDoubles double j)
  Settled v := canon impl (mapDoubles double v) = canon impl v
  total j := ⟨_, rfl⟩
  stable_iff j := by
    rw [forall_eq]
    exact Eq.congr_left (canon_canon impl _)

end Codec

/-- A type with a text form that can be read back. -/
structure TextForm (α : Type) where
  toText : α → String
  ofText : String → Option α
  ofText_toText : ∀ a, ofText (toText a) = some a

/-- Values that are written as texts. -/
def Codec.text (f : TextForm α) : Codec impl α :=
  Codec.exact (fun a => .str (f.toText a)) (fun j => j.asStr?.bind f.ofText) fun a => by
    exact f.ofText_toText a

/-- A unit enumeration, written as the names of its values. -/
def TextForm.ofNames [DecidableEq α] (name : α → String) (all : List α) (hall : ∀ a, a ∈ all)
    (hname : ∀ a b, name a = name b → a = b) : TextForm α where
  toText := name
  ofText s := all.find? fun a => name a = s
  ofText_toText a := by
    have hsome : (all.find? fun b => decide (name b = name a)).isSome := by
      rw [List.find?_isSome]
      exact ⟨a, hall a, by simp⟩
    obtain ⟨b, hb⟩ := Option.isSome_iff_exists.mp hsome
    have hba : name b = name a := by simpa using List.find?_some hb
    rw [hb, hname b a hba]

namespace Codec

/-! ## Transport, pairs and lists -/

/-- The codec of a type in bijection with another. -/
def map (c : Codec impl α) (e : α ≃ β) : Codec impl β where
  enc b := c.enc (e.symm b)
  Reads j b := c.Reads j (e.symm b)
  Settled b := c.Settled (e.symm b)
  total b := by
    obtain ⟨a', ha'⟩ := c.total (e.symm b)
    exact ⟨e a', by rwa [Equiv.symm_apply_apply]⟩
  stable_iff b := by
    rw [← c.stable_iff]
    constructor
    · intro h a' ha'
      have := h (e a') (by rwa [Equiv.symm_apply_apply])
      rwa [Equiv.symm_apply_apply] at this
    · exact fun h b' hb' => h _ hb'

def pair (c : Codec impl α) (d : Codec impl β) : Codec impl (α × β) where
  enc p := .arr [c.enc p.1, d.enc p.2]
  Reads j p := ∃ x y, j = .arr [x, y] ∧ c.Reads x p.1 ∧ d.Reads y p.2
  Settled p := c.Settled p.1 ∧ d.Settled p.2
  total p := by
    obtain ⟨a, ha⟩ := c.total p.1
    obtain ⟨b, hb⟩ := d.total p.2
    exact ⟨(a, b), _, _, rfl, ha, hb⟩
  stable_iff p := by
    obtain ⟨a, b⟩ := p
    rw [← c.stable_iff, ← d.stable_iff]
    constructor
    · intro h
      obtain ⟨a₀, ha₀⟩ := c.total a
      obtain ⟨b₀, hb₀⟩ := d.total b
      refine ⟨fun a' ha' => ?_, fun b' hb' => ?_⟩
      · have heq := h (a', b₀) ⟨_, _, rfl, ha', hb₀⟩
        simp only [canon_arr, List.map_cons, Json.arr.injEq, List.cons.injEq] at heq
        exact heq.1
      · have heq := h (a₀, b') ⟨_, _, rfl, ha₀, hb'⟩
        simp only [canon_arr, List.map_cons, Json.arr.injEq, List.cons.injEq] at heq
        exact heq.2.1
    · rintro ⟨ha, hb⟩ ⟨a', b'⟩ ⟨x, y, hxy, hx, hy⟩
      simp only [Json.arr.injEq, List.cons.injEq, and_true] at hxy
      obtain ⟨rfl, rfl⟩ := hxy
      simp only [canon_arr, List.map_cons, ha a' hx, hb b' hy]

end Codec

/-! ## Lists of readings -/

/-- What reading a list of trees element by element may give. -/
abbrev ReadsAll (c : Codec impl α) (js : List Json) (as : List α) : Prop :=
  List.Forall₂ c.Reads js as

theorem readsAll_total (c : Codec impl α) : ∀ as : List α, ∃ as', ReadsAll c (as.map c.enc) as'
  | [] => ⟨[], .nil⟩
  | a :: as => by
    obtain ⟨a', ha'⟩ := c.total a
    obtain ⟨as', has'⟩ := readsAll_total c as
    exact ⟨a' :: as', .cons ha' has'⟩

theorem readsAll_stable_iff (c : Codec impl α) : ∀ as : List α, (∀ as', ReadsAll c (as.map c.enc) as' →
      as'.map (canon impl ∘ c.enc) = as.map (canon impl ∘ c.enc)) ↔ ∀ a ∈ as, c.Settled a
  | [] => by
    refine ⟨fun _ => by simp, fun _ as' has' => ?_⟩
    cases has'
    rfl
  | a :: as => by
    rw [List.forall_mem_cons, ← c.stable_iff, ← readsAll_stable_iff c as]
    constructor
    · intro h
      obtain ⟨a₀, ha₀⟩ := c.total a
      obtain ⟨as₀, has₀⟩ := readsAll_total c as
      refine ⟨fun a' ha' => ?_, fun as' has' => ?_⟩
      · exact (List.cons.inj (h (a' :: as₀) (.cons ha' has₀))).1
      · exact (List.cons.inj (h (a₀ :: as') (.cons ha₀ has'))).2
    · rintro ⟨ha, has⟩ as' has'
      cases has' with
      | cons hx hxs =>
        rw [List.map_cons, List.map_cons, has _ hxs]
        exact congrArg (· :: _) (ha _ hx)

def Codec.list (c : Codec impl α) : Codec impl (List α) where
  enc as := .arr (as.map c.enc)
  Reads j as := ∃ js, j = .arr js ∧ ReadsAll c js as
  Settled as := ∀ a ∈ as, c.Settled a
  total as := by
    obtain ⟨as', has'⟩ := readsAll_total c as
    exact ⟨as', _, rfl, has'⟩
  stable_iff as := by
    rw [← readsAll_stable_iff c as]
    refine ⟨fun h as' has' => ?_, ?_⟩
    · have := h as' ⟨_, rfl, has'⟩
      simpa only [canon_arr, List.map_map, Json.arr.injEq] using this
    · rintro h as' ⟨js, hjs, has'⟩
      cases hjs
      simpa only [canon_arr, List.map_map, Json.arr.injEq] using h as' has'

/-! ## Fields -/

/-- The fields a structure writes into its object, under the keys `keys` and in their order. -/
structure Fields (impl : MapImpl) (α : Type) where
  keys : List String
  enc : α → List (String × Json)
  Reads : List (String × Json) → α → Prop
  Settled : α → Prop
  enc_keys : ∀ a, ((enc a).map (·.1)).Sublist keys
  reads_congr : ∀ {es es' a}, (∀ k ∈ keys, es.lookup k = es'.lookup k) → Reads es a → Reads es' a
  total : ∀ a, ∃ a', Reads (enc a) a'
  stable_iff : ∀ a, (∀ a', Reads (enc a) a' →
    (enc a').map (canonEntry impl) = (enc a).map (canonEntry impl)) ↔ Settled a

variable {k : String} {es : List (String × α)}

theorem lookup_eq_none_of_notMem (h : k ∉ es.map (·.1)) : es.lookup k = none := by
  rw [List.lookup_eq_none_iff]
  intro p hp
  have hne : k ≠ p.1 := fun he => h (he ▸ List.mem_map_of_mem hp)
  simpa using hne

theorem lookup_cons_of_ne {k' : String} {v : α} (h : k' ≠ k) : ((k, v) :: es).lookup k' = es.lookup k' := by
  rw [List.lookup_cons, beq_eq_false_iff_ne.mpr h]

namespace Fields

/-! ### One field -/

/-- An absent value leaves no entry. -/
def entry (k : String) (w : Option Json) : List (String × Json) := w.elim [] fun j => [(k, j)]

@[simp] theorem lookup_entry (k : String) (w : Option Json) : (entry k w).lookup k = w := by
  cases w <;> simp [entry]

theorem entry_keys (k : String) (w : Option Json) : ((entry k w).map (·.1)).Sublist [k] := by
  cases w <;> simp [entry]

theorem entry_canon_inj {k : String} {w w' : Option Json} :
    (entry k w).map (canonEntry impl) = (entry k w').map (canonEntry impl) ↔
      w.map (canon impl) = w'.map (canon impl) := by
  cases w <;> cases w' <;> simp [entry, canonEntry]

/-- A field under `k`: what it writes, if anything, and what it reads. -/
def single (k : String) (w : α → Option Json) (R : Option Json → α → Prop) (S : α → Prop)
    (htotal : ∀ a, ∃ a', R (w a) a')
    (hstable : ∀ a, (∀ a', R (w a) a' → (w a').map (canon impl) = (w a).map (canon impl)) ↔ S a) :
    Fields impl α where
  keys := [k]
  enc a := entry k (w a)
  Reads es a := R (es.lookup k) a
  Settled := S
  enc_keys a := entry_keys k (w a)
  reads_congr h hr := by
    rw [← h k (List.mem_singleton_self k)]
    exact hr
  total a := by simpa using htotal a
  stable_iff a := by
    rw [← hstable a]
    refine forall_congr' fun a' => ?_
    rw [lookup_entry, entry_canon_inj]

/-- A field that is always there. -/
def required (k : String) (c : Codec impl α) : Fields impl α :=
  single k (fun a => some (c.enc a)) (fun o a => ∃ j, o = some j ∧ c.Reads j a) c.Settled
    (fun a => (c.total a).imp fun _ h => ⟨_, rfl, h⟩)
    (fun a => by
      rw [← c.stable_iff]
      refine forall_congr' fun a' => ?_
      simp)

/-- What an optional value reads: nothing and `null` are `None`. -/
def ReadsOption (c : Codec impl α) (o : Option Json) : Option α → Prop
  | none => o = none ∨ o = some .null
  | some a => ∃ j, o = some j ∧ j ≠ .null ∧ c.Reads j a

theorem readsOption_written (c : Codec impl α) (a : α) (o : Option α) : ReadsOption c (some (c.enc a)) o ↔
      (c.enc a = .null ∧ o = none) ∨ (c.enc a ≠ .null ∧ ∃ a', o = some a' ∧ c.Reads (c.enc a) a') := by
  cases o with
  | none => simp [ReadsOption]
  | some b => simp [ReadsOption]

theorem readsOption_total (c : Codec impl α) (a : α) : ∃ o, ReadsOption c (some (c.enc a)) o := by
  by_cases h : c.enc a = .null
  · exact ⟨none, (readsOption_written c a none).mpr (Or.inl ⟨h, rfl⟩)⟩
  · obtain ⟨a', ha'⟩ := c.total a
    exact ⟨some a', (readsOption_written c a _).mpr (Or.inr ⟨h, a', rfl, ha'⟩)⟩

/-- `Option` with `skip_serializing_if = "Option::is_none"`. A value that is itself written as `null`
comes back as `None`, which is then not written at all. -/
def optional (k : String) (c : Codec impl α) : Fields impl (Option α) :=
  single k (Option.map c.enc) (ReadsOption c)
    (fun | none => True | some a => c.enc a ≠ .null ∧ c.Settled a)
    (fun
      | none => ⟨none, Or.inl rfl⟩
      | some a => readsOption_total c a)
    (fun
      | none => by
        refine ⟨fun _ => trivial, fun _ o ho => ?_⟩
        cases o with
        | none => rfl
        | some b => exact absurd ho (by simp [ReadsOption])
      | some a => by
        simp only [Option.map_some, readsOption_written]
        rw [← c.stable_iff]
        constructor
        · intro h
          have hne : c.enc a ≠ .null := fun hnull =>
            absurd (h none (Or.inl ⟨hnull, rfl⟩)) (by simp)
          refine ⟨hne, fun a' ha' => ?_⟩
          exact Option.some.inj (h (some a') (Or.inr ⟨hne, a', rfl, ha'⟩))
        · rintro ⟨hne, h⟩ o (⟨hnull, -⟩ | ⟨-, a', rfl, ha'⟩)
          · exact absurd hnull hne
          · exact congrArg some (h a' ha'))

/-- `Option` written as `null` when `None`. -/
def nullable (k : String) (c : Codec impl α) : Fields impl (Option α) :=
  single k (fun o => some (o.elim .null c.enc)) (ReadsOption c)
    (fun | none => True | some a => c.enc a ≠ .null → c.Settled a)
    (fun
      | none => ⟨none, Or.inr rfl⟩
      | some a => readsOption_total c a)
    (fun
      | none => by
        refine ⟨fun _ => trivial, fun _ o ho => ?_⟩
        cases o with
        | none => rfl
        | some b => exact absurd ho (by simp [ReadsOption])
      | some a => by
        simp only [Option.elim_some, readsOption_written]
        rw [← c.stable_iff]
        constructor
        · intro h hne a' ha'
          exact Option.some.inj (h (some a') (Or.inr ⟨hne, a', rfl, ha'⟩))
        · rintro h o (⟨hnull, rfl⟩ | ⟨hne, a', rfl, ha'⟩)
          · simp [hnull]
          · exact congrArg some (h hne a' ha'))

/-- A field with a default for reading, `#[serde(default)]`, that is always written. -/
def defaulted (k : String) (c : Codec impl α) (d : α) : Fields impl α :=
  single k (fun a => some (c.enc a)) (fun o a => o.elim (a = d) fun j => c.Reads j a) c.Settled
    c.total
    (fun a => by
      rw [← c.stable_iff]
      refine forall_congr' fun a' => ?_
      simp)

/-- A field that is left out at its default, and never read as it otherwise. -/
def skipped [DecidableEq α] (k : String) (c : Codec impl α) (d : α)
    (hd : ∀ a, c.Reads (c.enc a) d → a = d) : Fields impl α :=
  single k (fun a => if a = d then none else some (c.enc a))
    (fun o a => o.elim (a = d) fun j => c.Reads j a) (fun a => a = d ∨ c.Settled a)
    (fun a => by
      by_cases ha : a = d
      · exact ⟨d, by simp [ha]⟩
      · simpa [ha] using c.total a)
    (fun a => by
      by_cases ha : a = d
      · simp [ha]
      · simp only [ha, if_false, Option.elim_some, false_or, Option.map_some]
        rw [← c.stable_iff]
        refine forall_congr' fun a' => imp_congr_right fun ha' => ?_
        have hne : a' ≠ d := fun he => ha (hd a (he ▸ ha'))
        simp [hne])

/-! ### Joining fields -/

/-- The same fields of a type in bijection with another. -/
def map (F : Fields impl α) (e : α ≃ β) : Fields impl β where
  keys := F.keys
  enc b := F.enc (e.symm b)
  Reads es b := F.Reads es (e.symm b)
  Settled b := F.Settled (e.symm b)
  enc_keys b := F.enc_keys _
  reads_congr h hr := F.reads_congr h hr
  total b := by
    obtain ⟨a', ha'⟩ := F.total (e.symm b)
    exact ⟨e a', by rwa [Equiv.symm_apply_apply]⟩
  stable_iff b := by
    rw [← F.stable_iff]
    constructor
    · intro h a' ha'
      have := h (e a') (by rwa [Equiv.symm_apply_apply])
      rwa [Equiv.symm_apply_apply] at this
    · exact fun h b' hb' => h _ hb'

theorem lookup_enc_of_notMem (F : Fields impl α) {k : String} (hk : k ∉ F.keys) (a : α) :
    (F.enc a).lookup k = none :=
  lookup_eq_none_of_notMem fun h => hk ((F.enc_keys a).subset h)

theorem append_canon_inj {l₁ l₂ l₁' l₂' : List (String × Json)} {ks : List String}
    (h₁ : ∀ e ∈ l₁, e.1 ∈ ks) (h₁' : ∀ e ∈ l₁', e.1 ∈ ks) (h₂ : ∀ e ∈ l₂, e.1 ∉ ks)
    (h₂' : ∀ e ∈ l₂', e.1 ∉ ks) (h : l₁ ++ l₂ = l₁' ++ l₂') : l₁ = l₁' ∧ l₂ = l₂' := by
  have hin : ∀ {l : List (String × Json)}, (∀ e ∈ l, e.1 ∈ ks) →
      l.filter (fun e => e.1 ∈ ks) = l := fun hl => by
    rw [List.filter_eq_self]
    simpa using hl
  have hout : ∀ {l : List (String × Json)}, (∀ e ∈ l, e.1 ∉ ks) →
      l.filter (fun e => e.1 ∈ ks) = [] := fun hl => by
    rw [List.filter_eq_nil_iff]
    simpa using hl
  have hfilter := congrArg (List.filter fun e => e.1 ∈ ks) h
  rw [List.filter_append, List.filter_append, hin h₁, hin h₁', hout h₂, hout h₂', List.append_nil,
    List.append_nil] at hfilter
  subst hfilter
  exact ⟨rfl, List.append_cancel_left h⟩

/-- Two groups of fields with different keys, side by side in one object, are read each on its own. -/
theorem reads_beside (F : Fields impl α) (G : Fields impl β) (h : ∀ k ∈ F.keys, k ∉ G.keys) (a a' : α)
    (b b' : β) : (F.Reads (F.enc a ++ G.enc b) a' ↔ F.Reads (F.enc a) a') ∧
      (G.Reads (F.enc a ++ G.enc b) b' ↔ G.Reads (G.enc b) b') := by
  have hF : ∀ k ∈ F.keys, (F.enc a ++ G.enc b).lookup k = (F.enc a).lookup k := fun k hk => by
    rw [List.lookup_append, G.lookup_enc_of_notMem (h k hk), Option.or_none]
  have hG : ∀ k ∈ G.keys, (F.enc a ++ G.enc b).lookup k = (G.enc b).lookup k := fun k hk => by
    rw [List.lookup_append, F.lookup_enc_of_notMem (fun hF => h k hF hk), Option.none_or]
  exact ⟨⟨F.reads_congr hF, F.reads_congr fun k hk => (hF k hk).symm⟩,
    ⟨G.reads_congr hG, G.reads_congr fun k hk => (hG k hk).symm⟩⟩

/-- Two groups of fields with different keys, one after the other. -/
def join (F : Fields impl α) (G : Fields impl β) (h : ∀ k ∈ F.keys, k ∉ G.keys) :
    Fields impl (α × β) where
  keys := F.keys ++ G.keys
  enc p := F.enc p.1 ++ G.enc p.2
  Reads es p := F.Reads es p.1 ∧ G.Reads es p.2
  Settled p := F.Settled p.1 ∧ G.Settled p.2
  enc_keys p := by
    rw [List.map_append]
    exact (F.enc_keys p.1).append (G.enc_keys p.2)
  reads_congr hk hr :=
    ⟨F.reads_congr (fun k hkF => hk k (List.mem_append_left _ hkF)) hr.1,
      G.reads_congr (fun k hkG => hk k (List.mem_append_right _ hkG)) hr.2⟩
  total p := by
    obtain ⟨a', ha'⟩ := F.total p.1
    obtain ⟨b', hb'⟩ := G.total p.2
    obtain ⟨hF, hG⟩ := reads_beside F G h p.1 a' p.2 b'
    exact ⟨(a', b'), hF.mpr ha', hG.mpr hb'⟩
  stable_iff p := by
    obtain ⟨a, b⟩ := p
    have hkF : ∀ a', ∀ e ∈ (F.enc a').map (canonEntry impl), e.1 ∈ F.keys := fun a' e he => by
      obtain ⟨e', he', rfl⟩ := List.mem_map.mp he
      exact (F.enc_keys a').subset (List.mem_map.mpr ⟨e', he', rfl⟩)
    have hkG : ∀ b', ∀ e ∈ (G.enc b').map (canonEntry impl), e.1 ∉ F.keys := fun b' e he hF => by
      obtain ⟨e', he', rfl⟩ := List.mem_map.mp he
      exact h _ hF ((G.enc_keys b').subset (List.mem_map.mpr ⟨e', he', rfl⟩))
    have hread : ∀ a' b', F.Reads (F.enc a) a' → G.Reads (G.enc b) b' →
        F.Reads (F.enc a ++ G.enc b) a' ∧ G.Reads (F.enc a ++ G.enc b) b' := fun a' b' ha' hb' =>
      ⟨(reads_beside F G h a a' b b').1.mpr ha', (reads_beside F G h a a' b b').2.mpr hb'⟩
    rw [← F.stable_iff, ← G.stable_iff]
    constructor
    · intro hst
      obtain ⟨a₀, ha₀⟩ := F.total a
      obtain ⟨b₀, hb₀⟩ := G.total b
      refine ⟨fun a' ha' => ?_, fun b' hb' => ?_⟩
      · have heq := hst (a', b₀) (hread a' b₀ ha' hb₀)
        rw [List.map_append, List.map_append] at heq
        exact (append_canon_inj (hkF a') (hkF a) (hkG b₀) (hkG b) heq).1
      · have heq := hst (a₀, b') (hread a₀ b' ha₀ hb')
        rw [List.map_append, List.map_append] at heq
        exact (append_canon_inj (hkF a₀) (hkF a) (hkG b') (hkG b) heq).2
    · rintro ⟨ha, hb⟩ ⟨a', b'⟩ ⟨ha', hb'⟩
      obtain ⟨hF, hG⟩ := reads_beside F G h a a' b b'
      rw [List.map_append, List.map_append, ha a' (hF.mp ha'), hb b' (hG.mp hb')]

/-- `join`, with the keys compared by evaluation. -/
def append (F : Fields impl α) (G : Fields impl β)
    (h : decide (∀ k ∈ F.keys, k ∉ G.keys) = true := by rfl) : Fields impl (α × β) :=
  F.join G (of_decide_eq_true h)

def nothing : Fields impl Unit where
  keys := []
  enc _ := []
  Reads _ _ := True
  Settled _ := True
  enc_keys _ := List.Sublist.slnil
  reads_congr _ _ := trivial
  total _ := ⟨(), trivial⟩
  stable_iff _ := ⟨fun _ => trivial, fun _ _ _ => rfl⟩

/-- The fields of a variant, after its tag. -/
def tagged (k name : String) (F : Fields impl α) (h : k ∉ F.keys) : Fields impl α where
  keys := k :: F.keys
  enc a := (k, .str name) :: F.enc a
  Reads es a := es.lookup k = some (.str name) ∧ F.Reads es a
  Settled := F.Settled
  enc_keys a := (F.enc_keys a).cons_cons k
  reads_congr hk hr := by
    refine ⟨?_, F.reads_congr (fun k' hk' => hk k' (List.mem_cons_of_mem _ hk')) hr.2⟩
    rw [← hk k List.mem_cons_self]
    exact hr.1
  total a := by
    obtain ⟨a', ha'⟩ := F.total a
    refine ⟨a', List.lookup_cons_self, F.reads_congr (fun k' hk' => ?_) ha'⟩
    have hne : k' ≠ k := fun he => h (he ▸ hk')
    exact (lookup_cons_of_ne hne).symm
  stable_iff a := by
    rw [← F.stable_iff]
    have hk : ∀ k' ∈ F.keys, ((k, Json.str name) :: F.enc a).lookup k' = (F.enc a).lookup k' := by
      exact fun k' hk' => lookup_cons_of_ne fun he => h (he ▸ hk')
    constructor
    · intro hst a' ha'
      have hread := F.reads_congr (fun k' hk' => (hk k' hk').symm) ha'
      exact (List.cons.inj (hst a' ⟨List.lookup_cons_self, hread⟩)).2
    · intro hst a' ha'
      exact congrArg (_ :: ·) (hst a' (F.reads_congr hk ha'.2))

/-- An enumeration whose variants write into the object of an enclosing structure. -/
def sigma {K : Type} {P : K → Type} (keys : List String) (F : ∀ k, Fields impl (P k))
    (hkeys : ∀ k, (F k).keys.Sublist keys)
    (hkind : ∀ {k k'} {p : P k} {p' : P k'}, (F k').Reads ((F k).enc p) p' → k' = k) :
    Fields impl (Sigma P) where
  keys := keys
  enc a := (F a.1).enc a.2
  Reads es a := (F a.1).Reads es a.2
  Settled a := (F a.1).Settled a.2
  enc_keys a := ((F a.1).enc_keys a.2).trans (hkeys a.1)
  reads_congr h hr := (F _).reads_congr (fun k hk => h k ((hkeys _).subset hk)) hr
  total a := by
    obtain ⟨p', hp'⟩ := (F a.1).total a.2
    exact ⟨⟨a.1, p'⟩, hp'⟩
  stable_iff a := by
    rw [← (F a.1).stable_iff]
    refine ⟨fun h p' hp' => h ⟨a.1, p'⟩ hp', ?_⟩
    rintro h ⟨k', p'⟩ hp'
    obtain rfl := hkind hp'
    exact h p' hp'

end Fields

/-! ## Objects -/

theorem eq_of_perm_of_sublist : ∀ {ks : List String} {l l' : List (String × α)}, ks.Nodup →
    (l.map (·.1)).Sublist ks → (l'.map (·.1)).Sublist ks → l.Perm l' → l = l'
  | [], l, l', _, h, h', _ => by
    have hl : l = [] := List.map_eq_nil_iff.mp (List.sublist_nil.mp h)
    have hl' : l' = [] := List.map_eq_nil_iff.mp (List.sublist_nil.mp h')
    rw [hl, hl']
  | k :: ks, l, l', hnodup, h, h', hperm => by
    obtain ⟨hk, hks⟩ := List.nodup_cons.mp hnodup
    -- Either list starts with `k` or has it nowhere.
    have hsplit : ∀ {m : List (String × α)}, (m.map (·.1)).Sublist (k :: ks) →
        (∃ v t, m = (k, v) :: t ∧ (t.map (·.1)).Sublist ks) ∨ (m.map (·.1)).Sublist ks := by
      intro m hm
      rcases List.sublist_cons_iff.mp hm with hm | ⟨r, hr, hrs⟩
      · exact Or.inr hm
      · cases m with
        | nil => cases hr
        | cons e t =>
          obtain ⟨he, ht⟩ := List.cons.inj hr
          exact Or.inl ⟨e.2, t, by rw [← he], ht ▸ hrs⟩
    have hnot : ∀ {m : List (String × α)} {v : α}, (m.map (·.1)).Sublist ks → (k, v) ∉ m :=
      fun hm hmem => hk (hm.subset (List.mem_map.mpr ⟨_, hmem, rfl⟩))
    rcases hsplit h with ⟨v, t, rfl, ht⟩ | hl <;> rcases hsplit h' with ⟨v', t', rfl, ht'⟩ | hl'
    · have hv : (k, v) = (k, v') := by
        rcases List.mem_cons.mp (hperm.subset List.mem_cons_self) with he | he
        · exact he
        · exact absurd he (hnot ht')
      rw [hv] at hperm ⊢
      rw [eq_of_perm_of_sublist hks ht ht' ((List.perm_cons _).mp hperm)]
    · exact absurd (hperm.subset List.mem_cons_self) (hnot hl')
    · exact absurd (hperm.symm.subset List.mem_cons_self) (hnot hl)
    · exact eq_of_perm_of_sublist hks hl hl' hperm

theorem canon_obj_inj {ks : List String} (hks : ks.Nodup) {es es' : List (String × Json)}
    (h : (es.map (·.1)).Sublist ks) (h' : (es'.map (·.1)).Sublist ks) :
    canon impl (.obj es) = canon impl (.obj es') ↔ es.map (canonEntry impl) = es'.map (canonEntry impl) := by
  rw [canon_obj, canon_obj, Json.obj.injEq]
  refine ⟨fun heq => ?_, fun heq => by rw [heq]⟩
  have hk : ((es.map (canonEntry impl)).map (·.1)).Sublist ks := by rwa [keys_canonEntry]
  have hk' : ((es'.map (canonEntry impl)).map (·.1)).Sublist ks := by rwa [keys_canonEntry]
  refine eq_of_perm_of_sublist hks hk hk' ?_
  exact (collect_perm impl (hk.nodup hks)).symm.trans (heq ▸ collect_perm impl (hk'.nodup hks))

/-- An object of fields with keys of their own. -/
def Codec.ofFields (F : Fields impl α) (h : F.keys.Nodup) : Codec impl α where
  enc a := .obj (F.enc a)
  Reads j a := ∃ es, j = .obj es ∧ F.Reads es a
  Settled := F.Settled
  total a := by
    obtain ⟨a', ha'⟩ := F.total a
    exact ⟨a', _, rfl, ha'⟩
  stable_iff a := by
    rw [← F.stable_iff]
    constructor
    · intro hst a' ha'
      exact (canon_obj_inj h (F.enc_keys a') (F.enc_keys a)).mp (hst a' ⟨_, rfl, ha'⟩)
    · rintro hst a' ⟨es, hes, ha'⟩
      cases hes
      exact (canon_obj_inj h (F.enc_keys a') (F.enc_keys a)).mpr (hst a' ha')

/-- An enumeration of structures, told apart by their tags. -/
def Codec.sigma {K : Type} {P : K → Type} (C : ∀ k, Codec impl (P k))
    (hkind : ∀ {k k'} {p : P k} {p' : P k'}, (C k').Reads ((C k).enc p) p' → k' = k) :
    Codec impl (Sigma P) where
  enc a := (C a.1).enc a.2
  Reads j a := (C a.1).Reads j a.2
  Settled a := (C a.1).Settled a.2
  total a := by
    obtain ⟨p', hp'⟩ := (C a.1).total a.2
    exact ⟨⟨a.1, p'⟩, hp'⟩
  stable_iff a := by
    rw [← (C a.1).stable_iff]
    refine ⟨fun h p' hp' => h ⟨a.1, p'⟩ hp', ?_⟩
    rintro h ⟨k', p'⟩ hp'
    obtain rfl := hkind hp'
    exact h p' hp'

/-- `ofFields`, with the keys compared by evaluation. -/
def Codec.object (F : Fields impl α) (h : decide F.keys.Nodup = true := by rfl) : Codec impl α :=
  Codec.ofFields F (of_decide_eq_true h)

section

variable {γ : Type} {k : String} {c : Codec impl α} {G : Fields impl β}
  {h : decide (∀ k' ∈ (Fields.required k c).keys, k' ∉ G.keys) = true} {e : α × β ≃ γ}
  {h' : decide (((Fields.required k c).append G h).map e).keys.Nodup = true} {x y : γ}

theorem first_of_reads (hr : (Codec.object (((Fields.required k c).append G h).map e) h').Reads
      ((Codec.object (((Fields.required k c).append G h).map e) h').enc x) y) :
    c.Reads (c.enc (e.symm x).1) (e.symm y).1 := by
  obtain ⟨es, hes, ⟨j, hj, hread⟩, -⟩ := hr
  cases hes
  have hhead : some (c.enc (e.symm x).1) = some j := hj ▸ List.lookup_cons_self.symm
  rw [Option.some.inj hhead]
  exact hread

theorem first_of_canon (hc : canon impl ((Codec.object (((Fields.required k c).append G h).map e) h').enc x) =
      canon impl ((Codec.object (((Fields.required k c).append G h).map e) h').enc y)) :
    canon impl (c.enc (e.symm x).1) = canon impl (c.enc (e.symm y).1) := by
  let F := ((Fields.required k c).append G h).map e
  have hentries := (canon_obj_inj (of_decide_eq_true h') (F.enc_keys x) (F.enc_keys y)).mp hc
  exact congrArg Prod.snd (List.cons.inj hentries).1

end

/-! ## Enumerations with a tag -/

section

variable {K : Type} {P : K → Type} (k : String) (name : K → String)
  (hname : ∀ a b, name a = name b → a = b) (F : ∀ a, Fields impl (P a)) (h : ∀ a, k ∉ (F a).keys)

include hname in
theorem kind_of_reads {a b : K} {p : P a} {q : P b} (hr : (Fields.tagged k (name b) (F b) (h b)).Reads
      ((Fields.tagged k (name a) (F a) (h a)).enc p) q) : b = a := by
  have htag := hr.1
  simp only [Fields.tagged, List.lookup_cons_self, Option.some.injEq, Json.str.injEq] at htag
  exact hname b a htag.symm

/-- An internally tagged enumeration: the tag stands among the fields of the variant. -/
def Codec.enum (h : ∀ a, k ∉ (F a).keys) (hnodup : ∀ a, (F a).keys.Nodup) :
    Codec impl (Sigma P) :=
  Codec.sigma
    (fun a => Codec.ofFields (Fields.tagged k (name a) (F a) (h a))
      (List.nodup_cons.mpr ⟨h a, hnodup a⟩))
    (by
      rintro a b p q ⟨es, hes, hr⟩
      cases hes
      exact kind_of_reads k name hname F h hr)

/-- The same, flattened into an enclosing structure. -/
def Fields.enum (keys : List String) (h : ∀ a, k ∉ (F a).keys)
    (hkeys : ∀ a, (k :: (F a).keys).Sublist keys) : Fields impl (Sigma P) :=
  Fields.sigma keys (fun a => Fields.tagged k (name a) (F a) (h a)) hkeys
    fun hr => kind_of_reads k name hname F h hr

end

/-! ## Optional fields that settle -/

section

variable (c : Codec impl α)

@[simp] theorem settled_optional (k : String) (o : Option α) :
    (Fields.optional k c).Settled o ↔ ∀ a ∈ o, c.enc a ≠ .null ∧ c.Settled a := by
  cases o <;> simp [Fields.optional, Fields.single]

@[simp] theorem settled_nullable (k : String) (o : Option α) :
    (Fields.nullable k c).Settled o ↔ ∀ a ∈ o, c.enc a ≠ .null → c.Settled a := by
  cases o <;> simp [Fields.nullable, Fields.single]

end

/-! ## What a composed codec reads back -/

section

variable (c : Codec impl α) (F : Fields impl α) (G : Fields impl β)

@[simp] theorem reads_exact (enc : α → Json) (dec : Json → Option α) (h) (a a' : α) :
    (Codec.exact enc dec h : Codec impl α).Reads (enc a) a' ↔ a' = a := by
  show dec (enc a) = some a' ↔ a' = a
  rw [h, Option.some.injEq, eq_comm]

@[simp] theorem reads_string (s s' : String) :
    (@Codec.string impl).Reads ((@Codec.string impl).enc s) s' ↔ s' = s :=
  reads_exact ..

@[simp] theorem reads_nat (n n' : Nat) : (@Codec.nat impl).Reads ((@Codec.nat impl).enc n) n' ↔ n' = n :=
  reads_exact ..

@[simp] theorem reads_text (f : TextForm α) (a a' : α) :
    (Codec.text f : Codec impl α).Reads ((Codec.text f : Codec impl α).enc a) a' ↔ a' = a :=
  reads_exact ..

@[simp] theorem reads_object (h) (a a' : α) :
    (Codec.object F h).Reads ((Codec.object F h).enc a) a' ↔ F.Reads (F.enc a) a' := by
  constructor
  · rintro ⟨es, hes, hr⟩
    cases hes
    exact hr
  · exact fun hr => ⟨_, rfl, hr⟩

@[simp] theorem reads_append (h) (p p' : α × β) : (F.append G h).Reads ((F.append G h).enc p) p' ↔
      F.Reads (F.enc p.1) p'.1 ∧ G.Reads (G.enc p.2) p'.2 := by
  obtain ⟨hF, hG⟩ := Fields.reads_beside F G (of_decide_eq_true h) p.1 p'.1 p.2 p'.2
  exact and_congr hF hG

@[simp] theorem reads_required (k : String) (a a' : α) :
    (Fields.required k c).Reads ((Fields.required k c).enc a) a' ↔ c.Reads (c.enc a) a' := by
  simp [Fields.required, Fields.single]

@[simp] theorem reads_optional (k : String) (o o' : Option α) :
    (Fields.optional k c).Reads ((Fields.optional k c).enc o) o' ↔ Fields.ReadsOption c (o.map c.enc) o' := by
  simp [Fields.optional, Fields.single]

end

theorem readsOption_string (o o' : Option String) :
    Fields.ReadsOption (@Codec.string impl) (o.map Json.str) o' ↔ o' = o := by
  cases o with
  | none => cases o' <;> simp [Fields.ReadsOption]
  | some s =>
    have hne : (@Codec.string impl).enc s ≠ .null := nofun
    refine (Fields.readsOption_written (@Codec.string impl) s o').trans ?_
    simp [hne]

theorem readsOption_map_eq {γ : Type} {c : Codec impl α} {f : α → γ} (hnull : ∀ a, c.enc a ≠ .null)
    (hf : ∀ a a', c.Reads (c.enc a) a' → f a' = f a) {o o' : Option α}
    (h : Fields.ReadsOption c (o.map c.enc) o') : o'.map f = o.map f := by
  cases o with
  | none =>
    cases o' with
    | none => rfl
    | some a' => exact absurd h (by simp [Fields.ReadsOption])
  | some a =>
    rcases (Fields.readsOption_written c a o').mp h with ⟨hn, -⟩ | ⟨-, a', rfl, ha'⟩
    · exact absurd hn (hnull a)
    · exact congrArg some (hf a a' ha')

theorem readsNullable_string {o o' : Option String} (h : (Fields.nullable k (@Codec.string impl)).Reads
      ((Fields.nullable k (@Codec.string impl)).enc o) o') : o' = o := by
  simp only [Fields.nullable, Fields.single, Fields.lookup_entry] at h
  cases o with
  | none =>
    cases o' with
    | none => rfl
    | some s' => exact absurd h (by simp [Fields.ReadsOption])
  | some s => exact (readsOption_string (some s) o').mp h

/-- Something holds of every element of every reading of a list exactly if it holds of every reading
of each element. -/
theorem readsAll_forall_iff (c : Codec impl α) (Q : α → Prop) : ∀ as : List α,
    (∀ as', ReadsAll c (as.map c.enc) as' → ∀ a' ∈ as', Q a') ↔ ∀ a ∈ as, ∀ a', c.Reads (c.enc a) a' → Q a'
  | [] => by
    refine ⟨fun _ => by simp, fun _ as' has' => ?_⟩
    cases has'
    simp
  | a :: as => by
    rw [List.forall_mem_cons, ← readsAll_forall_iff c Q as]
    constructor
    · intro h
      obtain ⟨a₀, ha₀⟩ := c.total a
      obtain ⟨as₀, has₀⟩ := readsAll_total c as
      refine ⟨fun a' ha' => ?_, fun as' has' => ?_⟩
      · exact h (a' :: as₀) (.cons ha' has₀) a' List.mem_cons_self
      · exact (List.forall_mem_cons.mp (h (a₀ :: as') (.cons ha₀ has'))).2
    · rintro ⟨ha, has⟩ as' has'
      cases has' with
      | cons hx hxs => exact List.forall_mem_cons.mpr ⟨ha _ hx, has _ hxs⟩

/-! ## Values that are not `null` -/

@[simp] theorem enc_string_ne (s : String) : (@Codec.string impl).enc s ≠ .null := nofun

@[simp] theorem enc_nat_ne (n : Nat) : (@Codec.nat impl).enc n ≠ .null := nofun

@[simp] theorem enc_text_ne (f : TextForm α) (a : α) : (Codec.text f : Codec impl α).enc a ≠ .null :=
  nofun

@[simp] theorem enc_object_ne (F : Fields impl α) (h) (a : α) : (Codec.object F h).enc a ≠ .null := nofun

/-! ## Defaults -/

theorem list_reads_nil (c : Codec impl α) (as : List α) (h : c.list.Reads (c.list.enc as) []) : as = [] := by
  obtain ⟨js, hjs, hread⟩ := h
  cases hjs
  exact List.map_eq_nil_iff.mp (List.forall₂_nil_right_iff.mp hread)

theorem bool_reads_false (b : Bool)
    (h : (@Codec.bool impl).Reads ((@Codec.bool impl).enc b) false) : b = false :=
  Option.some.inj h

end Infra.Serde
