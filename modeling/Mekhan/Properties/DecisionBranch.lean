import Mekhan.Service.Decision

/-!
# Which branch a decision takes

The cascade of a decision leaves at most one branch (or the default) enabled, but the dead end is
enabled on every token, and it reads what any of the branches reads. The ranking puts the transition
with more input arcs first, so the dead end wins against a branch that reads less, unless the data
that only the dead end reads is newer than all the branch binds.
-/

namespace Mekhan

open Infra

/-! ## Latest creations -/

/-- The scope in which a transition's guard is evaluated: the newest data of its input places. -/
def scopeOf (newest : String → Token) (inputs : List ScenarioArc) : HashMap String Json :=
  inputs.foldl (fun m a => m.insert a.port (tokenColorToJson (newest a.place).color)) ∅

/-- When the newest token of a place was created. -/
def createdAt (newest : String → Token) (a : ScenarioArc) : Int := (newest a.place).createdAt.nanos

/-- The latest creation among the newest tokens of the input places. -/
def latestInput (newest : String → Token) (inputs : List ScenarioArc) : Option DateTime :=
  inputs.foldl (fun time a => TokenBinding.laterOf time (newest a.place)) none

theorem foldl_laterOf {newest : String → Token} : ∀ (inputs : List ScenarioArc) (m : DateTime),
    ∃ time, inputs.foldl (fun time a => TokenBinding.laterOf time (newest a.place)) (some m) =
        some time ∧ m.nanos ≤ time.nanos ∧ (∀ a ∈ inputs, createdAt newest a ≤ time.nanos) ∧
      (time = m ∨ ∃ a ∈ inputs, createdAt newest a = time.nanos)
  | [], m => ⟨m, rfl, Int.le_refl _, by simp, Or.inl rfl⟩
  | a :: inputs, m => by
    rw [List.foldl_cons]
    obtain ⟨time, heq, hle, hall, hmem⟩ := foldl_laterOf inputs
      (if m.nanos < (newest a.place).createdAt.nanos then (newest a.place).createdAt else m)
    refine ⟨time, heq, ?_, ?_, ?_⟩
    · refine Int.le_trans ?_ hle
      split <;> omega
    · intro b hb
      rcases List.mem_cons.mp hb with rfl | hb
      · refine Int.le_trans ?_ hle
        unfold createdAt
        split <;> omega
      · exact hall b hb
    · rcases hmem with rfl | ⟨b, hb, heqb⟩
      · split
        · exact Or.inr ⟨a, List.mem_cons_self .., rfl⟩
        · exact Or.inl rfl
      · exact Or.inr ⟨b, List.mem_cons_of_mem _ hb, heqb⟩

theorem latestInput_spec (newest : String → Token) {inputs : List ScenarioArc} (hne : inputs ≠ []) :
    ∃ time, latestInput newest inputs = some time ∧ (∀ a ∈ inputs, createdAt newest a ≤ time.nanos) ∧
      ∃ a ∈ inputs, createdAt newest a = time.nanos := by
  cases inputs with
  | nil => exact absurd rfl hne
  | cons a inputs =>
    obtain ⟨time, heq, hle, hall, hmem⟩ := foldl_laterOf inputs (newest a.place).createdAt
    refine ⟨time, heq, ?_, ?_⟩
    · intro b hb
      rcases List.mem_cons.mp hb with rfl | hb
      · exact hle
      · exact hall b hb
    · rcases hmem with rfl | ⟨b, hb, heqb⟩
      · exact ⟨a, List.mem_cons_self .., rfl⟩
      · exact ⟨b, List.mem_cons_of_mem _ hb, heqb⟩

/-! ## The arcs of the compiled node -/

namespace DecisionNode

variable {d : DecisionNode}

/-- The arc through which every transition of the node takes the token. -/
def inputArc (d : DecisionNode) : ScenarioArc := ⟨d.inputPlace, "input", 1, false, none, none⟩

def IsRead (a : ScenarioArc) : Prop :=
  a.read = true ∧ a.weight = 1 ∧ a.countFrom = none ∧ a.drainMax = none

/-- A transition takes the token, reads other places, and binds no arc twice. -/
structure Wired (d : DecisionNode) (t : ScenarioTransition) : Prop where
  inputs : ∃ reads, t.inputs = d.inputArc :: reads ∧ ∀ a ∈ reads, IsRead a
  nodup : t.inputs.Nodup
  ports : ∀ p ∈ t.inputPorts, p.cardinality = .single

theorem wired_transition (name : String) (guard : Option String) (priority logic : String) :
    Wired d (d.transition name guard priority logic) where
  inputs := ⟨[], rfl, by simp⟩
  nodup := List.nodup_singleton _
  ports := by simp [transition]

theorem Wired.add {t t' : ScenarioTransition} (h : Wired d t) {a : ScenarioArc} {p : Port}
    (ha : IsRead a) (hp : p.cardinality = .single)
    (hinputs : t'.inputs = t.inputs ∨ (t'.inputs = t.inputs ++ [a] ∧ a ∉ t.inputs))
    (hports : t'.inputPorts = t.inputPorts ∨ t'.inputPorts = t.inputPorts ++ [p]) : Wired d t' where
  inputs := by
    obtain ⟨reads, heq, hreads⟩ := h.inputs
    rcases hinputs with hinputs | ⟨hinputs, -⟩
    · exact ⟨reads, hinputs.trans heq, hreads⟩
    · refine ⟨reads ++ [a], by rw [hinputs, heq, List.cons_append], fun b hb => ?_⟩
      rcases List.mem_append.mp hb with hb | hb
      · exact hreads b hb
      · exact List.mem_singleton.mp hb ▸ ha
  nodup := by
    rcases hinputs with hinputs | ⟨hinputs, hnot⟩
    · exact hinputs ▸ h.nodup
    · rw [hinputs]
      exact List.nodup_append.mpr ⟨h.nodup, List.nodup_singleton _, fun b hb c hc => by
        rw [List.mem_singleton.mp hc]
        exact fun he => hnot (he ▸ hb)⟩
  ports := by
    intro q hq
    rcases hports with hports | hports
    · exact h.ports q (hports ▸ hq)
    · rw [hports] at hq
      rcases List.mem_append.mp hq with hq | hq
      · exact h.ports q hq
      · exact List.mem_singleton.mp hq ▸ hp

theorem Wired.applyGuardBorrow {t : ScenarioTransition} (h : Wired d t)
    (dataPort : String → Option String) (b : GuardBorrow) :
    Wired d (Mekhan.applyGuardBorrow dataPort t b) := by
  unfold Mekhan.applyGuardBorrow
  split
  · exact h
  · next place _ =>
    dsimp only
    split
    · exact h
    · refine h.add (a := ⟨place, dataVar b.producer, 1, true, none, none⟩)
        (p := ⟨dataVar b.producer, some ("#/definitions/Data__" ++ b.producer), .single⟩)
        ⟨rfl, rfl, rfl, rfl⟩ rfl ?_ ?_
      · unfold wireReadArc
        dsimp only
        split
        · exact Or.inl rfl
        · next hany =>
          refine Or.inr ⟨rfl, fun hmem => hany ?_⟩
          exact List.any_eq_true.mpr ⟨_, hmem, by simp⟩
      · unfold wireReadArc
        dsimp only
        split
        · exact Or.inl rfl
        · exact Or.inr rfl

theorem Wired.applyBorrows {t : ScenarioTransition} (h : Wired d t) : Wired d (d.applyBorrows t) := by
  unfold DecisionNode.applyBorrows applyGuardBorrows
  generalize d.borrows = borrows
  induction borrows generalizing t with
  | nil => exact h
  | cons b borrows ih => exact ih (h.applyGuardBorrow d.dataPort b)

theorem Wired.alignArc {t : ScenarioTransition} (h : Wired d t) (x : ScenarioArc × Option Port) :
    Wired d (DecisionNode.alignArc t x) := by
  refine h.add (a := ⟨x.1.place, x.1.port, 1, true, none, none⟩)
    (p := ⟨x.1.port, x.2.bind (·.schemaRef), .single⟩) ⟨rfl, rfl, rfl, rfl⟩ rfl ?_ ?_
  · unfold DecisionNode.alignArc
    dsimp only
    split
    · exact Or.inl rfl
    · next hany =>
      refine Or.inr ⟨rfl, fun hmem => hany ?_⟩
      exact List.any_eq_true.mpr ⟨_, hmem, by simp⟩
  · unfold DecisionNode.alignArc
    dsimp only
    split
    · exact Or.inl rfl
    · exact Or.inr rfl

theorem wired_siblings {t : ScenarioTransition} (ht : t ∈ d.siblings) : Wired d t := by
  rcases List.mem_append.mp ht with ht | ht
  · obtain ⟨i, -, rfl⟩ := List.mem_map.mp ht
    exact (wired_transition _ _ _ _).applyBorrows
  · unfold defaults at ht
    split at ht
    · rw [List.mem_singleton.mp ht]
      exact (wired_transition _ _ _ _).applyBorrows
    · exact absurd ht (List.not_mem_nil)

theorem Wired.align {t : ScenarioTransition} (h : Wired d t) :
    ∀ xs : List (ScenarioArc × Option Port), Wired d (xs.foldl DecisionNode.alignArc t)
  | [] => h
  | x :: xs => (h.alignArc x).align xs

theorem wired_alignedDeadend : Wired d d.alignedDeadend :=
  (wired_transition _ _ _ _).applyBorrows.align _

theorem wired {t : ScenarioTransition} (ht : t ∈ d.transitions) : Wired d t := by
  rcases List.mem_append.mp ht with ht | ht
  · exact wired_siblings ht
  · exact List.mem_singleton.mp ht ▸ wired_alignedDeadend

/-! ## The dead end binds what the others bind -/

theorem subset_alignArc (t : ScenarioTransition) (x : ScenarioArc × Option Port) :
    t.inputs ⊆ (alignArc t x).inputs := by
  unfold alignArc
  dsimp only
  split
  · exact List.Subset.refl _
  · exact List.subset_append_left _ _

theorem subset_align : ∀ (xs : List (ScenarioArc × Option Port)) (t : ScenarioTransition),
    t.inputs ⊆ (xs.foldl alignArc t).inputs
  | [], _ => List.Subset.refl _
  | x :: xs, t => List.Subset.trans (subset_alignArc t x) (subset_align xs _)

theorem IsRead.eq {a b : ScenarioArc} (ha : IsRead a) (hb : IsRead b) (hplace : a.place = b.place)
    (hport : a.port = b.port) : a = b := by
  cases a
  cases b
  obtain ⟨hread, hweight, hcount, hdrain⟩ := ha
  obtain ⟨hread', hweight', hcount', hdrain'⟩ := hb
  simp_all

theorem mem_alignArc {t : ScenarioTransition} (h : Wired d t) {x : ScenarioArc × Option Port}
    (hx : IsRead x.1) : x.1 ∈ (alignArc t x).inputs := by
  have hnew : (⟨x.1.place, x.1.port, 1, true, none, none⟩ : ScenarioArc) = x.1 :=
    IsRead.eq ⟨rfl, rfl, rfl, rfl⟩ hx rfl rfl
  unfold alignArc
  dsimp only
  split
  · next hany =>
    obtain ⟨a, ha, hsame⟩ := List.any_eq_true.mp hany
    simp only [Bool.and_eq_true, decide_eq_true_eq] at hsame
    obtain ⟨⟨hplace, hport⟩, hread⟩ := hsame
    obtain ⟨reads, heq, hreads⟩ := h.inputs
    have hmem : a ∈ reads := by
      rw [heq] at ha
      rcases List.mem_cons.mp ha with rfl | ha
      · exact absurd hread (by simp [inputArc])
      · exact ha
    rw [← (hreads a hmem).eq hx hplace hport]
    exact ha
  · rw [hnew]
    exact List.mem_append_right _ (List.mem_singleton_self _)

theorem mem_align {x : ScenarioArc × Option Port} (hx : IsRead x.1) :
    ∀ {xs : List (ScenarioArc × Option Port)} {t : ScenarioTransition}, Wired d t → x ∈ xs →
      x.1 ∈ (xs.foldl alignArc t).inputs
  | y :: xs, t, h, hmem => by
    rw [List.foldl_cons]
    rcases List.mem_cons.mp hmem with rfl | hmem
    · exact subset_align xs _ (mem_alignArc h hx)
    · exact mem_align hx (h.alignArc y) hmem

theorem inputArc_mem {t : ScenarioTransition} (h : Wired d t) : d.inputArc ∈ t.inputs := by
  obtain ⟨reads, heq, -⟩ := h.inputs
  rw [heq]
  exact List.mem_cons_self ..

theorem subset_deadend {t : ScenarioTransition} (ht : t ∈ d.siblings) :
    t.inputs ⊆ d.alignedDeadend.inputs := by
  intro a ha
  obtain ⟨reads, heq, hreads⟩ := (wired_siblings ht).inputs
  rcases List.mem_cons.mp (heq ▸ ha) with rfl | hmem
  · exact inputArc_mem wired_alignedDeadend
  · have hread := hreads a hmem
    refine mem_align (x := (a, t.inputPorts.find? (·.name = a.port))) hread
      (wired_transition _ _ _ _).applyBorrows ?_
    refine List.mem_flatMap.mpr ⟨t, ht, List.mem_map.mpr ⟨a, ?_, rfl⟩⟩
    exact List.mem_filter.mpr ⟨ha, hread.1⟩

/-! ## What the passes leave as it is -/

/-- The guards as the engine evaluates them. -/
def compiledGuards (d : DecisionNode) : List String :=
  d.guards.map (rewriteGuard d.dataPort d.borrows)

/-- What a borrow pass does to the guard, and that it keeps name and priority. -/
structure Rewritten (d : DecisionNode) (t t' : ScenarioTransition) : Prop where
  id : t'.id = t.id
  priority : t'.priority = t.priority
  guard : t'.guard = t.guard.map (rewriteGuard d.dataPort d.borrows)

theorem rewriteText_of_not_contains {needle repl text : String}
    (h : containsText needle.toList text.toList = false) : rewriteText needle repl text = text := by
  simp [rewriteText, replaceWordBoundary, h]

theorem rewritten_applyBorrows (t : ScenarioTransition) : Rewritten d t (d.applyBorrows t) := by
  unfold DecisionNode.applyBorrows applyGuardBorrows
  suffices h : ∀ (borrows : List GuardBorrow) (t : ScenarioTransition),
      (borrows.foldl (applyGuardBorrow d.dataPort) t).id = t.id ∧
      (borrows.foldl (applyGuardBorrow d.dataPort) t).priority = t.priority ∧
      (borrows.foldl (applyGuardBorrow d.dataPort) t).guard =
        t.guard.map (rewriteGuard d.dataPort borrows) by
    obtain ⟨hid, hpriority, hguard⟩ := h d.borrows t
    exact ⟨hid, hpriority, hguard⟩
  intro borrows
  induction borrows with
  | nil => exact fun t => ⟨rfl, rfl, by rw [List.foldl_nil]; cases t.guard <;> rfl⟩
  | cons b borrows ih =>
    intro t
    have hstep : (applyGuardBorrow d.dataPort t b).id = t.id ∧
        (applyGuardBorrow d.dataPort t b).priority = t.priority ∧
        (applyGuardBorrow d.dataPort t b).guard = t.guard.map fun g =>
          if (d.dataPort b.producer).isSome then rewriteText b.dotted b.newRef g else g := by
      unfold applyGuardBorrow
      cases hport : d.dataPort b.producer with
      | none => exact ⟨rfl, rfl, by cases t.guard <;> rfl⟩
      | some place =>
        dsimp only
        split
        · next hno =>
          refine ⟨rfl, rfl, ?_⟩
          rw [Bool.and_eq_true, Bool.not_eq_true', Bool.not_eq_true'] at hno
          cases hguard : t.guard with
          | none => rfl
          | some g =>
            rw [hguard] at hno
            simp only [Option.any_some] at hno
            simp [rewriteText_of_not_contains hno.1]
        · exact ⟨rfl, rfl, by cases t.guard <;> rfl⟩
    obtain ⟨hid, hpriority, hguard⟩ := ih (applyGuardBorrow d.dataPort t b)
    rw [List.foldl_cons]
    refine ⟨hid.trans hstep.1, hpriority.trans hstep.2.1, ?_⟩
    rw [hguard, hstep.2.2, Option.map_map]
    rfl

theorem rewriteGuard_conjunction (dataPort : String → Option String)
    (borrows : List GuardBorrow) (ls : List (Bool × String)) :
    rewriteGuard dataPort borrows (conjunction ls) =
      conjunction (ls.map fun l => (l.1, rewriteGuard dataPort borrows l.2)) := by
  unfold rewriteGuard
  induction borrows generalizing ls with
  | nil => simp
  | cons b borrows ih =>
    rw [List.foldl_cons]
    split
    · next hport =>
      rw [rewriteText_conjunction b.nonempty b.scanned, ih, List.map_map]
      simp only [List.foldl_cons, hport, if_true]
      rfl
    · next hport =>
      rw [ih]
      simp only [List.foldl_cons, hport, Bool.false_eq_true, if_false]

theorem length_compiledGuards (d : DecisionNode) : d.compiledGuards.length = d.guards.length :=
  List.length_map ..

theorem guard_branch {i : Nat} (hi : i < d.guards.length) : (d.applyBorrows (d.branch i)).guard =
      some (conjunction (branchLiterals d.compiledGuards i)) := by
  have hget : rewriteGuard d.dataPort d.borrows (d.guards.getD i "") =
      d.compiledGuards.getD i "" := by
    simp [compiledGuards, List.getD_eq_getElem?_getD, hi]
  rw [(rewritten_applyBorrows _).guard]
  simp only [branch, transition, Option.map_some, rewriteGuard_conjunction, branchLiterals,
    List.map_cons, List.map_map, hget]
  simp [compiledGuards, List.map_take, Function.comp_def]

theorem guard_default : (d.applyBorrows d.defaultTransition).guard =
    if d.compiledGuards = [] then none
    else some (conjunction (defaultLiterals d.compiledGuards)) := by
  rw [(rewritten_applyBorrows _).guard]
  unfold defaultTransition transition compiledGuards
  by_cases h : d.guards = []
  · simp [h]
  · simp [h, rewriteGuard_conjunction, defaultLiterals, Function.comp_def]

theorem align_fields (xs : List (ScenarioArc × Option Port)) :
    ∀ t : ScenarioTransition, (xs.foldl alignArc t).id = t.id ∧
      (xs.foldl alignArc t).priority = t.priority ∧ (xs.foldl alignArc t).guard = t.guard := by
  induction xs with
  | nil => exact fun t => ⟨rfl, rfl, rfl⟩
  | cons x xs ih => exact fun t => ih (alignArc t x)

theorem guard_deadend : d.alignedDeadend.guard = none := by
  rw [alignedDeadend, (align_fields _ _).2.2, (rewritten_applyBorrows _).guard]
  rfl

theorem priority_deadend : d.alignedDeadend.priority = some "0" := by
  rw [alignedDeadend, (align_fields _ _).2.1, (rewritten_applyBorrows _).priority]
  rfl

theorem id_deadend : d.alignedDeadend.id = "t_" ++ d.id ++ "_deadend" := by
  rw [alignedDeadend, (align_fields _ _).1, (rewritten_applyBorrows _).id]
  rfl

/-! ## What is taken for granted -/

/-- The guards that each compiled text puts together. -/
def cascades (d : DecisionNode) : List (List (Bool × String)) :=
  (List.range d.guards.length).map (branchLiterals d.compiledGuards) ++
    if d.compiledGuards = [] then [] else [defaultLiterals d.compiledGuards]

/-- What the node relies on of the interpreter. `&&`, `!` and parentheses mean what they do in Rhai as
long as the guards are expressions (a guard with statements of its own, or with a comment at its end,
does not fit between parentheses), and an integer literal is its value. -/
structure Interprets (executor : TransitionExecutor) (d : DecisionNode) : Prop where
  cascade : ∀ ls ∈ d.cascades, ∀ (scope : HashMap String Json) (value : String → Bool),
    (∀ l ∈ ls, executor.evaluateGuard l.2 scope = .ok (value l.2)) →
      executor.evaluateGuard (conjunction ls) scope = .ok (ls.all fun l => value l.2 == l.1)
  integer : ∀ k ≤ d.guards.length + 1, ∀ scope : HashMap String Json,
    executor.evaluatePriority (toString k) scope = some (F64.ofInt k)

/-- One token waits, the parked data is there, and both fit their ports. -/
structure Ready (d : DecisionNode) (schemaRegistry : Option SchemaRegistry) (marking : Marking)
    (newest : String → Token) : Prop where
  token : marking.tokensAt ⟨d.inputPlace⟩ = [newest d.inputPlace]
  parked : ∀ a ∈ d.alignedDeadend.inputs,
    (marking.tokensAt ⟨a.place⟩).getLast? = some (newest a.place)
  valid : ∀ t ∈ d.transitions, ∀ a ∈ t.inputs, matchesSchema schemaRegistry
    (t.toTransition.inputPort a.port) [tokenColorToJson (newest a.place).color] = true

/-- All guards evaluate without an error, wherever they stand. -/
structure Evaluates (executor : TransitionExecutor) (d : DecisionNode) (newest : String → Token)
    (value : String → Bool) : Prop where
  branches : ∀ i < d.guards.length, ∀ l ∈ branchLiterals d.compiledGuards i,
    executor.evaluateGuard l.2 (scopeOf newest (d.applyBorrows (d.branch i)).inputs) =
      .ok (value l.2)
  otherwise : ∀ l ∈ defaultLiterals d.compiledGuards,
    executor.evaluateGuard l.2 (scopeOf newest (d.applyBorrows d.defaultTransition).inputs) =
      .ok (value l.2)

/-- The first branch whose guard is true, else the default, else the dead end. -/
def chosen (d : DecisionNode) (value : String → Bool) : ScenarioTransition :=
  match d.compiledGuards.findIdx? value with
  | some i => d.applyBorrows (d.branch i)
  | none => if d.defaultBranch.isSome then d.applyBorrows d.defaultTransition else d.alignedDeadend

/-! ## What is enabled -/

section

variable {executor : TransitionExecutor} {newest : String → Token} {value : String → Bool}

theorem holds_deadend (scope : HashMap String Json) :
    guardHolds executor d.alignedDeadend.toTransition scope = true := by
  have hguard : d.alignedDeadend.toTransition.guard = none := guard_deadend
  simp [guardHolds, hguard]

theorem guardHolds_of_eval {t : ScenarioTransition} {text : String} {scope : HashMap String Json}
    {holds : Bool} (hguard : t.guard = some text) (heval : executor.evaluateGuard text scope = .ok holds) :
    guardHolds executor t.toTransition scope = holds := by
  have hguard' : t.toTransition.guard = some text := hguard
  simp only [guardHolds, hguard', heval]
  cases holds <;> rfl

theorem holds_branch (hrhai : Interprets executor d) (hvalue : Evaluates executor d newest value)
    {i : Nat} (hi : i < d.guards.length) : guardHolds executor (d.applyBorrows (d.branch i)).toTransition
        (scopeOf newest (d.applyBorrows (d.branch i)).inputs) = true ↔
      d.compiledGuards.findIdx? value = some i := by
  have hcascade : branchLiterals d.compiledGuards i ∈ d.cascades :=
    List.mem_append_left _ (List.mem_map.mpr ⟨i, List.mem_range.mpr hi, rfl⟩)
  rw [guardHolds_of_eval (guard_branch hi)
    (hrhai.cascade _ hcascade _ value (hvalue.branches i hi))]
  have hi' : i < d.compiledGuards.length := by rwa [length_compiledGuards]
  have hget : d.compiledGuards.getD i "" = d.compiledGuards[i] := by
    rw [List.getD_eq_getElem?_getD, List.getElem?_eq_getElem hi', Option.getD_some]
  rw [List.findIdx?_eq_some_iff_getElem]
  simp only [branchLiterals, List.all_cons, List.all_map, Bool.and_eq_true, List.all_reverse,
    List.all_eq_true, hget, Function.comp_apply, beq_iff_eq]
  constructor
  · rintro ⟨htrue, hfalse⟩
    refine ⟨hi', htrue, fun j hj => ?_⟩
    rw [hfalse _ (List.mem_take_iff_getElem.mpr ⟨j, by omega, rfl⟩)]
    simp
  · rintro ⟨_, htrue, hfalse⟩
    refine ⟨htrue, fun g hg => ?_⟩
    obtain ⟨j, hj, rfl⟩ := List.mem_take_iff_getElem.mp hg
    exact Bool.eq_false_iff.mpr (hfalse j (by omega))

theorem holds_default (hrhai : Interprets executor d) (hvalue : Evaluates executor d newest value) :
    guardHolds executor (d.applyBorrows d.defaultTransition).toTransition
        (scopeOf newest (d.applyBorrows d.defaultTransition).inputs) = true ↔
      d.compiledGuards.findIdx? value = none := by
  have hguard := guard_default (d := d)
  by_cases hempty : d.compiledGuards = []
  · rw [if_pos hempty] at hguard
    have hguard' : (d.applyBorrows d.defaultTransition).toTransition.guard = none := hguard
    simp [guardHolds, hguard', hempty]
  · rw [if_neg hempty] at hguard
    have hcascade : defaultLiterals d.compiledGuards ∈ d.cascades := by
      refine List.mem_append_right _ ?_
      rw [if_neg hempty]
      exact List.mem_singleton_self _
    rw [guardHolds_of_eval hguard (hrhai.cascade _ hcascade _ value hvalue.otherwise),
      List.findIdx?_eq_none_iff]
    simp [defaultLiterals, List.all_map, List.all_eq_true]

theorem enabled_cases (hrhai : Interprets executor d) (hvalue : Evaluates executor d newest value)
    {t : ScenarioTransition} (ht : t ∈ d.transitions)
    (hholds : guardHolds executor t.toTransition (scopeOf newest t.inputs) = true) :
    t = d.chosen value ∨ t = d.alignedDeadend := by
  rcases List.mem_append.mp ht with ht | ht
  · left
    rcases List.mem_append.mp ht with ht | ht
    · obtain ⟨i, hi, rfl⟩ := List.mem_map.mp ht
      rw [chosen, (holds_branch hrhai hvalue (List.mem_range.mp hi)).mp hholds]
    · unfold defaults at ht
      split at ht
      · next hdefault =>
        obtain rfl := List.mem_singleton.mp ht
        rw [chosen, (holds_default hrhai hvalue).mp hholds]
        exact (if_pos hdefault).symm
      · exact absurd ht (List.not_mem_nil)
  · exact Or.inr (List.mem_singleton.mp ht)

theorem chosen_spec (hrhai : Interprets executor d) (hvalue : Evaluates executor d newest value) :
    (d.chosen value = d.alignedDeadend ∨ d.chosen value ∈ d.siblings) ∧
      guardHolds executor (d.chosen value).toTransition (scopeOf newest (d.chosen value).inputs) = true := by
  unfold chosen
  cases hfirst : d.compiledGuards.findIdx? value with
  | some i =>
    have hi : i < d.guards.length := by
      rw [← length_compiledGuards]
      exact (List.findIdx?_eq_some_iff_getElem.mp hfirst).1
    refine ⟨Or.inr (List.mem_append_left _ (List.mem_map.mpr ⟨i, List.mem_range.mpr hi, rfl⟩)), ?_⟩
    exact (holds_branch hrhai hvalue hi).mpr hfirst
  | none =>
    dsimp only
    split
    · next hdefault =>
      refine ⟨Or.inr (List.mem_append_right _ ?_), (holds_default hrhai hvalue).mpr hfirst⟩
      rw [defaults, if_pos hdefault]
      exact List.mem_singleton_self _
    · exact ⟨Or.inl rfl, holds_deadend _⟩

/-! ## Ranks -/

variable {net : PetriNet} {marking : Marking} {schemaRegistry : Option SchemaRegistry}

def boundArcs (net : PetriNet) (newest : String → Token) (t : ScenarioTransition) :
    List (Arc × Token) :=
  (net.inputArcs ⟨t.id⟩).map fun a => (a, newest a.placeId.name)

theorem portsOf_boundArcs (hload : Loads d.transitions net) {t : ScenarioTransition}
    (ht : t ∈ d.transitions) : portsOf (boundArcs net newest t) = scopeOf newest t.inputs := by
  rw [portsOf, boundArcs, List.foldl_map, scopeOf, ← hload.arcs t ht, List.foldl_map]
  rfl

theorem latestOf_boundArcs (hload : Loads d.transitions net) {t : ScenarioTransition}
    (ht : t ∈ d.transitions) : latestOf (boundArcs net newest t) = latestInput newest t.inputs := by
  rw [latestOf, boundArcs, List.foldl_map, latestInput, ← hload.arcs t ht, List.foldl_map]
  rfl

theorem subset_deadend_of_mem {t : ScenarioTransition} (ht : t ∈ d.transitions) :
    t.inputs ⊆ d.alignedDeadend.inputs := by
  rcases List.mem_append.mp ht with ht | ht
  · exact subset_deadend ht
  · rw [List.mem_singleton.mp ht]
    exact List.Subset.refl _

theorem pinned_of_ready (hload : Loads d.transitions net)
    (hready : Ready d schemaRegistry marking newest) {t : ScenarioTransition}
    (ht : t ∈ d.transitions) {a : Arc} (ha : a ∈ net.inputArcs ⟨t.id⟩) :
    Pinned t.toTransition schemaRegistry marking (a, newest a.placeId.name) := by
  have hmem : a.toScenario ∈ t.inputs := by
    rw [← hload.arcs t ht]
    exact List.mem_map_of_mem ha
  obtain ⟨reads, heq, hreads⟩ := (wired ht).inputs
  have hplain : a.toScenario.weight = 1 ∧ a.toScenario.countFrom = none ∧
      a.toScenario.drainMax = none := by
    rcases List.mem_cons.mp (heq ▸ hmem) with h | h
    · rw [h]
      exact ⟨rfl, rfl, rfl⟩
    · exact (hreads _ h).2
  refine ⟨hplain.2.1, hplain.2.2, hplain.1, ?_, hready.parked _ (subset_deadend_of_mem ht hmem), ?_,
    hready.valid t ht _ hmem⟩
  · intro hbatch
    obtain ⟨port, hport, hcard⟩ := Option.map_eq_some_iff.mp hbatch
    rw [(wired ht).ports port (List.mem_of_find?_eq_some hport)] at hcard
    cases hcard
  · intro hread
    rcases List.mem_cons.mp (heq ▸ hmem) with h | h
    · have hplace : a.placeId = ⟨d.inputPlace⟩ := congrArg PlaceId.mk (congrArg ScenarioArc.place h)
      rw [hplace]
      exact hready.token
    · have hread' : a.toScenario.read = false := hread
      rw [(hreads _ h).1] at hread'
      cases hread'

/-- **The binding of each of the node's transitions.** -/
theorem bindingOf_ready (hload : Loads d.transitions net)
    (hready : Ready d schemaRegistry marking newest) {t : ScenarioTransition} (ht : t ∈ d.transitions) :
    bindingOf executor net marking schemaRegistry t.toTransition =
      if guardHolds executor t.toTransition (scopeOf newest t.inputs) then
        some (bindTokens (boundArcs net newest t)) else none := by
  obtain ⟨reads, heq, hreads⟩ := (wired ht).inputs
  have harcs := hload.arcs t ht
  rw [← portsOf_boundArcs hload ht, bindingOf]
  cases hnet : net.inputArcs ⟨t.id⟩ with
  | nil =>
    rw [hnet, heq] at harcs
    cases harcs
  | cons a as =>
    rw [hnet, heq, List.map_cons] at harcs
    have hpinned : PinnedAll t.toTransition schemaRegistry marking (a, newest a.placeId.name)
        (as.map fun a => (a, newest a.placeId.name)) := by
      refine ⟨pinned_of_ready hload hready ht (hnet ▸ List.mem_cons_self ..), fun y hy => ?_⟩
      obtain ⟨b, hb, rfl⟩ := List.mem_map.mp hy
      refine ⟨pinned_of_ready hload hready ht (hnet ▸ List.mem_cons_of_mem _ hb), ?_⟩
      have hmem : b.toScenario ∈ reads := by
        rw [← (List.cons.inj harcs).2]
        exact List.mem_map_of_mem hb
      exact (hreads _ hmem).1
    have hbound : boundArcs net newest t =
        (a, newest a.placeId.name) :: as.map fun a => (a, newest a.placeId.name) := by
      rw [boundArcs, hnet, List.map_cons]
    rw [hbound]
    refine findValidBinding_pinned hpinned (hnet.trans ?_)
    simp [Function.comp_def]

/-- The rank of an enabled transition of the node. -/
def rank (executor : TransitionExecutor) (newest : String → Token) (t : ScenarioTransition)
    (time : DateTime) : Best where
  id := ⟨t.id⟩
  time := time
  inputCount := t.inputs.length
  priority := t.priority.bind fun p => executor.evaluatePriority p (scopeOf newest t.inputs)

theorem rankOf_ready (hload : Loads d.transitions net)
    (hready : Ready d schemaRegistry marking newest) {t : ScenarioTransition} (ht : t ∈ d.transitions) :
    rankOf executor net marking schemaRegistry t.toTransition =
      if guardHolds executor t.toTransition (scopeOf newest t.inputs) then
        (latestInput newest t.inputs).map (rank executor newest t) else none := by
  have hcount : (net.inputArcs t.toTransition.id).length = t.inputs.length := by
    have hlen := congrArg List.length (hload.arcs t ht)
    rwa [List.length_map] at hlen
  rw [rankOf, bindingOf_ready hload hready ht]
  split
  · rw [Option.bind_some, maxCreatedAt_bindTokens, portInputs_bindTokens,
      latestOf_boundArcs hload ht, portsOf_boundArcs hload ht, hcount]
    rfl
  · rfl

theorem sibling_spec {t : ScenarioTransition} (ht : t ∈ d.siblings) :
    (∃ k, 0 < k ∧ k ≤ d.guards.length + 1 ∧ t.priority = some (toString k)) ∧ t.id ≠ d.alignedDeadend.id := by
  rw [id_deadend]
  rcases List.mem_append.mp ht with ht | ht
  · obtain ⟨i, -, rfl⟩ := List.mem_map.mp ht
    refine ⟨⟨d.guards.length - i + 1, Nat.succ_pos _, by omega,
      (rewritten_applyBorrows _).priority⟩, fun h => ?_⟩
    rw [(rewritten_applyBorrows _).id] at h
    have hchars := congrArg String.toList h
    simp [branch, transition] at hchars
  · unfold defaults at ht
    split at ht
    · obtain rfl := List.mem_singleton.mp ht
      refine ⟨⟨1, Nat.one_pos, by omega, (rewritten_applyBorrows _).priority⟩, fun h => ?_⟩
      rw [(rewritten_applyBorrows _).id] at h
      have hchars := congrArg String.toList h
      simp [defaultTransition, transition] at hchars
    · exact absurd ht (List.not_mem_nil)

theorem deadend_priority_lt (hrhai : Interprets executor d) {t : ScenarioTransition}
    (ht : t ∈ d.siblings) (time time' : DateTime) : ∃ p p', (rank executor newest t time).priority = some p ∧
      (rank executor newest d.alignedDeadend time').priority = some p' ∧ p'.lt p = true ∧
      p.lt p' = false := by
  obtain ⟨⟨k, hpos, hle, hpriority⟩, -⟩ := sibling_spec ht
  have hbounded : d.guards.length < 2 ^ 63 := by
    simpa [guards] using d.bounded
  have hlt := F64.ofInt_zero_lt hpos (by omega)
  refine ⟨F64.ofInt k, F64.ofInt 0, ?_, ?_, hlt, ?_⟩
  · simp only [rank, hpriority, Option.bind_some]
    exact hrhai.integer k hle _
  · simp only [rank, priority_deadend, Option.bind_some]
    exact hrhai.integer 0 (Nat.zero_le _) _
  · simp only [F64.lt, Bool.and_eq_true, decide_eq_true_eq] at hlt
    simp only [F64.lt, Bool.and_eq_false_iff, decide_eq_false_iff_not]
    exact Or.inr (Int.not_lt.mpr (Int.le_of_lt hlt.2))

end

/-! ## Which one is selected -/

section

variable {executor : TransitionExecutor} {newest : String → Token} {value : String → Bool}
  {net : PetriNet} {marking : Marking} {schemaRegistry : Option SchemaRegistry}

/-- When the chosen transition goes before the dead end: it binds as much, or the dead end has to
wait for newer data. -/
def GoesFirst (d : DecisionNode) (newest : String → Token) (t : ScenarioTransition) : Prop :=
  d.alignedDeadend.inputs ⊆ t.inputs ∨
    ∃ a ∈ d.alignedDeadend.inputs, ∀ b ∈ t.inputs, createdAt newest b < createdAt newest a

theorem inputs_ne_nil {t : ScenarioTransition} (h : Wired d t) : t.inputs ≠ [] :=
  List.ne_nil_of_mem (inputArc_mem h)

theorem latest_le {inputs inputs' : List ScenarioArc} (hsub : inputs ⊆ inputs')
    {time time' : DateTime} (hne : inputs ≠ []) (hne' : inputs' ≠ [])
    (htime : latestInput newest inputs = some time)
    (htime' : latestInput newest inputs' = some time') : time.nanos ≤ time'.nanos := by
  obtain ⟨m, hm, -, c, hc, hceq⟩ := latestInput_spec newest hne
  obtain ⟨m', hm', hall, -⟩ := latestInput_spec newest hne'
  obtain rfl := Option.some.inj (hm.symm.trans htime)
  obtain rfl := Option.some.inj (hm'.symm.trans htime')
  rw [← hceq]
  exact hall c (hsub hc)

theorem length_le_of_subset {inputs inputs' : List ScenarioArc} (hnodup : inputs.Nodup)
    (hsub : inputs ⊆ inputs') : inputs.length ≤ inputs'.length :=
  (hnodup.subperm hsub).length_le

variable {t : ScenarioTransition} {time time' : DateTime}

theorem above_deadend (hrhai : Interprets executor d) (ht : t ∈ d.siblings)
    (htime : latestInput newest t.inputs = some time)
    (htime' : latestInput newest d.alignedDeadend.inputs = some time') (hfirst : GoesFirst d newest t) :
    (rank executor newest t time).Above (rank executor newest d.alignedDeadend time') := by
  have hne := inputs_ne_nil (wired_siblings ht)
  have hne' := inputs_ne_nil (wired_alignedDeadend (d := d))
  have hsub := subset_deadend ht
  rcases hfirst with hall | ⟨a, ha, hnewer⟩
  · have hsame : time = time' := congrArg DateTime.mk
      (Int.le_antisymm (latest_le hsub hne hne' htime htime')
        (latest_le hall hne' hne htime' htime))
    have hcount : t.inputs.length = d.alignedDeadend.inputs.length :=
      Nat.le_antisymm (length_le_of_subset (wired_siblings ht).nodup hsub)
        (length_le_of_subset wired_alignedDeadend.nodup hall)
    obtain ⟨p, p', hp, hp', hlt, hnot⟩ := deadend_priority_lt hrhai ht time time'
    exact Best.above_of_priority hsame hcount hp hp' hlt hnot
  · obtain ⟨m, hm, -, c, hc, hceq⟩ := latestInput_spec newest hne
    obtain ⟨m', hm', hlatest, -⟩ := latestInput_spec newest hne'
    obtain rfl := Option.some.inj (hm.symm.trans htime)
    obtain rfl := Option.some.inj (hm'.symm.trans htime')
    have hlt : m.nanos < m'.nanos := by
      rw [← hceq]
      exact Int.lt_of_lt_of_le (hnewer c hc) (hlatest a ha)
    exact Best.above_of_time hlt

theorem deadend_above (ht : t ∈ d.siblings) (htime : latestInput newest t.inputs = some time)
    (htime' : latestInput newest d.alignedDeadend.inputs = some time') (hnot : ¬ GoesFirst d newest t) :
    (rank executor newest d.alignedDeadend time').Above (rank executor newest t time) := by
  have hne := inputs_ne_nil (wired_siblings ht)
  have hne' := inputs_ne_nil (wired_alignedDeadend (d := d))
  have hsub := subset_deadend ht
  obtain ⟨hmissing, hnewer⟩ := not_or.mp hnot
  have hle : time'.nanos ≤ time.nanos := by
    obtain ⟨m, hm, hlatest, -⟩ := latestInput_spec newest hne
    obtain ⟨m', hm', -, c, hc, hceq⟩ := latestInput_spec newest hne'
    obtain rfl := Option.some.inj (hm.symm.trans htime)
    obtain rfl := Option.some.inj (hm'.symm.trans htime')
    by_contra hlt
    refine hnewer ⟨c, hc, fun b hb => ?_⟩
    rw [hceq]
    exact Int.lt_of_le_of_lt (hlatest b hb) (Int.not_le.mp hlt)
  have hsame : time' = time := congrArg DateTime.mk
    (Int.le_antisymm hle (latest_le hsub hne hne' htime htime'))
  obtain ⟨a, ha, hnotmem⟩ : ∃ a ∈ d.alignedDeadend.inputs, a ∉ t.inputs := by
    by_contra hall
    refine hmissing fun a ha => ?_
    by_contra hnotmem
    exact hall ⟨a, ha, hnotmem⟩
  have hcount : t.inputs.length < d.alignedDeadend.inputs.length := by
    have hnodup : (a :: t.inputs).Nodup :=
      List.nodup_cons.mpr ⟨hnotmem, (wired_siblings ht).nodup⟩
    exact length_le_of_subset hnodup (List.cons_subset.mpr ⟨ha, hsub⟩)
  exact Best.above_of_inputCount hsame hcount

/-! ## The selected transition -/

theorem mem_values_iff (hload : Loads d.transitions net) {u : Transition} :
    u ∈ net.transitions.values ↔ ∃ t ∈ d.transitions, t.toTransition = u := by
  rw [hload.transitions.mem_iff, List.mem_map]

theorem normal_admits (hload : Loads d.transitions net) :
    ∀ u ∈ net.transitions.values, SelectPhase.normal.admits u = true := by
  intro u hu
  obtain ⟨t, -, rfl⟩ := (mem_values_iff hload).mp hu
  rfl

theorem exists_latest (newest : String → Token) (ht : t ∈ d.transitions) :
    ∃ time, latestInput newest t.inputs = some time := by
  obtain ⟨time, htime, -⟩ := latestInput_spec newest (inputs_ne_nil (wired ht))
  exact ⟨time, htime⟩

/-- **The first true branch, else the default, is selected exactly if it goes before the dead end.**
Where the dead end itself is to be taken, it is. -/
theorem first_true_iff {memo : Option BindingMemo} (hload : Loads d.transitions net)
    (hmemo : KnownEmpty executor net marking schemaRegistry (memo.map (·.snapshot)))
    (hready : Ready d schemaRegistry marking newest) (hrhai : Interprets executor d)
    (hvalue : Evaluates executor d newest value) :
    (selectNextTransition executor net marking schemaRegistry memo .normal).1 =
        some ⟨(d.chosen value).id⟩ ↔ GoesFirst d newest (d.chosen value) := by
  obtain ⟨hchosen, hholds⟩ := chosen_spec hrhai hvalue
  have hdead : d.alignedDeadend ∈ d.transitions := List.mem_append_right _ (List.mem_singleton_self _)
  obtain ⟨time', htime'⟩ := exists_latest newest hdead
  have hrankDead : rankOf executor net marking schemaRegistry d.alignedDeadend.toTransition =
      some (rank executor newest d.alignedDeadend time') := by
    rw [rankOf_ready hload hready hdead, holds_deadend, if_pos rfl, htime', Option.map_some]
  -- A transition with a rank is the chosen one or the dead end.
  have hcases : ∀ u ∈ net.transitions.values, ∀ r',
      rankOf executor net marking schemaRegistry u = some r' →
        u = (d.chosen value).toTransition ∨ u = d.alignedDeadend.toTransition := by
    intro u hu r' hr'
    obtain ⟨t, ht, rfl⟩ := (mem_values_iff hload).mp hu
    rw [rankOf_ready hload hready ht] at hr'
    split at hr'
    · next hh => exact (enabled_cases hrhai hvalue ht hh).imp (congrArg _) (congrArg _)
    · cases hr'
  have hselect : ∀ t ∈ d.transitions, ∀ r,
      rankOf executor net marking schemaRegistry t.toTransition = some r →
      (∀ u ∈ net.transitions.values, u ≠ t.toTransition → ∀ r',
        rankOf executor net marking schemaRegistry u = some r' → r.Above r') →
      (selectNextTransition executor net marking schemaRegistry memo .normal).1 = some r.id := by
    intro t ht r hr habove
    simp only [selectNextTransition]
    rw [best_of_beats ((mem_values_iff hload).mpr ⟨t, ht, rfl⟩) (normal_admits hload) hmemo hr habove]
    rfl
  rcases hchosen with hchosen | hmem
  · rw [hchosen]
    refine iff_of_true ?_ (Or.inl (List.Subset.refl _))
    refine hselect _ hdead _ hrankDead fun u hu hne r' hr' => ?_
    rcases hcases u hu r' hr' with h | h
    · exact absurd (h.trans (congrArg _ hchosen)) hne
    · exact absurd h hne
  · have ht : d.chosen value ∈ d.transitions := List.mem_append_left _ hmem
    obtain ⟨time, htime⟩ := exists_latest newest ht
    have hrank : rankOf executor net marking schemaRegistry (d.chosen value).toTransition =
        some (rank executor newest (d.chosen value) time) := by
      rw [rankOf_ready hload hready ht, hholds, if_pos rfl, htime, Option.map_some]
    by_cases hfirst : GoesFirst d newest (d.chosen value)
    · refine iff_of_true ?_ hfirst
      refine hselect _ ht _ hrank fun u hu hne r' hr' => ?_
      rcases hcases u hu r' hr' with h | h
      · exact absurd h hne
      · obtain rfl := Option.some.inj (hrankDead.symm.trans (h ▸ hr'))
        exact above_deadend hrhai hmem htime htime' hfirst
    · refine iff_of_false (fun hselected => ?_) hfirst
      have hdeadSelected := hselect _ hdead _ hrankDead fun u hu hne r' hr' => by
        rcases hcases u hu r' hr' with h | h
        · obtain rfl := Option.some.inj (hrank.symm.trans (h ▸ hr'))
          exact deadend_above hmem htime htime' hfirst
        · exact absurd h hne
      rw [hdeadSelected] at hselected
      have hid := congrArg TransitionId.name (Option.some.inj hselected)
      exact (sibling_spec hmem).2 hid.symm

end

/-! ## A decision on two producers -/

namespace Sample

theorem scanned_of_all {text : String} (h : (text.toList.all fun c => !isJoint c) = true) :
    ∀ c ∈ text.toList, isJoint c = false := by
  intro c hc
  simpa using List.all_eq_true.mp h c hc

theorem ascii_of_all {conditions : List String}
    (h : (conditions.all fun g => g.toList.all fun c => c.toNat < 128) = true) :
    ∀ g ∈ conditions, ∀ c ∈ g.toList, c.toNat < 128 := by
  intro g hg c hc
  simpa using List.all_eq_true.mp (List.all_eq_true.mp h g hg) c hc

def borrow (producer slug : String) (hne : (slug ++ ".score").toList ≠ [])
    (hscanned : ∀ c ∈ (slug ++ ".score").toList, isJoint c = false) : GuardBorrow where
  producer := producer
  dotted := slug ++ ".score"
  producerPath := "score"
  nonempty := hne
  scanned := hscanned

/-- The first branch is on the review's score, the second on the check's. -/
def node : DecisionNode where
  id := "dec"
  label := "Route"
  conditions := ["review.score > 3", "check.score > 3"]
  defaultBranch := none
  mapItemVar := none
  borrows := [borrow "rev" "review" (by decide) (scanned_of_all (by decide)),
    borrow "chk" "check" (by decide) (scanned_of_all (by decide))]
  dataPort := fun producer => some ("p_" ++ producer ++ "_data")
  bounded := by decide
  ascii := fun g hg _ => ascii_of_all (by decide) g hg

/-- Whether a producer's score is above `3`. -/
def scoreAbove (var : String) (scope : HashMap String Json) : Except ScriptFailure Bool :=
  match (scope.lookup var).bind (·.get? "score") with
  | some (.num (.posInt n)) => .ok (3 < n)
  | _ => .error ⟨"guard", "Variable not found"⟩

def review : String := "d_rev.score > 3"

def check : String := "d_chk.score > 3"

def executor : TransitionExecutor where
  evaluateGuard := fun script scope =>
    if script = review ∨ script = conjunction [(true, review)] then scoreAbove "d_rev" scope
    else if script = check then scoreAbove "d_chk" scope
    else if script = conjunction [(true, check), (false, review)] then do
      let c ← scoreAbove "d_chk" scope
      let r ← scoreAbove "d_rev" scope
      return c && !r
    else if script = conjunction [(false, review), (false, check)] then do
      let r ← scoreAbove "d_rev" scope
      let c ← scoreAbove "d_chk" scope
      return !r && !c
    else .error ⟨"guard", "Syntax error"⟩
  evaluatePriority := fun script _ =>
    (["0", "1", "2", "3"].findIdx? (· = script)).map fun (k : Nat) => F64.ofInt k
  executeScript := fun _ _ => .error ⟨"script", "Runtime error"⟩

def token (id : Nat) (score : Nat) (createdAt : Int) : Token :=
  Token.new ⟨BitVec.ofNat 128 id⟩ ⟨createdAt⟩ (.data (.obj [("score", .num (.posInt score))]))

/-- The control token is created at `5`, the review is parked at `1`, the check at the given time. -/
def newest (checked : Int) (place : String) : Token :=
  if place = "p_rev_data" then token 1 4 1
  else if place = "p_chk_data" then token 2 2 checked else token 3 0 5

def marking (checked : Int) : Marking :=
  ["p_dec_input", "p_rev_data", "p_chk_data"].foldl
    (fun m place => m.addToken ⟨place⟩ (newest checked place)) Marking.new

/-- The transitions and arcs of a scenario, under arbitrary arc ids. -/
def load (ts : List ScenarioTransition) : PetriNet :=
  ts.foldl (fun net t => t.inputs.foldl (fun net a =>
    net.addArc { Arc.input ⟨0⟩ ⟨a.place⟩ ⟨t.id⟩ a.port with read := a.read })
    (net.addTransition t.toTransition)) PetriNet.new

/-- A transition on the token and the data of some producers. -/
def compiled (id : String) (producers : List String) (guard : Option String)
    (priority logic : String) : ScenarioTransition where
  id := id
  inputPorts := ⟨"input", some "#/definitions/DynamicToken", .single⟩ :: producers.map fun p =>
    ⟨"d_" ++ p, some ("#/definitions/Data__" ++ p), .single⟩
  inputs := ⟨"p_dec_input", "input", 1, false, none, none⟩ :: producers.map fun p =>
    ⟨"p_" ++ p ++ "_data", "d_" ++ p, 1, true, none, none⟩
  guard := guard
  priority := some priority
  logic := logic

def branch0 : ScenarioTransition :=
  compiled "t_dec_branch_0" ["rev"] (some (conjunction [(true, review)])) "3"
    "#\x7b output: input \x7d"

def branch1 : ScenarioTransition :=
  compiled "t_dec_branch_1" ["rev", "chk"] (some (conjunction [(true, check), (false, review)])) "2"
    "#\x7b output: input \x7d"

def dead : ScenarioTransition :=
  compiled "t_dec_deadend" ["rev", "chk"] none "0"
    "throw \"decision Route: token matched no branch and no default branch\""

theorem siblings_eq : node.siblings = [branch0, branch1] := by decide

theorem alignedDeadend_eq : node.alignedDeadend = dead := by
  rw [alignedDeadend, siblingReads, siblings_eq]
  decide

theorem compiledGuards_eq : node.compiledGuards = [review, check] := by decide

def net : PetriNet := load [branch0, branch1, dead]

def value (guard : String) : Bool := guard = review

theorem loads : Loads node.transitions net := by
  rw [transitions, siblings_eq, alignedDeadend_eq]
  exact ⟨by decide, by decide⟩

theorem ready {checked : Int} (hparked : ∀ a ∈ dead.inputs,
    ((marking checked).tokensAt ⟨a.place⟩).getLast? = some (newest checked a.place)) :
    Ready node none (marking checked) (newest checked) where
  token := rfl
  parked := alignedDeadend_eq ▸ hparked
  valid := fun _ _ _ _ => rfl

theorem interprets : Interprets executor node where
  cascade := by
    have hcascades : node.cascades = [[(true, review)], [(true, check), (false, review)],
        [(false, review), (false, check)]] := by
      rw [cascades, compiledGuards_eq]
      rfl
    intro ls hls scope value hvalue
    rw [hcascades] at hls
    have hreview : executor.evaluateGuard review scope = scoreAbove "d_rev" scope := rfl
    have hcheck : executor.evaluateGuard check scope = scoreAbove "d_chk" scope := rfl
    simp only [List.mem_cons, List.not_mem_nil, or_false] at hls
    rcases hls with rfl | rfl | rfl
    · have hr := hvalue (true, review) (by simp)
      have heval : executor.evaluateGuard (conjunction [(true, review)]) scope =
          scoreAbove "d_rev" scope := by rfl
      rw [heval, ← hreview, hr]
      simp
    · have hr := hvalue (false, review) (by simp)
      have hc := hvalue (true, check) (by simp)
      have heval : executor.evaluateGuard (conjunction [(true, check), (false, review)]) scope =
          (do
            let c ← scoreAbove "d_chk" scope
            let r ← scoreAbove "d_rev" scope
            return c && !r) := by rfl
      rw [heval, ← hreview, hr, ← hcheck, hc]
      simp [Bind.bind, Except.bind, Pure.pure, Except.pure]
    · have hr := hvalue (false, review) (by simp)
      have hc := hvalue (false, check) (by simp)
      have heval : executor.evaluateGuard (conjunction [(false, review), (false, check)]) scope =
          (do
            let r ← scoreAbove "d_rev" scope
            let c ← scoreAbove "d_chk" scope
            return !r && !c) := by rfl
      rw [heval, ← hreview, hr, ← hcheck, hc]
      simp [Bind.bind, Except.bind, Pure.pure, Except.pure]
  integer := by
    have hall : ∀ k ∈ List.range 4, (["0", "1", "2", "3"].findIdx? (· = toString k)).map
        (fun k => F64.ofInt (k : Nat)) = some (F64.ofInt (k : Nat)) := by decide
    exact fun k hk _ => hall k (List.mem_range.mpr (Nat.lt_succ_of_le hk))

theorem evaluates (checked : Int) : Evaluates executor node (newest checked) value where
  branches := by
    intro i hi l hl
    rw [compiledGuards_eq] at hl
    have hi : i = 0 ∨ i = 1 := by
      have hlt : i < 2 := hi
      omega
    have hbranches : [node.applyBorrows (node.branch 0), node.applyBorrows (node.branch 1)] =
        [branch0, branch1] := siblings_eq
    obtain ⟨h0, h1⟩ := List.cons.inj hbranches
    rcases hi with rfl | rfl
    · obtain rfl : l = (true, review) := List.mem_singleton.mp hl
      rw [h0]
      rfl
    · have hl : l = (true, check) ∨ l = (false, review) := by
        simpa [branchLiterals] using hl
      rw [(List.cons.inj h1).1]
      rcases hl with rfl | rfl <;> rfl
  otherwise := by
    have hinputs : (node.applyBorrows node.defaultTransition).inputs = dead.inputs := by
      decide
    intro l hl
    rw [compiledGuards_eq] at hl
    have hl : l = (false, review) ∨ l = (false, check) := by
      simpa [defaultLiterals] using hl
    rw [hinputs]
    rcases hl with rfl | rfl <;> rfl

end Sample

open Sample in
/-- With the check parked after the control token, the review's branch is taken. -/
theorem first_true_iff_newer_check : (selectNextTransition executor net (marking 6) none none .normal).1 =
      some ⟨(node.chosen value).id⟩ :=
  (first_true_iff loads (fun k h => absurd h (by simp)) (ready (by decide)) interprets
    (evaluates 6)).mpr
    (Or.inr ⟨⟨"p_chk_data", "d_chk", 1, true, none, none⟩, alignedDeadend_eq ▸ by decide,
      by decide⟩)

open Sample in
/-- **The dead end is taken although the first guard is true**: everything was parked before the
control token, and the dead end reads one place more than the branch. -/
theorem deadend_beats_true_branch :
    Loads node.transitions net ∧ Ready node none (marking 2) (newest 2) ∧ Interprets executor node ∧
      Evaluates executor node (newest 2) value ∧ node.compiledGuards.findIdx? value = some 0 ∧
      (selectNextTransition executor net (marking 2) none none .normal).1 = some ⟨"t_dec_deadend"⟩ :=
  ⟨loads, ready (by decide), interprets, evaluates 2,
    compiledGuards_eq ▸ by decide, by decide⟩

end DecisionNode

end Mekhan
