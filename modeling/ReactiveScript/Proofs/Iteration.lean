import ReactiveScript.Host.Sample
import ReactiveScript.Proofs.CallFrames
import ReactiveScript.Proofs.Footprint
import ReactiveScript.Proofs.Returns

/-!
# Iteration over snapshots

A loop over items runs its body once for each item of a list that is fixed when the loop starts, in
order, until a run of the body leaves the loop. Whatever the body does, its variable shows the item
whenever a run starts: a body can neither leave the scope of the loop nor take names out of it
(`Environment.Footprint`), so that a declared variable is always there to be set.
-/

namespace ReactiveScript

open Interpreter (evalExpr execStmt)

/-- A run of the body of a loop: its item, and the state in which it starts. -/
structure BodyRun where
  /-- The item. -/
  item : Value
  /-- The state in which the body starts. -/
  start : State

/-- The loop goes on after a run of its body, which completed normally or with a `continue`. -/
def BodyRun.GoesOn (ev : Evaluator) (body : Stmt) (run : BodyRun) : Prop :=
  ∃ completion s, ev.stmt body run.start = .ok completion s ∧
    Rule.afterBody completion = .again

/-- The variable of a loop shows the item of a run when the run starts: a declared one has the item
as its value, and one that is assigned to has the same value, up to the sign of zero. -/
structure BodyRun.Shows (binding : LoopBinding) (run : BodyRun) : Prop where
  declared : binding.kind.isSome = true → run.start.env.get? binding.name = some run.item
  assigned : binding.kind = none →
    ∃ v, run.start.env.get? binding.name = some v ∧ v.sameValue run.item = true

namespace Rule

/-- How a loop goes on with the items that are left: the runs of its body, each from where the one
before it ended, and what the loop comes to. -/
inductive Iterates (ev : Evaluator) (binding : LoopBinding) (body : Stmt) :
    List Value → State → List BodyRun → Outcome State Failure Completion → Prop where
  /-- No item is left. -/
  | done {s : State} : Iterates ev binding body [] s [] (.ok .done s)
  /-- The host asked to stop. -/
  | interrupted {item : Value} {items : List Value} {s : State} :
    s.interrupted = true →
    Iterates ev binding body (item :: items) s [] (.error .interrupted s)
  /-- The item cannot be assigned. -/
  | refused {item : Value} {items : List Value} {s s₁ : State} {failure : Failure} :
    s.interrupted = false → bindItem binding item s = .error failure s₁ →
    Iterates ev binding body (item :: items) s [] (.error failure s₁)
  /-- A run of the body, after which the loop goes on. -/
  | again {item : Value} {items : List Value} {s start s₁ : State} {completion : Completion}
      {runs : List BodyRun} {o : Outcome State Failure Completion} :
    s.interrupted = false → bindItem binding item s = .ok () start →
    ev.stmt body start = .ok completion s₁ → afterBody completion = .again →
    Iterates ev binding body items s₁ runs o →
    Iterates ev binding body (item :: items) s (⟨item, start⟩ :: runs) o
  /-- A run of the body that leaves the loop by a `break` or a `return`. -/
  | left {item : Value} {items : List Value} {s start s₁ : State}
      {completion result : Completion} :
    s.interrupted = false → bindItem binding item s = .ok () start →
    ev.stmt body start = .ok completion s₁ → afterBody completion = .finish result →
    Iterates ev binding body (item :: items) s [⟨item, start⟩] (.ok result s₁)
  /-- A run of the body that fails. -/
  | failed {item : Value} {items : List Value} {s start s₁ : State} {failure : Failure} :
    s.interrupted = false → bindItem binding item s = .ok () start →
    ev.stmt body start = .error failure s₁ →
    Iterates ev binding body (item :: items) s [⟨item, start⟩] (.error failure s₁)
  /-- A run of the body that does not end with the steps allowed to it. -/
  | exhausted {item : Value} {items : List Value} {s start : State} :
    s.interrupted = false → bindItem binding item s = .ok () start →
    ev.stmt body start = .exhausted →
    Iterates ev binding body (item :: items) s [⟨item, start⟩] .exhausted

variable {ev : Evaluator} {binding : LoopBinding} {body : Stmt} {item : Value}
  {items : List Value} {runs : List BodyRun} {s start : State}
  {o : Outcome State Failure Completion}

/-! ## The items of the runs -/

theorem assignVariable_ne_exhausted (name : String) (v : Value) (s : State) :
    assignVariable name v s ≠ .exhausted := by
  unfold assignVariable
  split <;> exact fun h => by cases h

theorem bindItem_declared {kind : DeclarationKind} (hkind : binding.kind = some kind)
    (item : Value) (s : State) :
    bindItem binding item s = .ok () { s with env := s.env.setLocal binding.name item } := by
  unfold bindItem
  rw [hkind]
  rfl

theorem bindItem_assigned (hkind : binding.kind = none) (item : Value) :
    bindItem binding item = assignVariable binding.name item := by
  unfold bindItem
  rw [hkind]

theorem bindItem_ne_exhausted (binding : LoopBinding) (item : Value) (s : State) :
    bindItem binding item s ≠ .exhausted := by
  cases hkind : binding.kind with
  | none =>
    rw [bindItem_assigned hkind]
    exact assignVariable_ne_exhausted binding.name item s
  | some kind =>
    rw [bindItem_declared hkind]
    exact fun h => by cases h

/-- What a loop over items does, by induction on the items. -/
theorem iterates_forEach (ev : Evaluator) (binding : LoopBinding) (body : Stmt)
    (items : List Value) (s : State) :
    ∃ runs, Iterates ev binding body items s runs
      (Eval.forEach (itemRound ev binding body) items s) := by
  induction items generalizing s with
  | nil => exact ⟨[], .done⟩
  | cons item items ih =>
    rw [Eval.forEach_cons, Eval.bind_apply, itemRound, Eval.checkInterrupt_bind]
    by_cases hgo : s.interrupted = true
    · rw [if_pos hgo]
      exact ⟨[], .interrupted hgo⟩
    · have hgo' : s.interrupted = false := Bool.eq_false_iff.2 hgo
      rw [if_neg hgo, Eval.bind_apply]
      cases hbind : bindItem binding item s with
      | exhausted => exact absurd hbind (bindItem_ne_exhausted binding item s)
      | error failure s₁ => exact ⟨[], .refused hgo' hbind⟩
      | ok _ start =>
        show ∃ runs, Iterates ev binding body (item :: items) s runs
          ((loopBody ev body >>= Eval.continuing _) start)
        rw [Eval.bind_apply, loopBody, Eval.bind_apply]
        cases hbody : ev.stmt body start with
        | exhausted => exact ⟨_, .exhausted hgo' hbind hbody⟩
        | error failure s₁ => exact ⟨_, .failed hgo' hbind hbody⟩
        | ok completion s₁ =>
          show ∃ runs, Iterates ev binding body (item :: items) s runs
            (Eval.continuing _ (afterBody completion) s₁)
          cases hafter : afterBody completion with
          | finish result => exact ⟨_, .left hgo' hbind hbody hafter⟩
          | again =>
            obtain ⟨runs, hruns⟩ := ih s₁
            exact ⟨_, .again hgo' hbind hbody hafter hruns⟩

/-- The runs are for the first items, one for each and in order. -/
theorem Iterates.prefix_items (h : Iterates ev binding body items s runs o) :
    runs.map (·.item) <+: items := by
  induction h with
  | done => exact List.prefix_rfl
  | interrupted | refused => exact List.nil_prefix
  | again _ _ _ _ _ ih => exact List.prefix_cons_inj .. |>.2 ih
  | left | failed | exhausted => exact List.prefix_cons_inj .. |>.2 List.nil_prefix

/-- Why a loop visits no further item. -/
inductive Stops (ev : Evaluator) (binding : LoopBinding) (body : Stmt) (runs : List BodyRun) :
    Outcome State Failure Completion → Prop where
  /-- The last run left the loop, failed, or did not end. -/
  | body {o : Outcome State Failure Completion} {run : BodyRun} : run ∈ runs.getLast? →
    ¬ run.GoesOn ev body → Stops ev binding body runs o
  /-- The next item could not be assigned to the variable. -/
  | refused {item : Value} {s s₁ : State} {failure : Failure} : binding.kind = none →
    assignVariable binding.name item s = .error failure s₁ →
    Stops ev binding body runs (.error failure s₁)
  /-- The host had asked to stop when the next run was about to start. -/
  | interrupted {s : State} : s.interrupted = true →
    Stops ev binding body runs (.error .interrupted s)

/-- All items are visited, unless something stops the loop. -/
theorem Iterates.complete (h : Iterates ev binding body items s runs o) :
    runs.map (·.item) = items ∨ Stops ev binding body runs o := by
  induction h with
  | done => exact Or.inl rfl
  | interrupted hgo => exact Or.inr (.interrupted hgo)
  | @refused item items s s₁ failure _ hbind =>
    cases hkind : binding.kind with
    | none =>
      rw [bindItem_assigned hkind] at hbind
      exact Or.inr (.refused hkind hbind)
    | some kind =>
      -- A declared variable is set without any check that could fail.
      rw [bindItem_declared hkind] at hbind
      cases hbind
  | again _ _ _ _ _ ih =>
    rcases ih with hall | hstops
    · exact Or.inl (congrArg (List.cons _) hall)
    · refine Or.inr ?_
      cases hstops with
      | body hlast hstop =>
        refine .body ?_ hstop
        rw [List.getLast?_cons, Option.mem_def.1 hlast]
        rfl
      | refused hkind hassign => exact .refused hkind hassign
      | interrupted hgo => exact .interrupted hgo
  | @left item items s start s₁ completion result _ _ hbody hafter =>
    have hstop : ¬ BodyRun.GoesOn ev body ⟨item, start⟩ := by
      rintro ⟨completion, s, hok, hagain⟩
      cases hbody.symm.trans hok
      cases hafter.symm.trans hagain
    exact Or.inr (.body List.getLast?_singleton hstop)
  | @failed item items s start s₁ failure _ _ hbody =>
    have hstop : ¬ BodyRun.GoesOn ev body ⟨item, start⟩ := by
      rintro ⟨completion, s, hok, -⟩
      cases hbody.symm.trans hok
    exact Or.inr (.body List.getLast?_singleton hstop)
  | @exhausted item items s start _ _ hbody =>
    have hstop : ¬ BodyRun.GoesOn ev body ⟨item, start⟩ := by
      rintro ⟨completion, s, hok, -⟩
      cases hbody.symm.trans hok
    exact Or.inr (.body List.getLast?_singleton hstop)

end Rule

/-! ## The variable of the loop -/

namespace Environment

variable {env env' : Environment} {name : String}

theorem SameShape.setLocal (env : Environment) (name : String) (v : Value) :
    env.SameShape (env.setLocal name v) :=
  SameShape.modifyScope env env.current fun bindings =>
    OrderedMap.adjust bindings name fun b => { b with value := v }

/-- A name of the innermost scope refers to the value that was set there. -/
theorem get?_setLocal (henv : 0 < env.depth) (hname : env.containsLocally name = true)
    (v : Value) : (env.setLocal name v).get? name = some v := by
  obtain ⟨b, hb⟩ := Option.isSome_iff_exists.1 hname
  have hshape := SameShape.setLocal env name v
  have hset : (env.setLocal name v).resolve? name = some { b with value := v } := by
    refine resolve?_of_find? (by rw [hshape.depth]; exact henv) ?_
    rw [hshape.current, setLocal, scope_modifyScope_self (current_lt henv),
      OrderedMap.find?_adjust_self, hb]
    rfl
  rw [get?, hset]
  rfl

theorem containsLocally_setLocal (env : Environment) (name : String) (v : Value) :
    (env.setLocal name v).containsLocally name = env.containsLocally name := by
  have hshape := SameShape.setLocal env name v
  unfold containsLocally
  rw [hshape.current, setLocal]
  rcases scope_modifyScope env env.current env.current fun bindings =>
    OrderedMap.adjust bindings name fun b => { b with value := v } with h | ⟨-, h⟩
  · rw [h]
  · rw [h, OrderedMap.has_adjust]

/-- Statements take no names out of the innermost scope. -/
theorem Footprint.containsLocally (h : Footprint .statement env env')
    (hname : env.containsLocally name = true) : env'.containsLocally name = true := by
  unfold Environment.containsLocally
  rw [h.toSameShape.current]
  exact (h.grown env.current).has hname

end Environment

/-- An environment in which a loop can give the next item to its variable: a declared variable is
in the innermost scope. -/
structure LoopBinding.Ready (binding : LoopBinding) (env : Environment) : Prop where
  linked : env.Linked
  declared : binding.kind.isSome = true → env.containsLocally binding.name = true

namespace LoopBinding.Ready

open Environment

variable {ctx : Context} {n : Nat} {binding : LoopBinding} {st : Stmt} {item : Value}
  {s start s₁ : State} {completion : Completion}

/-- After a loop has given an item to its variable, the variable shows the item. -/
theorem bindItem (h : binding.Ready s.env) (hbind : Rule.bindItem binding item s = .ok () start) :
    binding.Ready start.env ∧ (⟨item, start⟩ : BodyRun).Shows binding := by
  cases hkind : binding.kind with
  | some kind =>
    have hname := h.declared (by rw [hkind]; rfl)
    rw [Rule.bindItem_declared hkind] at hbind
    cases hbind
    have hlinked := (SameShape.setLocal s.env binding.name item).linked h.linked
    refine ⟨⟨hlinked, fun _ => ?_⟩, fun _ => ?_, fun hnone => ?_⟩
    · rw [containsLocally_setLocal, hname]
    · exact get?_setLocal h.linked.nonempty hname item
    · rw [hkind] at hnone
      cases hnone
  | none =>
    rw [Rule.bindItem_assigned hkind] at hbind
    obtain ⟨m, hassign⟩ := Rule.assignVariable_ok hbind
    obtain ⟨i, b, hassigns⟩ := assigns_of_assign hassign
    refine ⟨⟨hassigns.shape.linked h.linked, fun hsome => ?_⟩, fun hsome => ?_, fun _ => ?_⟩
    · rw [hkind] at hsome
      cases hsome
    · rw [hkind] at hsome
      cases hsome
    · exact ⟨_, hassigns.get?, (Value.sameValue_iff _ _).2 (b.value.stored_cases item)⟩

/-- A run of the body that goes on leaves the loop ready for the next item. -/
theorem body (h : binding.Ready start.env)
    (hbody : (Evaluator.level ctx n).stmt st start = .ok completion s₁) :
    binding.Ready s₁.env := by
  have hkeeps := ((Footprint.congruence ctx.trace ctx.trace).level n).stmt st
  have hfootprint := (hkeeps start h.linked).of_eq_ok hbody
  exact ⟨hfootprint.toSameShape.linked h.linked,
    fun hkind => hfootprint.containsLocally (h.declared hkind)⟩

end LoopBinding.Ready

namespace Rule

variable {ctx : Context} {n : Nat} {ev : Evaluator} {binding : LoopBinding} {body : Stmt}
  {items : List Value} {runs : List BodyRun} {s : State} {o : Outcome State Failure Completion}

/-- The variable shows the item of each run, by induction on the runs: a run that goes on leaves the
loop ready for the next one. -/
theorem Iterates.shows (h : Iterates (Evaluator.level ctx n) binding body items s runs o)
    (hready : binding.Ready s.env) : ∀ run ∈ runs, run.Shows binding := by
  induction h with
  | done | interrupted | refused => exact fun run hrun => by cases hrun
  | again _ hbind hbody _ _ ih =>
    obtain ⟨hstart, hshows⟩ := hready.bindItem hbind
    exact List.forall_mem_cons.2 ⟨hshows, ih (hstart.body hbody)⟩
  | left _ hbind | failed _ hbind | exhausted _ hbind =>
    exact List.forall_mem_singleton.2 (hready.bindItem hbind).2

end Rule

/-! ## Loops -/

/-- The state in which a loop over items starts: in a block of its own, which holds the variable of
the loop if that is declared. -/
def State.enterLoop (binding : LoopBinding) (s : State) : State :=
  { s with env :=
      match binding.kind with
      | some kind => s.env.pushBlock.define binding.name .null kind.mode
      | none => s.env.pushBlock }

theorem LoopBinding.ready_enterLoop (binding : LoopBinding) {s : State} (h : s.env.Linked) :
    binding.Ready (s.enterLoop binding).env := by
  unfold State.enterLoop
  cases hkind : binding.kind with
  | none => exact ⟨h.pushBlock, fun hsome => by rw [hkind] at hsome; cases hsome⟩
  | some kind =>
    have hshape := Environment.SameShape.define s.env.pushBlock binding.name .null kind.mode
    refine ⟨hshape.linked h.pushBlock, fun _ => ?_⟩
    unfold Environment.containsLocally OrderedMap.has
    rw [hshape.current, Environment.find?_define_self h.pushBlock.nonempty]
    rfl

namespace Rule

/-- A loop over items: its runs are for the first items, in order; its variable shows the item
whenever a run starts; and all items are visited, unless something stops the loop. -/
structure Iteration (ev : Evaluator) (binding : LoopBinding) (body : Stmt) (items : List Value)
    (s : State) (runs : List BodyRun) (o : Outcome State Failure Completion) : Prop where
  iterates : Iterates ev binding body items (s.enterLoop binding) runs o
  inOrder : runs.map (·.item) <+: items
  shows : ∀ run ∈ runs, run.Shows binding
  complete : runs.map (·.item) = items ∨ Stops ev binding body runs o

variable {ctx : Context} {n : Nat} {s s₁ : State} {v : Value} {kind : StmtKind} {span : Span}

theorem iterate_eq (ev : Evaluator) (binding : LoopBinding) (items : List Value) (body : Stmt)
    (s : State) : iterate ev binding items body s =
      (Eval.forEach (itemRound ev binding body) items (s.enterLoop binding)).mapState
        State.leaveScope := by
  unfold iterate State.enterLoop Eval.inBlock
  cases binding.kind <;> rfl

theorem exists_iteration (ctx : Context) (n : Nat) (binding : LoopBinding) (body : Stmt)
    (items : List Value) (hs : s.env.Linked) :
    ∃ runs o, Iteration (Evaluator.level ctx n) binding body items s runs o ∧
      iterate (Evaluator.level ctx n) binding items body s = o.mapState State.leaveScope := by
  obtain ⟨runs, hruns⟩ := iterates_forEach (Evaluator.level ctx n) binding body items
    (s.enterLoop binding)
  have hshows := hruns.shows (binding.ready_enterLoop hs)
  exact ⟨runs, _, ⟨hruns, hruns.prefix_items, hshows, hruns.complete⟩, iterate_eq ..⟩

/-- A statement whose parts are evaluated was not interrupted. -/
theorem execStmt_of_operand {st : Stmt} {operand : Expr}
    (h : evalExpr ctx n operand (s.executing ctx st) = .ok v s₁) :
    execStmt ctx (n + 1) st s =
      (stmtKind ctx (Evaluator.level ctx n) st.span st.kind (s.executing ctx st)).mapError
        (·.locate st.span) := by
  have hgo : ¬ s.interrupted = true := by
    intro hgo
    cases n with
    | zero => cases h
    | succ n =>
      have hgo' : (s.executing ctx st).interrupted = true := hgo
      cases (Evaluator.expr_interrupted hgo' operand).symm.trans h
  show Rule.stmt ctx (Evaluator.level ctx n) st s = _
  rw [stmt_eq_executing, if_neg hgo, Eval.locating]

theorem linked_of_operand {st : Stmt} {operand : Expr} (hs : s.env.Linked)
    (h : evalExpr ctx n operand (s.executing ctx st) = .ok v s₁) : s₁.env.Linked := by
  have hkeeps := ((Environment.Footprint.congruence ctx.trace ctx.trace).level n).expr operand
  have hs' : (s.executing ctx st).env.Linked := hs
  exact ((hkeeps _ hs').of_eq_ok h).toSameShape.linked hs'

/-- A statement that evaluates its operand and goes on with a loop over items is such a loop. -/
theorem iteration_of_operand {st : Stmt} {operand : Expr} {binding : LoopBinding} {body : Stmt}
    {items : List Value} (hs : s.env.Linked)
    (hv : evalExpr ctx n operand (s.executing ctx st) = .ok v s₁)
    (hloop : stmtKind ctx (Evaluator.level ctx n) st.span st.kind (s.executing ctx st) =
      iterate (Evaluator.level ctx n) binding items body s₁) :
    ∃ runs o, Iteration (Evaluator.level ctx n) binding body items s₁ runs o ∧
      execStmt ctx (n + 1) st s =
        (o.mapState State.leaveScope).mapError (·.locate st.span) := by
  obtain ⟨runs, o, hiteration, hitems⟩ :=
    exists_iteration ctx n binding body items (linked_of_operand hs hv)
  exact ⟨runs, o, hiteration, by rw [execStmt_of_operand hv, hloop, hitems]⟩

end Rule

/-- Loops over items iterate over a snapshot. Once the operand of a `for`-`in` loop has a value, its
keys are fixed, and so are the items of a `for`-`of` loop, whatever the body does to the operand,
the variable or anything else afterwards. The body runs for the first of these items, once for each
and in order; the variable shows the item whenever a run starts; and all items are visited, unless a
run of the body breaks, returns, fails or does not end, an item cannot be assigned to a variable
that the loop does not declare, or the host has asked to stop when a run is about to start. -/
theorem loops_iterate_over_snapshot (ctx : Context) (fuel : Nat) (span : Span)
    (binding : LoopBinding) (operand : Expr) (body : Stmt) (s s₁ : State) (v : Value)
    (hlinked : s.env.Linked) :
    (evalExpr ctx fuel operand (s.executing ctx (.node span (.forIn binding operand body))) =
        .ok v s₁ →
      ∃ runs o,
        Rule.Iteration (Evaluator.level ctx fuel) binding body (Rule.keysOf ctx s₁.store v) s₁
          runs o ∧
        execStmt ctx (fuel + 1) (.node span (.forIn binding operand body)) s =
          (o.mapState State.leaveScope).mapError (·.locate span)) ∧
    ∀ items, evalExpr ctx fuel operand
        (s.executing ctx (.node span (.forOf binding operand body))) = .ok v s₁ →
      Rule.itemsOf ctx s₁.store v = .ok items →
      ∃ runs o,
        Rule.Iteration (Evaluator.level ctx fuel) binding body items s₁ runs o ∧
        execStmt ctx (fuel + 1) (.node span (.forOf binding operand body)) s =
          (o.mapState State.leaveScope).mapError (·.locate span) := by
  constructor
  · intro hv
    refine Rule.iteration_of_operand hlinked hv ?_
    show Rule.forIn ctx (Evaluator.level ctx fuel) binding operand body _ = _
    rw [Rule.forIn, Eval.bind_apply, show (Evaluator.level ctx fuel).expr operand _ = _ from hv]
    rfl
  · intro items hv hitems
    refine Rule.iteration_of_operand hlinked hv ?_
    show Rule.forOf ctx (Evaluator.level ctx fuel) binding operand body _ = _
    rw [Rule.forOf, Eval.bind_apply, show (Evaluator.level ctx fuel).expr operand _ = _ from hv]
    show (Eval.ofExcept (Rule.itemsOf ctx s₁.store v) >>= _ : Eval Completion) s₁ = _
    rw [hitems]
    rfl

/-- Two elements in a list. -/
def twoElements : State where
  env := (({} : Environment).define "xs" (.list 0) .mutable).define "x" .null .mutable
  store := { lists := #[#[.bool true, .bool false]], builtins := #[⟨"halt", some 0⟩] }

/-- The assignment `xs["1"] = null`. -/
def overwriteElement : Stmt :=
  Stmt.of (.expression (Expr.of (.assign none
    (Expr.of (.index (Expr.of (.ident "xs")) (Expr.of (.literal (.string "1")))))
    (Expr.of (.literal .null)))))

/-- The first run of the body overwrites the second element of the list. The loop visits the element
nevertheless, and its variable holds it at the end. -/
theorem loops_iterate_over_snapshot_overwriteElement :
    twoElements.env.Linked ∧
      evalExpr plainContext 5 (Expr.of (.ident "xs")) twoElements = .ok (.list 0) twoElements ∧
      Rule.itemsOf plainContext twoElements.store (.list 0) = .ok [.bool true, .bool false] ∧
      (∃ s', execStmt plainContext 6 (Stmt.of (.forOf ⟨none, "x"⟩ (Expr.of (.ident "xs"))
          overwriteElement)) twoElements = .ok .done s' ∧
        s'.store.list 0 = #[.bool true, .null] ∧ s'.env.get? "x" = some (.bool false)) ∧
      ∃ runs o,
        Rule.Iteration (Evaluator.level plainContext 5) ⟨none, "x"⟩ overwriteElement
          [.bool true, .bool false] twoElements runs o ∧
        execStmt plainContext 6 (Stmt.of (.forOf ⟨none, "x"⟩ (Expr.of (.ident "xs"))
          overwriteElement)) twoElements =
          (o.mapState State.leaveScope).mapError (·.locate .unknown) := by
  have hlinked : twoElements.env.Linked := by decide +kernel
  have hloop := (loops_iterate_over_snapshot plainContext 5 .unknown ⟨none, "x"⟩
    (Expr.of (.ident "xs")) overwriteElement twoElements twoElements (.list 0) hlinked).2
    [.bool true, .bool false] rfl rfl
  exact ⟨hlinked, rfl, rfl, ⟨_, rfl, rfl, rfl⟩, hloop⟩

/-- The services of the sample host, with its builtin that asks the evaluation to stop. -/
def haltingContext : Context where
  library := Host.sampleLibrary
  globals := [("halt", .builtin 0)]

/-- The statement `halt();`. -/
def halt : Stmt := Stmt.of (.expression (Expr.of (.call (Expr.of (.ident "halt")) [])))

/-- A loop can end before all items were visited although its runs neither break nor return nor
fail, and no assignment fails: the first run of the body completes normally, the second item could
be assigned, but the evaluation was asked to stop in between. -/
theorem interruption_ends_iteration :
    ∃ start s₁ s₂ s',
      Rule.Iterates (Evaluator.level haltingContext 5) ⟨none, "x"⟩ halt [.bool true, .bool false]
        (twoElements.enterLoop ⟨none, "x"⟩) [⟨.bool true, start⟩] (.error .interrupted s₁) ∧
      (Evaluator.level haltingContext 5).stmt halt start = .ok (.normal .null) s₁ ∧
      Rule.assignVariable "x" (.bool false) s₁ = .ok () s₂ ∧
      execStmt haltingContext 6 (Stmt.of (.forOf ⟨none, "x"⟩ (Expr.of (.ident "xs")) halt))
        twoElements = .error .interrupted s' ∧
      s'.env.get? "x" = some (.bool true) :=
  ⟨_, _, _, _, .again rfl rfl rfl rfl (.interrupted rfl), rfl, rfl, rfl, rfl⟩

end ReactiveScript
