import ReactiveScript.Proofs.Footprint
import ReactiveScript.Proofs.Lookups
import ReactiveScript.Proofs.Pieces
import ReactiveScript.Proofs.Privacy.Rules

/-!
# Exports

A program exports the names of the export statements that it executes, and the exports of an
interpreter are these names with the values that they have. For a name of a variable this is the
value that the program sees under it; a name that only the host knows is exported as `null`.
-/

namespace ReactiveScript

/-! ## Programs -/

namespace Stmt

/-- Whether export statements stand in a statement at most at its top. -/
def exportsAtTop : Stmt → Bool
  | .node _ (.exported declaration) => declaration.isPrivate
  | st => st.isPrivate

/-- The names that a statement exports if it is an export statement. -/
def exports : Stmt → List String
  | .node _ (.exported declaration) => Rule.exportedNames declaration
  | _ => []

/-- A statement of a program whose exports are at the top is an export statement, or exports
nothing. -/
theorem exportsAtTop_cases {st : Stmt} (h : st.exportsAtTop = true) :
    (∃ span declaration, st = .node span (.exported declaration) ∧ declaration.isPrivate = true) ∨
      st.isPrivate = true ∧ st.exports = [] := by
  obtain ⟨span, kind⟩ := st
  cases kind with
  | exported declaration => exact Or.inl ⟨span, declaration, rfl, h⟩
  | _ => exact Or.inr ⟨h, rfl⟩

end Stmt

namespace Evaluator

variable {ev : Evaluator} {body : List Stmt} {last v : Value} {s s' : State}

/-- The statements of a list that are executed from a state on, after others with the given
value. -/
def executed (ev : Evaluator) (last : Value) : List Stmt → State → List Stmt
  | [], _ => []
  | st :: rest, s =>
    st :: match ev.step last st s with
      | .ok (.next last) s => executed ev last rest s
      | _ => []

theorem executed_prefix (ev : Evaluator) (last : Value) (body : List Stmt) (s : State) :
    ev.executed last body s <+: body := by
  induction body generalizing last s with
  | nil => exact List.prefix_refl []
  | cons st body ih =>
    rw [executed, List.cons_prefix_cons]
    refine ⟨rfl, ?_⟩
    split
    · exact ih _ _
    · exact List.nil_prefix

/-- Only a `when` ends a list without a failure or a signal. -/
theorem executed_of_normal (h : ev.stmtsFrom last body s = .ok (.normal v) s') :
    ev.executed last body s = body ∨
      ∃ st, (ev.executed last body s).getLast? = some st ∧ st.isWhen = true := by
  induction body generalizing last s with
  | nil => exact Or.inl rfl
  | cons st body ih =>
    rw [stmtsFrom_cons] at h
    obtain ⟨next, s₁, hstep, h⟩ := Eval.bind_eq_ok h
    rw [executed, hstep]
    cases next with
    | next last =>
      rcases ih h with hall | ⟨st', hlast, hwhen⟩
      · exact Or.inl (congrArg (st :: ·) hall)
      · refine Or.inr ⟨st', ?_, hwhen⟩
        rw [List.getLast?_cons, hlast]
        rfl
    | leave completion =>
      cases h
      refine Or.inr ⟨st, rfl, ?_⟩
      by_contra hwhen
      rw [Bool.not_eq_true] at hwhen
      rw [ev.step_eq hwhen] at hstep
      obtain ⟨completion, s₂, -, hafter⟩ := Eval.bind_eq_ok hstep
      cases completion <;> cases hafter

end Evaluator

/-- The statements of a program that an interpreter executes. -/
def Interpreter.executed (ctx : Context) (fuel : Nat) (program : List Stmt) (s : State) :
    List Stmt :=
  (Evaluator.level ctx fuel).executed .null program
    { s with events := s.events.push (.execute program.length) }

/-! ## Known names -/

/-- A name that a variable or the host gives a value. -/
def Context.knows (ctx : Context) (env : Environment) (name : String) : Prop :=
  ∃ v, Rule.lookup? ctx env name = some v

theorem Context.knows_of_contains (ctx : Context) {env : Environment} {name : String}
    (h : env.contains name = true) : ctx.knows env name := by
  obtain ⟨v, hv⟩ := Environment.get?_of_contains h
  exact ⟨v, by rw [Rule.lookup?, hv]⟩

/-- A name that is known stays known. -/
theorem Context.knows.after {ctx : Context} {env env' : Environment} {name : String}
    (h : ctx.knows env name) (hstmt : Environment.Footprint .statement env env') :
    ctx.knows env' name := by
  cases hname : env'.contains name with
  | true => exact ctx.knows_of_contains hname
  | false =>
    have hbefore : env.contains name = false := by
      by_contra hcontains
      rw [Bool.not_eq_false] at hcontains
      rw [hstmt.contains hcontains] at hname
      cases hname
    obtain ⟨v, hv⟩ := h
    refine ⟨v, ?_⟩
    rw [Rule.lookup?, Environment.get?_of_not_contains hbefore] at hv
    rwa [Rule.lookup?, Environment.get?_of_not_contains hname]

namespace Rule

variable {ctx : Context} {n : Nat} {s s' : State} {c : Completion}

/-- All names of a declaration are bound after it, by induction on the declarators. -/
theorem contains_of_declare (henv : s.env.Linked) {mode : Mode} {span : Span}
    {ds : List (String × Option Expr)}
    (h : declare (.level ctx n) mode span ds s = .ok c s') :
    ∀ d ∈ ds, s'.env.contains d.1 = true := by
  have hR := Environment.Footprint.congruence ctx.trace ctx.trace
  have hlevel := hR.level n
  induction ds generalizing s with
  | nil => exact fun _ hd => by cases hd
  | cons d ds ih =>
    obtain ⟨v, s₁, hinitial, h⟩ := Eval.bind_eq_ok h
    obtain ⟨⟨⟩, s₂, hdeclare, h⟩ := Eval.bind_eq_ok h
    have henv₁ : s₁.env.Linked :=
      ((hR.initial hlevel d.2 s henv).of_eq_ok hinitial).toSameShape.linked henv
    obtain ⟨env, henv₂, rfl⟩ := Eval.tryEnv_ok (Outcome.eq_ok_of_mapError hdeclare)
    have hlinked : env.Linked := by
      obtain ⟨-, rfl⟩ := Environment.declare_ok henv₂
      exact (Environment.SameShape.modifyScope _ _ _).linked henv₁
    have hrest := (hR.declarators hlevel mode span ds { s₁ with env } hlinked).of_eq_ok h
    rw [List.forall_mem_cons]
    exact ⟨hrest.contains (Environment.contains_of_declare henv₁ henv₂), ih hlinked h⟩

theorem contains_of_declareFunction (henv : s.env.Linked) {span : Span} {f : String}
    {params : List String} {body : List Stmt}
    (h : declareFunction ctx span (some f) params body s = .ok c s') :
    s'.env.contains f = true := by
  obtain ⟨v, s₁, hfunction, h⟩ := Eval.bind_eq_ok h
  obtain ⟨⟨⟩, s₂, hdeclare, h⟩ := Eval.bind_eq_ok h
  obtain ⟨⟨⟩, s₃, hemit, h⟩ := Eval.bind_eq_ok h
  obtain ⟨env, henv₂, rfl⟩ := Eval.tryEnv_ok hdeclare
  cases hfunction
  have hbound := Environment.contains_of_declare henv henv₂
  unfold Eval.emitIf at hemit
  split at hemit <;> cases hemit <;> cases h <;> exact hbound

/-- The names that an exported statement makes known are known after it. -/
theorem knows_exportedNames {st : Stmt} (henv : s.env.Linked)
    (h : Interpreter.execStmt ctx n st s = .ok c s') :
    ∀ name ∈ exportedNames st, ctx.knows s'.env name := by
  obtain ⟨span, kind⟩ := st
  obtain ⟨k, log, h⟩ := Interpreter.execStmt_ok h
  intro name hname
  cases kind with
  | declare kind ds =>
    obtain ⟨d, hd, rfl⟩ := List.mem_map.1 hname
    exact ctx.knows_of_contains (contains_of_declare (s := { s with events := log }) henv h d hd)
  | function f params body =>
    cases f with
    | none => cases h
    | some f =>
      obtain rfl := List.mem_singleton.1 hname
      exact ctx.knows_of_contains
        (contains_of_declareFunction (s := { s with events := log }) henv h)
  | expression e =>
    obtain ⟨espan, ekind⟩ := e
    cases ekind with
    | ident x =>
      obtain rfl := List.mem_singleton.1 hname
      obtain ⟨v, s₁, hident, h⟩ := Eval.bind_eq_ok h
      obtain ⟨j, -, hident⟩ := Interpreter.evalExpr_ok hident
      cases h
      change ident ctx name _ = _ at hident
      unfold ident at hident
      split at hident
      · rename_i v hv
        cases hident
        exact ⟨v, hv⟩
      · cases hident
    | _ => cases hname
  | _ => cases hname

end Rule

/-! ## Exports of a run -/

/-- Between two states, the names that are exported are added to the exports, and they are known in
the end. -/
structure Exporting (ctx : Context) (names : List String) (s s' : State) : Prop where
  exports : s'.exports = s.exports ++ names
  store : s'.store.Private
  env : Environment.Footprint .statement s.env s'.env
  known : ∀ name ∈ names, ctx.knows s'.env name

namespace Exporting

variable {ctx : Context} {names names' : List String} {s s₁ s' : State} {n : Nat}

theorem refl (ctx : Context) (hs : s.store.Private) : Exporting ctx [] s s where
  exports := (List.append_nil _).symm
  store := hs
  env := .refl _
  known _ hname := by cases hname

theorem trans (h : Exporting ctx names s s₁) (h' : Exporting ctx names' s₁ s') :
    Exporting ctx (names ++ names') s s' where
  exports := by rw [h'.exports, h.exports, List.append_assoc]
  store := h'.store
  env := h.env.trans h'.env
  known name hname := by
    rcases List.mem_append.1 hname with hname | hname
    · exact (h.known name hname).after h'.env
    · exact h'.known name hname

/-- An export statement adds its names. -/
theorem of_exported (hlibrary : ctx.library.Private) (hs : s.store.Private) (henv : s.env.Linked)
    {span : Span} {declaration : Stmt} (hprivate : declaration.isPrivate = true) {c : Completion}
    (h : Interpreter.execStmt ctx n (.node span (.exported declaration)) s = .ok c s') :
    Exporting ctx (Rule.exportedNames declaration) s s' := by
  obtain ⟨k, log, h⟩ := Interpreter.execStmt_ok h
  obtain ⟨c, s₁, hdeclaration, h⟩ := Eval.bind_eq_ok h
  cases h
  have hlevel := (Environment.Footprint.congruence ctx.trace ctx.trace).level k
  obtain ⟨hexports, hstore⟩ :=
    ((Evaluator.private_level hlibrary k).stmt hprivate { s with events := log } hs).of_eq_ok
      hdeclaration
  have hfootprint := (hlevel.stmt declaration { s with events := log } henv).of_eq_ok hdeclaration
  have hknown : ∀ name ∈ Rule.exportedNames declaration, ctx.knows s₁.env name :=
    Rule.knows_exportedNames (s := { s with events := log }) henv hdeclaration
  exact ⟨congrArg (· ++ Rule.exportedNames declaration) hexports, hstore, hfootprint, hknown⟩

/-- One statement of a program. -/
theorem step (hlibrary : ctx.library.Private) (hs : s.store.Private) (henv : s.env.Linked)
    {st : Stmt} (hst : st.exportsAtTop = true) {last : Value} {next : Evaluator.Step}
    (h : (Evaluator.level ctx n).step last st s = .ok next s') : Exporting ctx st.exports s s' := by
  rcases Stmt.exportsAtTop_cases hst with ⟨span, declaration, rfl, hprivate⟩ | ⟨hprivate, hnone⟩
  · rw [Evaluator.step_eq _ rfl] at h
    obtain ⟨c, s₁, hstmt, h⟩ := Eval.bind_eq_ok h
    cases h
    exact of_exported hlibrary hs henv hprivate hstmt
  · have hR := Environment.Footprint.congruence ctx.trace ctx.trace
    obtain ⟨hexports, hstore⟩ :=
      ((Evaluator.private_level hlibrary n).step last hprivate s hs).of_eq_ok h
    rw [hnone]
    exact {
      exports := by rw [hexports, List.append_nil]
      store := hstore
      env := (hR.step (hR.level n) last st s henv).of_eq_ok h
      known := fun _ hname => by cases hname }

/-- The statements of a program export what they export one after the other, by induction on those
that are left. -/
theorem stmtsFrom (hlibrary : ctx.library.Private) (hs : s.store.Private) (henv : s.env.Linked)
    {body : List Stmt} (hbody : ∀ st ∈ body, st.exportsAtTop = true) {last : Value}
    {c : Completion} (h : (Evaluator.level ctx n).stmtsFrom last body s = .ok c s') :
    Exporting ctx (((Evaluator.level ctx n).executed last body s).flatMap Stmt.exports) s s' := by
  induction body generalizing last s with
  | nil =>
    cases h
    exact refl ctx hs
  | cons st body ih =>
    rw [List.forall_mem_cons] at hbody
    rw [Evaluator.stmtsFrom_cons] at h
    obtain ⟨next, s₁, hstep, h⟩ := Eval.bind_eq_ok h
    have hfirst := step hlibrary hs henv hbody.1 hstep
    rw [Evaluator.executed, hstep, List.flatMap_cons]
    cases next with
    | next last =>
      exact hfirst.trans (ih hfirst.store (hfirst.env.toSameShape.linked henv) hbody.2 h)
    | leave completion =>
      cases h
      exact hfirst.trans (refl ctx hfirst.store)

end Exporting

/-! ## The values of exports -/

namespace State

theorem keys_exportedValues (s : State) :
    OrderedMap.keys s.exportedValues = s.exports.eraseDups := by
  unfold exportedValues
  rw [OrderedMap.keys_ofEntries, List.map_map]
  exact congrArg List.eraseDups (List.map_id _)

/-- A name is exported with the value that it has, but with `null` if no variable has it. -/
theorem find?_exportedValues {ctx : Context} {s : State} {name : String} {v : Value}
    (hname : name ∈ s.exports) (hv : Rule.lookup? ctx s.env name = some v) :
    OrderedMap.find? s.exportedValues name =
      some (if s.env.contains name = true then v else .null) := by
  unfold exportedValues
  rw [OrderedMap.find?_ofEntries_map (fun name => (s.env.get? name).getD .null) hname]
  cases hbound : s.env.contains name with
  | true =>
    obtain ⟨w, hw⟩ := Environment.get?_of_contains hbound
    rw [Rule.lookup?, hw] at hv
    rw [hw, if_pos rfl]
    exact hv
  | false =>
    rw [Environment.get?_of_not_contains hbound, if_neg Bool.false_ne_true]
    rfl

end State

/-! ## Imports -/

/-- Wherever there is a loader, and whatever is done before, importing a name of a published module
under a name that the innermost scope does not hold makes this a constant with the given value. -/
def Exports.Provides (exports : Exports) (name : String) (v : Value) : Prop :=
  ∀ (ctx : Context) (fuel : Nat) (path localName : String) (span : Span) (s : State),
    ctx.modules.isSome = true → s.interrupted = false → 0 < s.env.depth →
    s.env.containsLocally localName = false →
    ∃ s', Interpreter.execStmt (ctx.publish path exports) (fuel + 1)
        (.node span (.importNames [.named name localName] path)) s = .ok .done s' ∧
      s'.env.resolve? localName =
        some { mode := .immutable, value := v, span := some span }

/-- An import of a published name is a declaration. -/
theorem Rule.importNames_named {ctx : Context} {modules : OrderedMap Exports} {exports : Exports}
    {path name localName : String} {v : Value} {span : Span} {s : State} {env : Environment}
    (hmodules : ctx.modules = some modules) (hpath : OrderedMap.find? modules path = some exports)
    (hv : OrderedMap.find? exports name = some v)
    (henv : s.env.declare .immutable localName v (some span) = .ok env) :
    importNames ctx span [.named name localName] path s =
      .ok .done { s with env, events := s.events.push (.loading path) } := by
  have hload : loadModule ctx path s =
      .ok exports { s with events := s.events.push (.loading path) } := by
    unfold loadModule
    rw [hmodules]
    dsimp only
    rw [Eval.bind_apply, hpath]
    rfl
  have hvalue : importValue path exports (.named name localName) = pure v := by
    rw [importValue, hv]
  have hbind : bindImports span path exports [.named name localName] =
      (Eval.tryEnv fun env => env.declare .immutable localName v (some span)) >>= fun _ =>
        pure .done := by
    rw [bindImports, hvalue]
    rfl
  rw [importNames, Eval.bind_apply, hload]
  dsimp only
  rw [hbind, Eval.bind_apply, Eval.tryEnv]
  dsimp only
  rw [henv]
  rfl

theorem Exports.provides {exports : Exports} {name : String} {v : Value}
    (hv : OrderedMap.find? exports name = some v) : exports.Provides name v := by
  intro ctx fuel path localName span s hloader hgo hdepth hfree
  obtain ⟨modules, hmodules⟩ := Option.isSome_iff_exists.1 hloader
  have hpublished : (ctx.publish path exports).modules =
      some (OrderedMap.put modules path exports) := by
    rw [Context.publish, hmodules]
    rfl
  obtain ⟨env, henv, hresolve⟩ := Environment.declare_immutable hdepth hfree v (some span)
  obtain ⟨log, hstmt⟩ := Interpreter.execStmt_succ (ctx.publish path exports) fuel span
    (.importNames [.named name localName] path) hgo
  have himport := Rule.importNames_named (s := { s with events := log }) hpublished
    (OrderedMap.find?_put_self modules path exports) hv henv
  refine ⟨{ s with env, events := log.push (.loading path) }, ?_, hresolve⟩
  rw [hstmt, Rule.stmtKind, himport]
  rfl

/-! ## The exports of a program -/

/-- Evaluating a name gives a value and changes nothing, unless the evaluation is interrupted. -/
def Interpreter.Sees (ctx : Context) (s : State) (name : String) (v : Value) : Prop :=
  ∀ fuel span, evalExpr ctx (fuel + 1) (.node span (.ident name)) { s with interrupted := false } =
    .ok v { s with interrupted := false }

theorem Interpreter.sees_of_lookup {ctx : Context} {s : State} {name : String} {v : Value}
    (h : Rule.lookup? ctx s.env name = some v) : Sees ctx s name v := by
  intro fuel span
  show (Rule.ident ctx name { s with interrupted := false }).mapError (·.locate span) = _
  unfold Rule.ident
  dsimp only
  rw [h]
  rfl

/-- Exports are what a program exported. Let all export statements of a program stand at its top,
and let neither a function that is there before nor one that the host makes hold any. If the program
succeeds on a new interpreter, then the names of its exports are those of the export statements that
it executed, each name once and in the order of the first export. Evaluating such a name gives a
value. This is the value of the export if a variable has the name, while a name that only the host
knows is exported as `null`. And whoever imports the name from the published exports gets a constant
with the value of the export. The program executes all its statements, or those up to a `when` that
ends it. -/
theorem exports_are_what_was_exported (ctx : Context) (fuel limit : Nat) (store : Store)
    (events : Array Event) (program : List Stmt) (v : Value) (s : State)
    (hlibrary : ctx.library.Private) (hstore : store.Private)
    (hprogram : ∀ st ∈ program, st.exportsAtTop = true)
    (h : Interpreter.execute ctx fuel program (.fresh limit store events) = .ok v s) :
    let executed := Interpreter.executed ctx fuel program (.fresh limit store events)
    (executed <+: program ∧
      (executed = program ∨ ∃ st, executed.getLast? = some st ∧ st.isWhen = true)) ∧
    s.env.isGlobal = true ∧
    OrderedMap.keys s.exportedValues = (executed.flatMap Stmt.exports).eraseDups ∧
    ∀ name ∈ executed.flatMap Stmt.exports, ∃ w, Interpreter.Sees ctx s name w ∧
      let exported := if s.env.contains name = true then w else .null
      OrderedMap.find? s.exportedValues name = some exported ∧
        s.exportedValues.Provides name exported := by
  intro executed
  have hrun := Interpreter.execStmts_of_execute h
  have hstart : Environment.WellFormed { maxCallDepth := limit } :=
    .of_global List.nodup_nil (Nat.zero_le _)
  have hexporting : Exporting ctx (executed.flatMap Stmt.exports) _ s :=
    .stmtsFrom hlibrary hstore hstart.linked hprogram hrun
  have hexports : s.exports = executed.flatMap Stmt.exports := hexporting.exports
  refine ⟨⟨Evaluator.executed_prefix _ _ _ _, Evaluator.executed_of_normal hrun⟩, ?_, ?_, ?_⟩
  · have hdepth : s.env.depth = 1 := hexporting.env.depth
    exact beq_iff_eq.2 hdepth
  · rw [State.keys_exportedValues, hexports]
  · intro name hname
    obtain ⟨w, hw⟩ := hexporting.known name hname
    have hvalue := State.find?_exportedValues (hexports ▸ hname) hw
    exact ⟨w, Interpreter.sees_of_lookup hw, hvalue, Exports.provides hvalue⟩

/-- A program that exports two variables of one declaration, a function, one of the variables again
after it has changed, and a name of the host. It ends with a `when`, before another export. -/
def exportingProgram : List Stmt :=
  let exported := fun kind => Stmt.of (.exported (Stmt.of kind))
  [exported (.declare .blockScoped [("a", some (Expr.of (.literal .null))), ("b", none)]),
    exported (.function (some "f") [] []),
    assignTo "a" (Expr.of (.literal (.bool true))),
    exported (.expression (Expr.of (.ident "a"))),
    exported (.expression (Expr.of (.ident "NaN"))),
    Stmt.of (.whenGuard (Expr.of (.ident "a")) []),
    exported (.declare .blockScoped [("c", none)])]

theorem exports_are_what_was_exported_exportingProgram :
    Host.standardContext.library.Private ∧ Host.standardStart.store.Private ∧
      (∀ st ∈ exportingProgram, st.exportsAtTop = true) ∧
      ∃ v s, Interpreter.execute Host.standardContext 5 exportingProgram
          (.fresh 1 Host.standardStart.store #[]) = .ok v s ∧
        OrderedMap.keys s.exportedValues = ["a", "b", "f", "NaN"] ∧
        ∃ w, Interpreter.Sees Host.standardContext s "a" w ∧
          OrderedMap.find? s.exportedValues "a" = some w ∧ s.exportedValues.Provides "a" w := by
  have hstore : Host.standardStart.store.Private := Store.private_empty.of_functions rfl
  have hprogram : ∀ st ∈ exportingProgram, st.exportsAtTop = true := by decide
  have hrun : (Interpreter.execute Host.standardContext 5 exportingProgram
      (.fresh 1 Host.standardStart.store #[])).state?.map (·.env.contains "a") = some true := by
    decide +kernel
  have hnames : (Interpreter.executed Host.standardContext 5 exportingProgram
      (.fresh 1 Host.standardStart.store #[])).flatMap Stmt.exports =
        ["a", "b", "f", "a", "NaN"] := by
    decide +kernel
  obtain ⟨v, s, hs, hbound⟩ := Outcome.exists_of_state? hrun
  obtain ⟨-, -, hkeys, hvalues⟩ := exports_are_what_was_exported Host.standardContext 5 1
    Host.standardStart.store #[] exportingProgram v s Host.private_standardLibrary hstore hprogram
    hs
  rw [hnames] at hkeys hvalues
  obtain ⟨w, hsees, hexported⟩ := hvalues "a" (by decide)
  rw [if_pos hbound] at hexported
  exact ⟨Host.private_standardLibrary, hstore, hprogram, v, s, hs, hkeys, w, hsees, hexported⟩

/-- A name that only the host knows has a value and can be exported, but the value gets lost. -/
theorem exported_host_global_is_null :
    (Interpreter.execute Host.standardContext 4
        [Stmt.of (.exported (Stmt.of (.expression (Expr.of (.ident "NaN")))))]
        (.fresh 1 Host.standardStart.store #[])).state?.map (fun s =>
      (s.exportedValues,
        (Interpreter.evalExpr Host.standardContext 1 (Expr.of (.ident "NaN")) s).value?)) =
      some ([("NaN", .null)], some (.number Number.nan)) := by
  decide +kernel

end ReactiveScript
