import ReactiveScript.Eval.Fuel
import ReactiveScript.Proofs.Agreement.Expression

/-!
# Agreement on statements

The rules for loops and statements, one lemma for each, and from all rules together `Alike.next`:
evaluators that apply the rules once to evaluators that agree do agree. The rule for `try` is the
one that has to look at interruptions: they are kept as results for a moment, and then the finalizer
is executed.
-/

namespace ReactiveScript

namespace Setting

variable {D : Setting} {ev ev' : Evaluator} {s : State} {here : Signals}

/-! ## Signals that arrive -/

theorem completion.of_letsPass {kind : StmtKind} {c : Completion}
    (h : D.completion (kind.letsPass here) s c) : D.completion here s c :=
  ⟨(StmtKind.allows_of_letsPass h.1).1, h.2⟩

/-- A loop takes the signals that its body sends to it. -/
theorem completion.afterBody {c : Completion} (h : D.completion here.inLoop s c) :
    D.round here.afterLoop s (Rule.afterBody c) := by
  cases c with
  | normal v => trivial
  | continued => trivial
  | broke => exact completion_done _
  | returned v => exact h

/-- What does not depend on the environment. -/
theorem completion.withEnv (s : State) (env : Environment) (c : Completion)
    (h : D.completion here s c) : D.completion here { s with env } c :=
  h

theorem result.grows {s' : State} {r : Except Failure Completion}
    (h : D.result (D.completion here) s r) (hs : s.Grows D.bodies s') :
    D.result (D.completion here) s' r := by
  cases r with
  | ok c => exact completion.grows h hs
  | error failure => exact Failure.Legitimate.grows h hs

namespace Alike

/-! ## Loops -/

theorem whileTrue (h : D.Alike ev ev') {test : Expr} (htest : test.isScoped D.bodies = true)
    {continuing continuing' : Eval Eval.Round}
    (hc : ∀ s₁, s.Grows D.bodies s₁ → D.Agree s₁ continuing continuing' (D.round here)) :
    D.Agree s (Rule.whileTrue ev test continuing) (Rule.whileTrue ev' test continuing')
      (D.round here) := by
  refine (h.expr htest).bind fun v s₁ hgrows _ => ?_
  split
  · exact hc s₁ hgrows
  · exact .pure (completion_done here)

theorem loopBody (h : D.Alike ev ev') {body : Stmt}
    (hbody : body.isScoped D.bodies here.inLoop = true) :
    D.Agree s (Rule.loopBody ev body) (Rule.loopBody ev' body) (D.round here.afterLoop) :=
  (h.stmt hbody).bind fun _ _ _ hc => .pure hc.afterBody

theorem bodyThen (h : D.Alike ev ev') {body : Stmt}
    (hbody : body.isScoped D.bodies here.inLoop = true)
    {continuing continuing' : Eval Eval.Round}
    (hc : ∀ s₁, s.Grows D.bodies s₁ →
      D.Agree s₁ continuing continuing' (D.round here.afterLoop)) :
    D.Agree s (Rule.bodyThen ev body continuing) (Rule.bodyThen ev' body continuing')
      (D.round here.afterLoop) := by
  refine (h.loopBody hbody).bind fun round s₁ hgrows hround => ?_
  cases round with
  | again => exact hc s₁ hgrows
  | finish c => exact .pure hround

/-- Loops of rounds that agree do agree. -/
theorem loop (h : D.Alike ev ev') {next next' : Eval Eval.Round}
    (hnext : ∀ s, D.Agree s next next' (D.round here)) :
    D.Agree s (Eval.repeating next ev.rounds) (Eval.repeating next' ev'.rounds)
      (D.completion here) := by
  rw [h.rounds]
  exact Agree.repeating (fun s₁ _ => hnext s₁) ev.rounds

theorem whileLoop (h : D.Alike ev ev') {test : Expr} {body : Stmt}
    (htest : test.isScoped D.bodies = true) (hbody : body.isScoped D.bodies here.inLoop = true) :
    D.Agree s (Rule.whileLoop ev test body) (Rule.whileLoop ev' test body)
      (D.completion here.afterLoop) := by
  refine h.loop fun s => Agree.checkInterrupt.bind fun _ s₁ _ _ => ?_
  exact h.whileTrue htest fun s₂ _ => h.loopBody hbody

theorem doWhile (h : D.Alike ev ev') {test : Expr} {body : Stmt}
    (htest : test.isScoped D.bodies = true) (hbody : body.isScoped D.bodies here.inLoop = true) :
    D.Agree s (Rule.doWhile ev body test) (Rule.doWhile ev' body test)
      (D.completion here.afterLoop) := by
  refine h.loop fun s => Agree.checkInterrupt.bind fun _ s₁ _ _ => ?_
  exact h.bodyThen hbody fun s₂ _ => h.whileTrue htest fun s₃ _ => .pure trivial

theorem forUpdate (h : D.Alike ev ev') {update : Option Expr}
    (hupdate : Expr.optionScoped D.bodies update = true) :
    D.Agree s (Rule.forUpdate ev update) (Rule.forUpdate ev' update) (D.round here) := by
  cases update with
  | none => exact .pure trivial
  | some e =>
    rw [Expr.optionScoped] at hupdate
    exact (h.expr hupdate).bind fun _ _ _ _ => .pure trivial

theorem forRound (h : D.Alike ev ev') {test update : Option Expr} {body : Stmt}
    (htest : Expr.optionScoped D.bodies test = true)
    (hupdate : Expr.optionScoped D.bodies update = true)
    (hbody : body.isScoped D.bodies here.inLoop = true) :
    D.Agree s (Rule.forRound ev test update body) (Rule.forRound ev' test update body)
      (D.round here.afterLoop) := by
  have hround : ∀ s, D.Agree s (Rule.bodyThen ev body (Rule.forUpdate ev update))
      (Rule.bodyThen ev' body (Rule.forUpdate ev' update)) (D.round here.afterLoop) :=
    fun s => h.bodyThen hbody fun s₁ _ => h.forUpdate hupdate
  refine Agree.checkInterrupt.bind fun _ s₁ _ _ => ?_
  cases test with
  | none => exact hround s₁
  | some test =>
    rw [Expr.optionScoped] at htest
    exact h.whileTrue htest fun s₂ _ => hround s₂

/-- The signals of the first statement of a `for` loop are not looked at. -/
theorem forLoop (h : D.Alike ev ev') {init : Option Stmt} {test update : Option Expr}
    {body : Stmt} (hinit : Stmt.optionScoped D.bodies here init = true)
    (htest : Expr.optionScoped D.bodies test = true)
    (hupdate : Expr.optionScoped D.bodies update = true)
    (hbody : body.isScoped D.bodies here.inLoop = true) :
    D.Agree s (Rule.forLoop ev init test update body) (Rule.forLoop ev' init test update body)
      (D.completion here.afterLoop) := by
  have hloop : ∀ s, D.Agree s (Eval.repeating (Rule.forRound ev test update body) ev.rounds)
      (Eval.repeating (Rule.forRound ev' test update body) ev'.rounds)
      (D.completion here.afterLoop) :=
    fun s => h.loop fun s => h.forRound htest hupdate hbody
  refine Agree.inBlock completion.withEnv ?_
  cases init with
  | none => exact hloop _
  | some init =>
    rw [Stmt.optionScoped] at hinit
    exact (h.stmt hinit).bind fun _ s₁ _ _ => hloop s₁

end Alike

theorem Agree.bindItem (binding : LoopBinding) {item : Value} (hitem : D.value s item) :
    D.Agree s (Rule.bindItem binding item) (Rule.bindItem binding item) fun _ _ => True := by
  unfold Rule.bindItem
  split
  · exact modifyEnv fun hs => hs.env.setLocal _ hitem
  · exact assignVariable _ hitem

namespace Alike

theorem itemRound (h : D.Alike ev ev') (binding : LoopBinding) {body : Stmt}
    (hbody : body.isScoped D.bodies here.inLoop = true) {item : Value} (hitem : D.value s item) :
    D.Agree s (Rule.itemRound ev binding body item) (Rule.itemRound ev' binding body item)
      (D.round here.afterLoop) := by
  refine Agree.checkInterrupt.bind fun _ s₁ hgrows _ => ?_
  refine (Agree.bindItem binding (hgrows.sound hitem)).bind fun _ s₂ _ _ => ?_
  exact h.loopBody hbody

theorem iterate (h : D.Alike ev ev') (binding : LoopBinding) {items : List Value} {body : Stmt}
    (hitems : ∀ item ∈ items, D.value s item)
    (hbody : body.isScoped D.bodies here.inLoop = true) :
    D.Agree s (Rule.iterate ev binding items body) (Rule.iterate ev' binding items body)
      (D.completion here.afterLoop) := by
  have hloop : ∀ s, (∀ item ∈ items, D.value s item) →
      D.Agree s (Eval.forEach (Rule.itemRound ev binding body) items)
        (Eval.forEach (Rule.itemRound ev' binding body) items) (D.completion here.afterLoop) :=
    fun s hitems => Agree.forEach hitems fun item s₁ _ hitem => h.itemRound binding hbody hitem
  refine Agree.inBlock completion.withEnv ?_
  split
  · refine (Agree.define Store.sound_null _ _).bind fun _ s₁ hgrows _ => hloop s₁ ?_
    exact fun item hitem => hgrows.sound (hitems item hitem)
  · exact hloop _ hitems

end Alike

theorem sound_keysOf (ctx : Context) {bodies : Signals} {st : Store} (v : Value) :
    ∀ key ∈ Rule.keysOf ctx st v, st.Sound bodies key := by
  have hindex : ∀ n, ∀ key ∈ Rule.indexStrings n, st.Sound bodies key := by
    intro n key hkey
    obtain ⟨i, -, rfl⟩ := List.mem_map.1 hkey
    exact Store.sound_string _
  unfold Rule.keysOf
  split
  · intro key hkey
    obtain ⟨name, -, rfl⟩ := List.mem_map.1 hkey
    exact Store.sound_string _
  · exact hindex _
  · exact hindex _
  · exact hindex _
  · exact fun _ hkey => by cases hkey

theorem itemsOf_plain {v : Value} (hv : D.value s v) :
    OrPlain (fun items => ∀ item ∈ items, D.value s item) (Rule.itemsOf D.ctx s.store v) := by
  unfold Rule.itemsOf
  split
  · exact fun item hitem => hv.of_holds (.element (Array.mem_toList_iff.1 hitem))
  · intro item hitem
    obtain ⟨c, -, rfl⟩ := List.mem_map.1 hitem
    exact Store.sound_string _
  · split
    · rename_i items hitems
      exact D.host.enumerate hv hitems
    · rfl
  · rfl

namespace Alike

theorem forIn (h : D.Alike ev ev') (binding : LoopBinding) {object : Expr} {body : Stmt}
    (hobject : object.isScoped D.bodies = true)
    (hbody : body.isScoped D.bodies here.inLoop = true) :
    D.Agree s (Rule.forIn D.ctx ev binding object body)
      (Rule.forIn D.ctx ev' binding object body) (D.completion here.afterLoop) := by
  refine (h.expr hobject).bind fun v s₁ _ _ => Agree.withStore ?_
  exact h.iterate binding (sound_keysOf D.ctx v) hbody

theorem forOf (h : D.Alike ev ev') (binding : LoopBinding) {iterable : Expr} {body : Stmt}
    (hiterable : iterable.isScoped D.bodies = true)
    (hbody : body.isScoped D.bodies here.inLoop = true) :
    D.Agree s (Rule.forOf D.ctx ev binding iterable body)
      (Rule.forOf D.ctx ev' binding iterable body) (D.completion here.afterLoop) := by
  refine (h.expr hiterable).bind fun v s₁ _ hv => Agree.withStore ?_
  exact (Agree.ofExcept (itemsOf_plain hv)).bind fun items s₂ _ hitems =>
    h.iterate binding hitems hbody

/-! ## Statements -/

theorem initial (h : D.Alike ev ev') {init : Option Expr}
    (hinit : Expr.optionScoped D.bodies init = true) :
    D.Agree s (Rule.initial ev init) (Rule.initial ev' init) D.value := by
  cases init with
  | none => exact .pure Store.sound_null
  | some e =>
    rw [Expr.optionScoped] at hinit
    exact h.expr hinit

/-- The declarators of a declaration, by induction on those that are left. -/
theorem declarators (h : D.Alike ev ev') (mode : Mode) (span : Span)
    {ds : List (String × Option Expr)} (hds : Stmt.declaratorsScoped D.bodies ds = true) :
    D.Agree s (Rule.declare ev mode span ds) (Rule.declare ev' mode span ds)
      (D.completion here) := by
  induction ds generalizing s with
  | nil => exact .pure (completion_done here)
  | cons d ds ih =>
    obtain ⟨name, init⟩ := d
    rw [Stmt.declaratorsScoped, Bool.and_eq_true] at hds
    refine (h.initial hds.1).bind fun v s₁ _ hv => ?_
    have hdeclare := (Agree.declare hv mode name (some span)).mapError
      (f := (·.withSpan span)) rfl fun _ _ hf => hf.withSpan span
    exact hdeclare.bind fun _ s₂ _ _ => ih hds.2

end Alike

theorem Agree.declareFunction (span : Span) (name : Option String) (params : List String)
    {body : List Stmt} (hbody : Stmt.areScoped D.bodies D.bodies body = true) :
    D.Agree s (Rule.declareFunction D.ctx span name params body)
      (Rule.declareFunction D.ctx span name params body) (D.completion here) := by
  cases name with
  | none => exact fail trivial
  | some f =>
    refine (function (some f) params hbody).bind fun v s₁ _ hv => ?_
    refine (declare hv .function f (some span)).bind fun _ s₂ _ _ => ?_
    exact (emitIf _ _).bind fun _ s₃ _ _ => pure (completion_done here)

namespace Alike

theorem ifElse (h : D.Alike ev ev') {test : Expr} {consequent : Stmt} {alternate : Option Stmt}
    (htest : test.isScoped D.bodies = true) (hc : consequent.isScoped D.bodies here = true)
    (ha : Stmt.optionScoped D.bodies here alternate = true) :
    D.Agree s (Rule.ifElse ev test consequent alternate)
      (Rule.ifElse ev' test consequent alternate) (D.completion here) := by
  refine (h.expr htest).bind fun v s₁ _ _ => ?_
  split
  · exact h.stmt hc
  · cases alternate with
    | none => exact .pure (completion_done here)
    | some st =>
      rw [Stmt.optionScoped] at ha
      exact h.stmt ha

theorem whenGuard (h : D.Alike ev ev') {test : Expr} {body : List Stmt}
    (htest : test.isScoped D.bodies = true)
    (hbody : Stmt.areScoped D.bodies here body = true) :
    D.Agree s (Rule.whenGuard ev test body) (Rule.whenGuard ev' test body)
      (D.completion here) := by
  refine (h.expr htest).bind fun v s₁ _ _ => ?_
  split
  · exact h.block hbody
  · exact .pure (completion_done here)

/-- A switch takes the `break` that its cases send to it. -/
theorem fallThrough (h : D.Alike ev ev') {cases : List (Option Expr × List Stmt)}
    (hcases : Stmt.casesScoped D.bodies here.inSwitch cases = true) :
    D.Agree s (Rule.fallThrough ev cases) (Rule.fallThrough ev' cases)
      (D.completion here.afterSwitch) := by
  induction cases generalizing s with
  | nil => exact .pure (completion_done _)
  | cons c cases ih =>
    obtain ⟨test, body⟩ := c
    rw [Stmt.casesScoped, Bool.and_eq_true, Bool.and_eq_true] at hcases
    refine (h.stmts hcases.1.2).bind fun completion s₁ _ hc => ?_
    cases completion with
    | normal v => exact ih hcases.2
    | broke => exact .pure (completion_done _)
    | continued => exact .pure hc
    | returned v => exact .pure hc

theorem chooseCase (h : D.Alike ev ev') (v : Value) {cases : List (Option Expr × List Stmt)}
    (hcases : Stmt.casesScoped D.bodies here.inSwitch cases = true) :
    D.Agree s (Rule.chooseCase ev v cases) (Rule.chooseCase ev' v cases)
      (D.completion here.afterSwitch) := by
  induction cases generalizing s with
  | nil => exact .pure (completion_done _)
  | cons c cases ih =>
    obtain ⟨test, body⟩ := c
    have hall := hcases
    rw [Stmt.casesScoped, Bool.and_eq_true, Bool.and_eq_true] at hcases
    cases test with
    | none => exact h.fallThrough hall
    | some test =>
      rw [Expr.optionScoped] at hcases
      refine (h.expr hcases.1.1).bind fun t s₁ _ _ => ?_
      split
      · exact h.fallThrough hall
      · exact ih hcases.2

theorem switch (h : D.Alike ev ev') {discriminant : Expr}
    {cases : List (Option Expr × List Stmt)} (hd : discriminant.isScoped D.bodies = true)
    (hcases : Stmt.casesScoped D.bodies here.inSwitch cases = true) :
    D.Agree s (Rule.switch ev discriminant cases) (Rule.switch ev' discriminant cases)
      (D.completion here.afterSwitch) := by
  refine (h.expr hd).bind fun v s₁ _ _ => ?_
  exact Agree.inBlock completion.withEnv (h.chooseCase v hcases)

theorem throwValue (h : D.Alike ev ev') (span : Span) {e : Expr}
    (he : e.isScoped D.bodies = true) :
    D.Agree s (Rule.throwValue ev span e) (Rule.throwValue ev' span e) (D.completion here) := by
  refine (h.expr he).bind fun v s₁ _ hv => Agree.withStore ?_
  exact Agree.fail hv

theorem observe (h : D.Alike ev ev') (targets : List String) {handler : Expr}
    (hhandler : handler.isScoped D.bodies = true) :
    D.Agree s (Rule.observe ev targets handler) (Rule.observe ev' targets handler)
      (D.completion here) := by
  refine (h.expr hhandler).bind fun v s₁ _ hv => ?_
  split
  · refine (Agree.tryEnv fun env hs henv => hs.env.register hv henv).bind
      fun _ s₂ _ _ => ?_
    exact (Agree.emit _).bind fun _ s₃ _ _ => .pure (completion_done here)
  · exact Agree.raise rfl

theorem ret (h : D.Alike ev ev') {e : Option Expr} (hreturns : here.returns = true)
    (he : Expr.optionScoped D.bodies e = true) :
    D.Agree s (Rule.ret ev e) (Rule.ret ev' e) (D.completion here) :=
  (h.initial he).bind fun _ _ _ hv => .pure ⟨hreturns, hv⟩

theorem expression (h : D.Alike ev ev') {e : Expr} (he : e.isScoped D.bodies = true) :
    D.Agree s (Rule.expression ev e) (Rule.expression ev' e) (D.completion here) :=
  (h.expr he).bind fun _ _ _ hv => .pure (completion_normal hv)

theorem exported (h : D.Alike ev ev') {st : Stmt} (hst : st.isScoped D.bodies here = true) :
    D.Agree s (Rule.exported ev st) (Rule.exported ev' st) (D.completion here) :=
  (h.stmt hst).bind fun _ _ _ hc => .ok rfl fun hs => ⟨⟨id, .refl _⟩, { hs with }, hc⟩

/-! ## Failures -/

theorem catchClause (h : D.Alike ev ev') (param : Option String) {body : List Stmt}
    {thrown : Value} (hbody : Stmt.areScoped D.bodies here body = true)
    (hthrown : D.value s thrown) :
    D.Agree s (Rule.catchClause ev param body thrown) (Rule.catchClause ev' param body thrown)
      (D.completion here) := by
  refine Agree.inBlock completion.withEnv ?_
  cases param with
  | none => exact h.stmts hbody
  | some name =>
    have hparam : D.value { s with env := s.env.pushBlock } thrown := hthrown
    exact (Agree.define hparam name .blockMutable).bind fun _ _ _ _ => h.stmts hbody

end Alike

theorem Agree.ofResult {α : Type} {Q : State → α → Prop} {r : Except Failure α}
    (h : D.result Q s r) : D.Agree s (Eval.ofResult r) (Eval.ofResult r) Q := by
  cases r with
  | ok a => exact pure h
  | error failure => exact fail h

theorem AgreeResult.emit {α : Type} {Q : State → α → Prop} {m m' : Eval (Except Failure α)}
    (event : Event) (h : D.AgreeResult { s with events := s.events.push event } m m' Q) :
    D.AgreeResult s (Eval.emit event >>= fun _ => m) (Eval.emit event >>= fun _ => m') Q := by
  intro hs
  obtain ⟨hsame, hmeets⟩ := h { hs with }
  have hgrows : s.Grows D.bodies { s with events := s.events.push event } := ⟨id, .refl _⟩
  exact ⟨hsame, hmeets.of_grows hgrows⟩

namespace Alike

theorem handled (h : D.Alike ev ev') {r : Except Failure Completion}
    {handler : Option (Option String × List Stmt)} (hr : D.result (D.completion here) s r)
    (hhandler : Stmt.handlerScoped D.bodies here handler = true) :
    D.AgreeResult s (Rule.handled ev r handler) (Rule.handled ev' r handler)
      (D.completion here) := by
  cases handler with
  | none => exact .pure hr
  | some clause =>
    obtain ⟨param, body⟩ := clause
    rw [Stmt.handlerScoped] at hhandler
    cases r with
    | ok c => exact .pure hr
    | error failure =>
      simp only [Rule.handled]
      split
      · refine AgreeResult.emit _ (h.catchClause param hhandler ?_).attempt
        exact Failure.Legitimate.thrownValue hr
      · exact .pure hr

/-- A finalizer after which an interruption is reported. -/
theorem finalized (h : D.Alike ev ev') (blockFailed : Bool) {r : Except Failure Completion}
    {finalizer : Option (List Stmt)} (hr : D.result (D.completion here) s r)
    (hfinalizer : Stmt.finalizerScoped D.bodies here finalizer = true) :
    D.Agree s (Rule.finalized ev blockFailed r finalizer)
      (Rule.finalized ev' blockFailed r finalizer) (D.completion here) := by
  cases finalizer with
  | none => exact Agree.ofResult hr
  | some body =>
    rw [Stmt.finalizerScoped] at hfinalizer
    refine (h.block hfinalizer).attempt.bind (fun r' s₁ _ hgrows hr' => ?_) fun s₁ _ hhalted => ?_
    · have hkept := hr.grows hgrows
      cases r' with
      | ok c =>
        dsimp only
        split
        · exact .pure hr'
        · exact Agree.ofResult hkept
      | error failure =>
        dsimp only
        split
        · exact (Agree.emit _).bind fun _ s₂ hgrows' _ => Agree.ofResult (hkept.grows hgrows')
        · exact Agree.fail hr'
    · refine ⟨s₁, ?_, hhalted⟩
      simp [Failure.isCatchable, Eval.fail]

end Alike

/-- After an interruption a finalizer does nothing. -/
theorem finalized_interrupted {body : List Stmt} (hidle : Idle s (ev.block body s))
    (blockFailed : Bool) :
    Rule.finalized ev blockFailed (.error .interrupted) (some body) s =
      .error .interrupted { s with env := s.env.pushBlock.pop } := by
  show (Eval.attempt (ev.block body) >>= _) s = _
  rw [Eval.bind_apply, Eval.attempt]
  generalize ev.block body s = o at hidle
  cases hidle with
  | interrupted => simp [Failure.isCatchable, Eval.fail]
  | done v => rfl

theorem halts_finalized (hidle : ∀ body t, t.interrupted = true → Idle t (ev.block body t))
    (hs : D.Halted s) (blockFailed : Bool) (finalizer : Option (List Stmt)) :
    D.Halts (Rule.finalized ev blockFailed (.error .interrupted) finalizer s) := by
  cases finalizer with
  | none => exact ⟨s, rfl, hs⟩
  | some body =>
    have hblock := hidle body s hs.interrupted
    obtain ⟨t, ht, hunwinds⟩ := hs
    exact ⟨_, finalized_interrupted hblock blockFailed, t, ht, hunwinds.emptyBlock⟩

/-- A handler is entered neither after a success nor for an interruption. -/
theorem handled_ok (ev : Evaluator) (c : Completion)
    (handler : Option (Option String × List Stmt)) :
    Rule.handled ev (.ok c) handler = pure (.ok c) := by
  cases handler <;> rfl

theorem handled_interrupted (ev : Evaluator) (handler : Option (Option String × List Stmt)) :
    Rule.handled ev (.error .interrupted) handler = pure (.error .interrupted) := by
  cases handler <;> rfl

theorem eq_error_of_attempt {α : Type} {m : Eval α} {failure : Failure} {s₁ : State}
    (h : m.attempt s = .ok (.error failure) s₁) : m s = .error failure s₁ := by
  unfold Eval.attempt at h
  split at h
  · cases h
  · rename_i hm
    cases h
    exact hm
  · cases h

namespace Alike

theorem tryCatch (h : D.Alike ev ev') {block : List Stmt}
    {handler : Option (Option String × List Stmt)} {finalizer : Option (List Stmt)}
    (hgo : s.interrupted = false) (hblock : Stmt.areScoped D.bodies here block = true)
    (hhandler : Stmt.handlerScoped D.bodies here handler = true)
    (hfinalizer : Stmt.finalizerScoped D.bodies here finalizer = true) :
    D.Agree s (Rule.tryCatch ev block handler finalizer)
      (Rule.tryCatch ev' block handler finalizer) (D.completion here) := by
  -- An evaluator whose block has failed does nothing in a finalizer after an interruption.
  have hidle : ∀ failure s₁, (ev.block block).attempt s = .ok (.error failure) s₁ →
      ∀ body t, t.interrupted = true → Idle t (ev.block body t) :=
    fun failure s₁ hattempt => h.idles hgo (eq_error_of_attempt hattempt)
  refine (h.block hblock).attempt.bind (fun r s₁ hr hgrows hresult => ?_) fun s₁ hr hhalted => ?_
  · refine (h.handled hresult hhandler).bind (fun outcome s₂ _ _ houtcome => ?_)
      fun s₂ houtcome hhalted => ?_
    · exact h.finalized _ houtcome hfinalizer
    · cases r with
      | ok c =>
        rw [handled_ok] at houtcome
        cases houtcome
      | error failure => exact halts_finalized (hidle failure s₁ hr) hhalted _ _
  · rw [handled_interrupted]
    exact halts_finalized (hidle _ s₁ hr) hhalted _ _

/-! ## All statements -/

theorem stmtKind (h : D.Alike ev ev') (span : Span) {kind : StmtKind}
    (hgo : s.interrupted = false) (hkind : kind.isScoped D.bodies here = true) :
    D.Agree s (Rule.stmtKind D.ctx ev span kind) (Rule.stmtKind D.ctx ev' span kind)
      (D.completion (kind.letsPass here)) := by
  cases kind <;> simp only [StmtKind.isScoped, Bool.and_eq_true] at hkind
  case expression e => exact h.expression hkind
  case declare kind ds => exact h.declarators kind.mode span hkind
  case function name params body => exact Agree.declareFunction span name params hkind
  case block body => exact h.block hkind
  case ifElse test consequent alternate => exact h.ifElse hkind.1.1 hkind.1.2 hkind.2
  case whileLoop test body => exact h.whileLoop hkind.1 hkind.2
  case doWhile body test => exact h.doWhile hkind.2 hkind.1
  case forLoop init test update body =>
    exact h.forLoop hkind.1.1.1 hkind.1.1.2 hkind.1.2 hkind.2
  case forIn binding object body => exact h.forIn binding hkind.1 hkind.2
  case forOf binding iterable body => exact h.forOf binding hkind.1 hkind.2
  case switch discriminant cases => exact h.switch hkind.1 hkind.2
  case tryCatch block handler finalizer => exact h.tryCatch hgo hkind.1.1 hkind.1.2 hkind.2
  case throw e => exact h.throwValue span hkind
  case ret e => exact h.ret hkind.1 hkind.2
  case breakLoop => exact .pure ⟨hkind, Store.sound_null⟩
  case continueLoop => exact .pure ⟨hkind, Store.sound_null⟩
  case whenGuard test body => exact h.whenGuard hkind.1 hkind.2
  case otherwise body => exact h.block hkind
  case observe targets handler => exact h.observe targets hkind
  case importNames specifiers source => exact Agree.importNames span specifiers source
  case exported st => exact h.exported hkind
  case empty => exact .pure (completion_done here)

theorem stmtRule (h : D.Alike ev ev') {st : Stmt} (hst : st.isScoped D.bodies here = true) :
    D.Agree s (Rule.stmt D.ctx ev st) (Rule.stmt D.ctx ev' st)
      (D.completion (st.kind.letsPass here)) := by
  obtain ⟨span, kind⟩ := st
  rw [Stmt.isScoped] at hst
  refine Agree.unlessInterrupted fun hgo => Agree.locating ?_ span
  refine (Agree.emitIf _ _).bind fun _ s₁ _ hflag => ?_
  exact h.stmtKind span (hflag.trans hgo) hst

theorem blockRule (h : D.Alike ev ev') {body : List Stmt}
    (hbody : Stmt.areScoped D.bodies here body = true) :
    D.Agree s (Rule.block ev body) (Rule.block ev' body) (D.completion here) :=
  Agree.inBlock completion.withEnv (h.stmts hbody)

/-! ## Evaluators -/

/-- Applying the rules once to evaluators that agree gives evaluators that agree. -/
theorem next (h : D.Alike ev ev') (hidles : (Evaluator.next D.ctx ev).Idles) :
    D.Alike (Evaluator.next D.ctx ev) (Evaluator.next D.ctx ev') where
  expr := h.exprRule
  stmt hst := (h.stmtRule hst).imp fun _ _ hc => hc.of_letsPass
  block := h.blockRule
  call := h.callRule
  rounds := congrArg (· + 1) h.rounds
  idles := hidles

end Alike

end Setting

end ReactiveScript
