import ReactiveScript.Proofs.Journal.Program
import ReactiveScript.Proofs.Lifetime
import ReactiveScript.Proofs.ReadBack

/-!
# Records of changes

A handler of several variables is called with a record of the change: the variable, its old and its
new value, and the values of the watched variables. A handler is attached to the bindings that its
names refer to when it is registered. The record is made where the assignment stands, and looks the
names up again there. So it tells of a watched binding as long as the name is not shadowed between
the two places.
-/

namespace ReactiveScript

namespace Environment

/-! ## Attaching a handler -/

theorem position?_modifyBinding (env : Environment) (name : String) (f : Binding → Binding)
    (other : String) : (env.modifyBinding name f).position? other = env.position? other := by
  unfold modifyBinding
  split
  · rfl
  · rename_i i _
    refine position?_congr (SameShape.modifyScope env i _) other fun j => ?_
    rcases scope_modifyScope env i j _ with hscope | ⟨rfl, hscope⟩
    · rw [hscope]
    · rw [hscope, OrderedMap.has_adjust]

/-- Changing the binding that a name refers to leaves all other bindings. -/
theorem find?_modifyBinding (env : Environment) (name : String) (f : Binding → Binding) (i : Nat)
    (w : String) :
    OrderedMap.find? ((env.modifyBinding name f).scope i).bindings w =
      if w = name ∧ env.position? name = some i
      then (OrderedMap.find? (env.scope i).bindings w).map f
      else OrderedMap.find? (env.scope i).bindings w := by
  unfold modifyBinding
  cases hp : env.position? name with
  | none => simp
  | some j =>
    dsimp only
    by_cases hij : i = j
    · subst hij
      obtain ⟨b, hb⟩ := find?_of_position hp
      rw [scope_modifyScope_self (lt_depth_of_find? hb)]
      by_cases hw : w = name
      · subst hw
        rw [if_pos ⟨rfl, rfl⟩, OrderedMap.find?_adjust_self]
      · rw [if_neg (fun h => hw h.1), OrderedMap.find?_adjust_ne hw]
    · have hother : ¬ (w = name ∧ some j = some i) := fun h => hij (Option.some.inj h.2).symm
      rw [if_neg hother, scope_modifyScope_ne hij]

/-- Changing the bindings of names one after the other changes each binding as often as its name is
given, by induction on the names that are left. -/
theorem find?_foldl_modifyBinding (f : Binding → Binding) (names : List String)
    (env : Environment) (i : Nat) (w : String) :
    OrderedMap.find?
        ((names.foldl (fun env name => env.modifyBinding name f) env).scope i).bindings w =
      (OrderedMap.find? (env.scope i).bindings w).map
        f^[if env.position? w = some i then names.count w else 0] := by
  induction names generalizing env with
  | nil => simp
  | cons name names ih =>
    rw [List.foldl_cons, ih, position?_modifyBinding, find?_modifyBinding, List.count_cons]
    by_cases hi : env.position? w = some i
    · rw [if_pos hi, if_pos hi]
      by_cases hw : w = name
      · subst hw
        rw [if_pos ⟨rfl, hi⟩, Option.map_map, beq_self_eq_true, if_pos rfl, Function.iterate_succ]
      · have hne : (name == w) = false := beq_false_of_ne (Ne.symm hw)
        rw [if_neg (fun h => hw h.1), hne]
        rfl
    · have hother : ¬ (w = name ∧ env.position? name = some i) := by
        rintro ⟨rfl, h⟩
        exact hi h
      rw [if_neg hi, if_neg hi, if_neg hother]

theorem iterate_attach (r : Registration) (n : Nat) (b : Binding) :
    (fun b : Binding => { b with registrations := b.registrations ++ [r] })^[n] b =
      { b with registrations := b.registrations ++ List.replicate n r } := by
  induction n generalizing b with
  | zero => simp
  | succ n ih =>
    rw [Function.iterate_succ_apply, ih, List.replicate_succ, List.append_assoc]
    rfl

/-- A handler of several variables is attached to the binding that each of the names refers to. -/
theorem attached_foldl {r : Registration} {names : List String} {env : Environment} {w : String}
    {i : Nat} (hw : w ∈ names) (hi : env.position? w = some i) :
    ∃ b, OrderedMap.find? ((names.foldl (fun env name => env.modifyBinding name fun b =>
      { b with registrations := b.registrations ++ [r] }) env).scope i).bindings w = some b ∧
      r ∈ b.registrations := by
  obtain ⟨b, hb⟩ := find?_of_position hi
  have hcount : names.count w ≠ 0 := (List.count_pos_iff.2 hw).ne'
  rw [find?_foldl_modifyBinding, if_pos hi, hb, Option.map_some, iterate_attach]
  exact ⟨_, rfl, List.mem_append_right _ (List.mem_replicate.2 ⟨hcount, rfl⟩)⟩

/-- The steps after a registration, as long as the watched bindings live. `home` says in which scope
the binding of a name was found when the handler was registered. -/
abbrev Watching (names : List String) (home : String → Nat) : Environment → Environment → Prop :=
  SparingSteps fun i name => name ∈ names ∧ home name = i

variable {env env₁ env' : Environment} {names : List String} {handler : Value}
  {home : String → Nat} {w : String}

/-- As long as a watched binding lives, the handler stays attached to it. -/
theorem Watching.attached (hhome : ∀ w ∈ names, env.position? w = some (home w))
    (hreg : env.observeMany names handler = .ok env₁) (h : Watching names home env₁ env')
    (hw : w ∈ names) :
    ∃ b, OrderedMap.find? (env'.scope (home w)).bindings w = some b ∧
      ⟨names, handler⟩ ∈ b.registrations := by
  obtain ⟨b, hb, hmem⟩ := attached_foldl hw (hhome w hw)
  rw [← observeMany_ok hreg] at hb
  obtain ⟨b', hb', hretains⟩ := h.retains ⟨hw, rfl⟩ hb
  exact ⟨b', hb', hretains.registrations.subset hmem⟩

/-- The scopes of watched bindings are not left. -/
theorem Watching.live (hhome : ∀ w ∈ names, env.position? w = some (home w))
    (hreg : env.observeMany names handler = .ok env₁) (h : Watching names home env₁ env') :
    ∀ w ∈ names, home w < env'.depth := by
  intro w hw
  obtain ⟨b, hb, -⟩ := Watching.attached hhome hreg h hw
  exact lt_depth_of_find? hb

end Environment

open Environment

/-- A change sets the binding that its name refers to. -/
theorem Change.Happens.assigns {c : Change} {s s' : State} (h : c.Happens s s') :
    ∃ i b, s.env.Assigns c.mutation.name c.mutation.new i b s'.env ∧
      b.value.stored c.mutation.new = c.mutation.new ∧ c.mutation.old = b.value ∧
      c.mutation.registrations = b.registrations := by
  obtain ⟨i, b, hi, hb, hmode, hchanged, hold, -, hregistrations, henv⟩ := h.assigned
  refine ⟨i, b, ?_, Value.stored_of_not_sameValue hchanged, hold, hregistrations⟩
  rw [henv]
  exact .changed hi hb hmode hchanged

/-- The value that is told of a name is that of the binding it refers to. -/
theorem Rule.find?_watchedValues {env : Environment} {names : List String} {w : String}
    (hw : w ∈ names) :
    OrderedMap.find? (watchedValues env names) w = some ((env.get? w).getD .null) :=
  OrderedMap.find?_ofEntries_map (fun name => (env.get? name).getD .null) hw

/-- The task that calls a handler with the record of a change. The record names the variable and
gives its old and new value, and each watched name is told with the value that it has where the
change was made. -/
structure Notification.Reports (task : Notification) (handler : Value) (names : List String)
    (m : Mutation) (s' : State) (values : OrderedMap Value) : Prop where
  handler : task.handler = handler
  record : ∃ info told, task.args = [.record info] ∧ s'.store.record told = values ∧
    s'.store.record info =
      [("name", .string m.name), ("values", .record told), ("old", m.old), ("new", m.new)]
  values {w : String} : w ∈ names → OrderedMap.find? values w = some ((s'.env.get? w).getD .null)

/-- Whatever handler is attached to the binding that changes, one of the tasks is its record. -/
theorem Change.Happens.reports {c : Change} {s s' : State} {names : List String} {handler : Value}
    (h : c.Happens s s') (hmem : ⟨names, handler⟩ ∈ c.mutation.registrations) :
    ∃ task ∈ c.tasks, ∃ values, task.Reports handler names c.mutation s' values := by
  obtain ⟨announcements, htasks, hannounced⟩ := h.announced
  obtain ⟨k, hk, hget⟩ := List.getElem_of_mem hmem
  have hlength := hannounced.length_eq
  have hr := hannounced.get hk (by omega)
  rw [List.get_eq_getElem, List.get_eq_getElem, hget] at hr
  refine ⟨announcements[k], ?_, Rule.watchedValues s'.env names, hr.handler, ?_,
    Rule.find?_watchedValues⟩
  · rw [htasks]
    exact List.mem_append_right _ (List.getElem_mem _)
  · obtain ⟨info, hargs, -, told, -, hwatched, hrecord⟩ := hr.args
    exact ⟨info, told, hargs, hwatched, hrecord⟩

/-- The value that is told of a name is that of the watched binding if the name refers to it where
the change is made. -/
theorem Notification.Reports.value_of_position {task : Notification} {handler : Value}
    {names : List String} {m : Mutation} {s' : State} {values : OrderedMap Value} {w : String}
    {i : Nat} (h : task.Reports handler names m s' values) (hw : w ∈ names)
    (hi : s'.env.position? w = some i) :
    ∃ b, OrderedMap.find? (s'.env.scope i).bindings w = some b ∧
      OrderedMap.find? values w = some b.value := by
  obtain ⟨b, hb⟩ := find?_of_position hi
  have hget : s'.env.get? w = some b.value := by
    rw [get?_of_position hi, hb]
    rfl
  refine ⟨b, hb, ?_⟩
  rw [h.values hw, hget]
  rfl

/-- A run from outside of the scope that it sets up ends the life of no watched binding, and so its
changes happen while the bindings live. -/
theorem Run.watching {env₁ : Environment} {names : List String} {home : String → Nat} {r : Reach}
    {t t' : State} {changes : List Change} (h : Run r t changes t') (hr : r ≠ .owner)
    (hdepth : 0 < t.env.depth) (hwatch : Watching names home env₁ t.env)
    (hlive : ∀ w ∈ names, home w < t.env.depth) :
    Watching names home env₁ t'.env ∧
      ∀ c ∈ changes, ∃ s s', Watching names home env₁ s.env ∧ c.Happens s s' := by
  have hspared := h.spared hdepth
  have hreach : r.spared t.env = t.env.depth := by
    cases r with
    | owner => exact absurd rfl hr
    | call | expression | statement => rfl
  have hkept : ∀ i name, name ∈ names ∧ home name = i → i < r.spared t.env := by
    rintro i name ⟨hmem, rfl⟩
    rw [hreach]
    exact hlive name hmem
  refine ⟨hwatch.trans (hspared.steps.mono hkept), fun c hc => ?_⟩
  obtain ⟨s, s', hsteps, hhappens⟩ := hspared.changes hc
  exact ⟨s, s', hwatch.trans (hsteps.mono hkept), hhappens⟩

/-- The watched bindings live on. What was queued are the tasks of the changes that the executed
assignments made, and each of these changes happened while the bindings lived. -/
structure Watched (names : List String) (home : String → Nat) (env₁ : Environment) (r : Reach)
    (assigned : List Assigned) (s s' : State) : Prop where
  watching : Watching names home env₁ s'.env
  changes : ∃ changes, Run r s changes s' ∧ ChangesOf assigned changes ∧
    s'.queue.entries = s.queue.entries ++
      TaskQueue.numbered s.queue.nextHandle (changes.flatMap Change.tasks) ∧
    ∀ c ∈ changes, ∃ s₁ s₂, Watching names home env₁ s₁.env ∧ c.Happens s₁ s₂

/-- Whatever is evaluated from outside of the scope that it sets up. -/
theorem Eval.Executes.watched {α : Type} {m : Eval α} {r : Reach} {j : Journal}
    {env₁ : Environment} {names : List String} {home : String → Nat} {s : State}
    (hm : m.Executes r j) (hr : r ≠ .owner) (hdepth : 0 < s.env.depth)
    (hwatch : Watching names home env₁ s.env) (hlive : ∀ w ∈ names, home w < s.env.depth) :
    (m s).Leaves (Watched names home env₁ r (j s) s) := by
  refine (hm.dispatched s).imp fun s' hs' => ?_
  obtain ⟨changes, hrun, hmade, hqueue⟩ := hs'
  obtain ⟨hafter, hchanges⟩ := hrun.watching hr hdepth hwatch hlive
  exact ⟨hafter, changes, hrun, hmade, hqueue, hchanges⟩

/-- Records of changes tell what the watched names refer to where the assignment stands. A handler
is registered for several names, each of which refers to a binding then. Later, after whatever steps
that leave these bindings alive, an assignment changes one of them. Then one of the tasks that are
queued calls the handler with a record that names the variable, gives its old and its new value, and
gives for each watched name the value that it has in the scope of the assignment. That is the value
of the watched binding whenever the name still refers to it there. No run ends the life of the
bindings, and all its changes happen while they live. So it is with whatever expression or statement
is evaluated and whatever function is called in between, and however that ends: the changes are
those that the executed assignments make. -/
theorem change_records_follow_names {env env₁ : Environment} {names : List String}
    {handler : Value} {home : String → Nat}
    (hhome : ∀ w ∈ names, env.position? w = some (home w))
    (hreg : env.observeMany names handler = .ok env₁) :
    (∀ (s s' : State) (c : Change), Watching names home env₁ s.env → c.Happens s s' →
      c.mutation.name ∈ names →
      s.env.position? c.mutation.name = some (home c.mutation.name) →
      ∃ task ∈ c.tasks, ∃ values, task.Reports handler names c.mutation s' values ∧
        (∃ b, OrderedMap.find? (s.env.scope (home c.mutation.name)).bindings c.mutation.name =
            some b ∧ c.mutation.old = b.value ∧
          OrderedMap.find? (s'.env.scope (home c.mutation.name)).bindings c.mutation.name =
            some { b with value := c.mutation.new }) ∧
        ∀ w ∈ names, s'.env.position? w = some (home w) →
          ∃ b, OrderedMap.find? (s'.env.scope (home w)).bindings w = some b ∧
            OrderedMap.find? values w = some b.value) ∧
    (∀ (r : Reach) (t t' : State) (changes : List Change), r ≠ .owner → 0 < t.env.depth →
      Watching names home env₁ t.env → Run r t changes t' →
      Watching names home env₁ t'.env ∧
        ∀ c ∈ changes, ∃ s s', Watching names home env₁ s.env ∧ c.Happens s s') ∧
    ∀ (ctx : Context) (fuel : Nat) (s : State), 0 < s.env.depth →
      Watching names home env₁ s.env →
      (∀ e, (Interpreter.evalExpr ctx fuel e s).Leaves
        (Watched names home env₁ .expression ((Journals.level ctx fuel).expr e s) s)) ∧
      (∀ st, (Interpreter.execStmt ctx fuel st s).Leaves
        (Watched names home env₁ .statement ((Journals.level ctx fuel).stmt st s) s)) ∧
      (∀ body, (Interpreter.execStmts ctx fuel body s).Leaves (Watched names home env₁ .statement
        (Journal.stmts (Evaluator.level ctx fuel) (Journals.level ctx fuel) body s) s)) ∧
      ∀ f args receiver, (Interpreter.callValue ctx fuel f args receiver s).Leaves
        (Watched names home env₁ .call ((Journals.level ctx fuel).call f args receiver s) s) := by
  refine ⟨fun s s' c hwatch hc hname hposition => ?_,
    fun r t t' changes hr hdepth hwatch h => h.watching hr hdepth hwatch (hwatch.live hhome hreg),
    fun ctx fuel s hdepth hwatch => ?_⟩
  · obtain ⟨i, b, hassigns, hstored, hold, hregistrations⟩ := hc.assigns
    obtain rfl : home c.mutation.name = i :=
      Option.some.inj (hposition.symm.trans hassigns.position)
    obtain ⟨b', hb', hattached⟩ := Watching.attached hhome hreg hwatch hname
    obtain rfl : b = b' := Option.some.inj (hassigns.found.symm.trans hb')
    rw [← hregistrations] at hattached
    obtain ⟨task, htask, values, hreports⟩ := hc.reports hattached
    refine ⟨task, htask, values, hreports, ⟨b, hb', hold, ?_⟩, fun w hw hi => ?_⟩
    · rw [hassigns.written, hstored]
    · exact hreports.value_of_position hw hi
  · have hkept := Journals.kept_level ctx fuel
    have hlive := hwatch.live hhome hreg
    exact ⟨fun e => (hkept.expr e).watched (by decide) hdepth hwatch hlive,
      fun st => (hkept.stmt st).watched (by decide) hdepth hwatch hlive,
      fun body => (hkept.stmts body).watched (by decide) hdepth hwatch hlive,
      fun f args receiver =>
        (hkept.call f args receiver).watched (by decide) hdepth hwatch hlive⟩

/-- A program with two variables. -/
def twoFlags : Environment :=
  (({} : Environment).define "a" (.bool false) .blockMutable).define "b" .null .blockMutable

/-- The same with a handler that watches both. -/
def twoWatched : Environment :=
  (twoFlags.observeMany ["a", "b"] (.function 0)).toOption.getD {}

/-- A block of this program. -/
def watchedBlock : State := { env := twoWatched.pushBlock }

/-- The block after `a = true`. -/
def flagSet : State := (Rule.assignVariable "a" (.bool true) watchedBlock).state?.getD {}

/-- A program that executes this block. -/
def flagProgram : List Stmt :=
  [Stmt.of (.block [assignTo "a" (Expr.of (.literal (.bool true)))])]

/-- In a block an assignment changes one of two watched variables, and the block is left. -/
theorem change_records_follow_names_watchedBlock :
    (∀ w ∈ ["a", "b"], twoFlags.position? w = some 0) ∧
      twoFlags.observeMany ["a", "b"] (.function 0) = .ok twoWatched ∧
      (∃ c : Change, c.Happens watchedBlock flagSet ∧ ∃ task ∈ c.tasks, ∃ values,
        task.Reports (.function 0) ["a", "b"] c.mutation flagSet values ∧
          OrderedMap.find? values "a" = some (.bool true) ∧
          OrderedMap.find? values "b" = some .null) ∧
      Watching ["a", "b"] (fun _ => 0) twoWatched flagSet.env.pop ∧
      (Interpreter.execStmts plainContext 5 flagProgram { env := twoWatched }).Leaves
        (Watched ["a", "b"] (fun _ => 0) twoWatched .statement
          (Journal.stmts (Evaluator.level plainContext 5) (Journals.level plainContext 5)
            flagProgram { env := twoWatched }) { env := twoWatched }) := by
  have hhome : ∀ w ∈ ["a", "b"], twoFlags.position? w = some 0 := by decide +kernel
  have hreg : twoFlags.observeMany ["a", "b"] (.function 0) = .ok twoWatched := by decide +kernel
  have hposition : watchedBlock.env.position? "a" = some 0 := by decide +kernel
  obtain ⟨hreports, hruns, hevaluations⟩ := change_records_follow_names hhome hreg
  have hassigned : Assignment "a" (.bool true) watchedBlock (.ok () flagSet) :=
    Rule.assignment "a" (.bool true) watchedBlock
  cases hassigned with
  | @changed c s' hname hnew hc =>
    have hwatch : Watching ["a", "b"] (fun _ => 0) twoWatched watchedBlock.env :=
      .single ⟨.nothing, .block, fun _ _ _ => trivial⟩
    have hmem : c.mutation.name ∈ ["a", "b"] := by
      rw [hname]
      decide
    obtain ⟨task, htask, values, hreport, -, hvalues⟩ := hreports watchedBlock flagSet c hwatch hc
      hmem (by rw [hname]; exact hposition)
    have hrun : Run .statement { env := twoWatched } [c] { flagSet with env := flagSet.env.pop } :=
      .block (.ofStatement (.ofExpression (.change hc)))
    have hleft := (hruns .statement _ _ _ (by decide) (by decide +kernel) .refl hrun).1
    have hprogram := (hevaluations plainContext 5 { env := twoWatched } (by decide +kernel)
      .refl).2.2.1 flagProgram
    refine ⟨hhome, hreg, ⟨c, hc, task, htask, values, hreport, ?_, ?_⟩, hleft, hprogram⟩
    · obtain ⟨b, hb, hvalue⟩ := hvalues "a" (by decide) (by decide +kernel)
      have hset : (OrderedMap.find? (flagSet.env.scope 0).bindings "a").map (·.value) =
        some (.bool true) := by decide +kernel
      rw [hb] at hset
      rw [hvalue]
      exact hset
    · obtain ⟨b, hb, hvalue⟩ := hvalues "b" (by decide) (by decide +kernel)
      have hset : (OrderedMap.find? (flagSet.env.scope 0).bindings "b").map (·.value) =
        some .null := by decide +kernel
      rw [hb] at hset
      rw [hvalue]
      exact hset

/-- Both variables are watched, and a block shadows one of them before it assigns to the other. -/
def shadowingProgram : List Stmt :=
  [Stmt.of (.declare .blockScoped [("a", some (Expr.of (.literal (.string "old"))))]),
    Stmt.of (.declare .blockScoped [("b", some (Expr.of (.literal (.string "watched"))))]),
    Stmt.of (.observe ["a", "b"] (Expr.of (.function none ["info"] []))),
    Stmt.of (.block [
      Stmt.of (.declare .blockScoped [("b", some (Expr.of (.literal (.string "shadowing"))))]),
      assignTo "a" (Expr.of (.literal (.string "new")))])]

/-- The record of that assignment tells the value of the shadowing variable, although the watched
one lives and has another value. -/
theorem change_record_tells_shadowing_variable :
    (Interpreter.execute plainContext 6 shadowingProgram {}).state?.map (fun s =>
      ((s.env.get? "b", s.queue.entries.map fun entry => entry.2.args),
        (s.store.record 1, s.store.record 0))) =
      some ((some (.string "watched"), [[.record 1]]),
        ([("name", .string "a"), ("values", .record 0), ("old", .string "old"),
          ("new", .string "new")],
        [("a", .string "new"), ("b", .string "shadowing")])) := by
  decide +kernel

end ReactiveScript
