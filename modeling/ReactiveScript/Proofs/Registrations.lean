import ReactiveScript.Proofs.ChangeRecords

/-!
# Notifications of a registration

A handler that watches several variables is registered once, and the registration is attached to the
binding that each of the names refers to. Nothing looks whether it is attached there already. So a
binding whose name is given several times holds the registration as often, and each change of this
binding is told to the handler as often: once if its name is given once.

Registrations are only ever added behind those that a binding holds. Therefore a registration keeps
its places in the list of a binding as long as the binding lives, and these places tell which of the
tasks of a change are due to it.
-/

namespace ReactiveScript

namespace Environment

variable {env env₁ : Environment} {names : List String} {handler : Value}

/-! ## What a registration leaves -/

/-- How often a registration for names is attached to the binding of a name in a scope. -/
def timesAttached (env : Environment) (names : List String) (i : Nat) (w : String) : Nat :=
  if env.position? w = some i then names.count w else 0

/-- A registration for names that refer to bindings is not refused. -/
theorem observeMany_of_bound (handler : Value) (h : ∀ w ∈ names, env.contains w = true) :
    ∃ env₁, env.observeMany names handler = .ok env₁ := by
  have hbound : (names.find? fun name => !env.contains name) = none := by
    rw [List.find?_eq_none]
    intro w hw
    rw [h w hw]
    exact Bool.false_ne_true
  unfold observeMany
  rw [hbound]
  exact ⟨_, rfl⟩

/-- All bindings stay, but for the registration that is attached to those with the names. -/
theorem find?_observeMany (hok : env.observeMany names handler = .ok env₁) (i : Nat) (w : String) :
    OrderedMap.find? (env₁.scope i).bindings w =
      (OrderedMap.find? (env.scope i).bindings w).map fun b => { b with
        registrations := b.registrations ++
          List.replicate (env.timesAttached names i w) ⟨names, handler⟩ } := by
  rw [observeMany_ok hok, find?_foldl_modifyBinding]
  congr 1
  funext b
  exact iterate_attach _ _ b

/-- As long as a watched binding lives, the registration keeps its places in it: they come after
those that the binding had before, and before those that it got later. -/
theorem Watching.registrations {env' : Environment} {home : String → Nat} {w : String} {b : Binding}
    (hreg : env.observeMany names handler = .ok env₁) (h : Watching names home env₁ env')
    (hw : w ∈ names) (hhome : env.position? w = some (home w))
    (hb : OrderedMap.find? (env.scope (home w)).bindings w = some b) :
    ∃ b' later, OrderedMap.find? (env'.scope (home w)).bindings w = some b' ∧
      b'.registrations =
        b.registrations ++ List.replicate (names.count w) ⟨names, handler⟩ ++ later := by
  have hattached := find?_observeMany hreg (home w) w
  rw [hb, timesAttached, if_pos hhome] at hattached
  obtain ⟨b', hb', hretains⟩ := h.retains ⟨hw, rfl⟩ hattached
  obtain ⟨later, hlater⟩ := hretains.registrations
  exact ⟨b', later, hb', hlater.symm⟩

end Environment

open Environment

/-! ## The tasks of a change -/

/-- Lists that correspond to two lists in a row are two lists in a row. -/
theorem exists_append_of_forall₂ {α β : Type} {R : α → β → Prop} {l₁ l₂ : List α} {l : List β}
    (h : List.Forall₂ R (l₁ ++ l₂) l) :
    ∃ m₁ m₂, l = m₁ ++ m₂ ∧ List.Forall₂ R l₁ m₁ ∧ List.Forall₂ R l₂ m₂ :=
  ⟨l.take l₁.length, l.drop l₁.length, (List.take_append_drop _ _).symm,
    (List.forall₂_take_append _ _ _ h.flip).flip, (List.forall₂_drop_append _ _ _ h.flip).flip⟩

/-- A change is told to a registration `n` times. Of the tasks that follow those for the handlers
of the variable alone, there is one for each registration that was attached `earlier`, then come `n`
tasks that call the handler with a record of the change, and then one for each that was attached
later. -/
def Change.TellsTimes (c : Change) (s' : State) (earlier : List Registration) (r : Registration)
    (n : Nat) : Prop :=
  ∃ later before told after,
    c.mutation.registrations = earlier ++ List.replicate n r ++ later ∧
    c.tasks = c.mutation.observers.map c.mutation.task ++ (before ++ told ++ after) ∧
    List.Forall₂ (fun r task => r.Announces c.mutation s'.env s'.store task) earlier before ∧
    told.length = n ∧ (∀ task ∈ told, r.Announces c.mutation s'.env s'.store task) ∧
    List.Forall₂ (fun r task => r.Announces c.mutation s'.env s'.store task) later after

/-- Each place of a registration in a binding makes one task of a change of this binding. -/
theorem Change.Happens.tellsTimes {c : Change} {s s' : State} {earlier later : List Registration}
    {r : Registration} {n : Nat} (h : c.Happens s s')
    (hplaces : c.mutation.registrations = earlier ++ List.replicate n r ++ later) :
    c.TellsTimes s' earlier r n := by
  obtain ⟨announcements, htasks, hannounced⟩ := h.announced
  rw [hplaces] at hannounced
  obtain ⟨first, after, rfl, hfirst, hafter⟩ := exists_append_of_forall₂ hannounced
  obtain ⟨before, told, rfl, hbefore, htold⟩ := exists_append_of_forall₂ hfirst
  refine ⟨later, before, told, after, hplaces, htasks, hbefore, ?_, ?_, hafter⟩
  · rw [← htold.length_eq, List.length_replicate]
  · intro task htask
    obtain ⟨k, hk, rfl⟩ := List.getElem_of_mem htask
    have hlength := htold.length_eq
    have hr := htold.get (by omega) hk
    rw [List.get_eq_getElem, List.get_eq_getElem, List.getElem_replicate] at hr
    exact hr

/-! ## Changes after a registration -/

section Watching

variable {env env₁ : Environment} {names : List String} {handler : Value} {home : String → Nat}

/-- A change, which is told to a registration once for each time that the name of the variable was
given if the variable is one of the watched bindings. -/
structure Change.Tallied (env : Environment) (names : List String) (handler : Value)
    (home : String → Nat) (c : Change) (s s' : State) : Prop where
  happens : c.Happens s s'
  told {w : String} : w ∈ names → c.mutation.name = w → s.env.position? w = some (home w) →
    ∃ b, OrderedMap.find? (env.scope (home w)).bindings w = some b ∧
      c.TellsTimes s' b.registrations ⟨names, handler⟩ (names.count w)

/-- The watched bindings live on, and what was queued are the tasks of the changes on the way, in
their order, each told as often as it should. -/
structure Tallies (env env₁ : Environment) (names : List String) (handler : Value)
    (home : String → Nat) (r : Reach) (s s' : State) : Prop where
  watching : Watching names home env₁ s'.env
  changes : ∃ changes, Run r s changes s' ∧
    s'.queue.entries = s.queue.entries ++
      TaskQueue.numbered s.queue.nextHandle (changes.flatMap Change.tasks) ∧
    ∀ c ∈ changes, ∃ s₁ s₂, c.Tallied env names handler home s₁ s₂

theorem Change.Happens.tallied {c : Change} {s s' : State}
    (hhome : ∀ w ∈ names, env.position? w = some (home w))
    (hreg : env.observeMany names handler = .ok env₁) (hwatch : Watching names home env₁ s.env)
    (h : c.Happens s s') : c.Tallied env names handler home s s' where
  happens := h
  told := by
    rintro w hw rfl hi
    obtain ⟨i, b', hassigns, -, -, hregistrations⟩ := h.assigns
    obtain rfl : home c.mutation.name = i := Option.some.inj (hi.symm.trans hassigns.position)
    obtain ⟨b, hb⟩ := find?_of_position (hhome _ hw)
    obtain ⟨b'', later, hb'', hplaces⟩ := hwatch.registrations hreg hw (hhome _ hw) hb
    obtain rfl : b' = b'' := Option.some.inj (hassigns.found.symm.trans hb'')
    exact ⟨b, hb, h.tellsTimes (hregistrations.trans hplaces)⟩

/-- Whatever is evaluated from outside of the scope that it sets up. -/
theorem Eval.Executes.tallies {α : Type} {m : Eval α} {r : Reach} {j : Journal} {s : State}
    (hm : m.Executes r j) (hr : r ≠ .owner) (hdepth : 0 < s.env.depth)
    (hhome : ∀ w ∈ names, env.position? w = some (home w))
    (hreg : env.observeMany names handler = .ok env₁) (hwatch : Watching names home env₁ s.env) :
    (m s).Leaves (Tallies env env₁ names handler home r s) := by
  have hlive := hwatch.live hhome hreg
  refine (hm.watched hr hdepth hwatch hlive).imp fun s' hs' => ?_
  obtain ⟨hafter, changes, hrun, -, hqueue, hchanges⟩ := hs'
  refine ⟨hafter, changes, hrun, hqueue, fun c hc => ?_⟩
  obtain ⟨s₁, s₂, hwatch₁, hhappens⟩ := hchanges c hc
  exact ⟨s₁, s₂, hhappens.tallied hhome hreg hwatch₁⟩

/-- An assignment to a watched variable has no effect, or it is a change that is told as often as it
should be. -/
theorem Rule.assignVariable_tallied {s s' : State} {w : String} {v : Value}
    (hhome : ∀ w ∈ names, env.position? w = some (home w))
    (hreg : env.observeMany names handler = .ok env₁) (hwatch : Watching names home env₁ s.env)
    (h : Rule.assignVariable w v s = .ok () s') :
    s' = s ∨ ∃ c : Change, c.mutation.name = w ∧ c.mutation.new = v ∧
      c.Tallied env names handler home s s' := by
  have hassigned := Rule.assignment w v s
  rw [h] at hassigned
  cases hassigned with
  | same => exact Or.inl rfl
  | changed hname hnew hc => exact Or.inr ⟨_, hname, hnew, hc.tallied hhome hreg hwatch⟩

/-- A registration is told of a change once for each time that it names the variable. If all names
refer to bindings, the registration succeeds and is attached to each of these bindings as often as
its name is given, behind what is attached there already, and nothing else changes. Whatever happens
then, as long as the watched bindings live: an assignment to one of them has no effect, or it is a
change with exactly as many tasks for this registration as it names the variable, besides one task
for each other place of a registration and one for each handler of the variable alone. And whatever
statements are executed or handlers are called, what they queue are the tasks of such changes, and
the bindings live on. -/
theorem registration_tells_once_per_name (hdepth : 0 < env.depth)
    (hhome : ∀ w ∈ names, env.position? w = some (home w)) (handler : Value) :
    ∃ env₁, env.observeMany names handler = .ok env₁ ∧ env.SameShape env₁ ∧
      (∀ i w, OrderedMap.find? (env₁.scope i).bindings w =
        (OrderedMap.find? (env.scope i).bindings w).map fun b => { b with
          registrations := b.registrations ++
            List.replicate (env.timesAttached names i w) ⟨names, handler⟩ }) ∧
      ∀ s : State, Watching names home env₁ s.env →
        (∀ w ∈ names, ∀ v s', Rule.assignVariable w v s = .ok () s' →
          s' = s ∨ ∃ c : Change, c.mutation.name = w ∧ c.mutation.new = v ∧
            c.Tallied env names handler home s s') ∧
        (∀ (ctx : Context) (fuel : Nat) (body : List Stmt),
          (Interpreter.execStmts ctx fuel body s).Leaves
            (Tallies env env₁ names handler home .statement s)) ∧
        (∀ (ctx : Context) (fuel : Nat) (f : Value) (args : List Value) (receiver : Option Value),
          (Interpreter.callValue ctx fuel f args receiver s).Leaves
            (Tallies env env₁ names handler home .call s)) := by
  have hbound : ∀ w ∈ names, env.contains w = true := fun w hw => by
    rw [contains, hhome w hw]
    rfl
  obtain ⟨env₁, hreg⟩ := observeMany_of_bound handler hbound
  have hshape : env.SameShape env₁ := by
    rw [observeMany_ok hreg]
    exact SameShape.law.foldl_modifyBinding (fun b => b.evolves_registration _) names hdepth
  have hdepth₁ : 0 < env₁.depth := by
    rw [hshape.depth]
    exact hdepth
  refine ⟨env₁, hreg, hshape, find?_observeMany hreg, fun s hwatch => ⟨?_, ?_, ?_⟩⟩
  · exact fun w _ v s' h => Rule.assignVariable_tallied hhome hreg hwatch h
  · intro ctx fuel body
    have hbody := (Journals.kept_level ctx fuel).stmts body
    exact hbody.tallies (by decide) (hwatch.depth_pos hdepth₁) hhome hreg hwatch
  · intro ctx fuel f args receiver
    have hcall := (Journals.kept_level ctx fuel).call f args receiver
    exact hcall.tallies (by decide) (hwatch.depth_pos hdepth₁) hhome hreg hwatch

end Watching

/-- A handler for a list that names one of two variables twice. -/
def twiceNamed : Environment :=
  (twoFlags.observeMany ["b", "a", "b"] (.function 0)).toOption.getD {}

/-- Assigns to both variables. -/
def setBoth : List Stmt :=
  [assignTo "a" (Expr.of (.literal (.bool true))), assignTo "b" (Expr.of (.literal (.bool true)))]

/-- The change of the variable that is named once makes one task, and that of the other one two. -/
theorem registration_tells_once_per_name_setBoth :
    0 < twoFlags.depth ∧ (∀ w ∈ ["b", "a", "b"], twoFlags.position? w = some 0) ∧
      twoFlags.observeMany ["b", "a", "b"] (.function 0) = .ok twiceNamed ∧
      (Interpreter.execStmts plainContext 5 setBoth { env := twiceNamed }).state?.map
        (fun s => s.queue.entries.map fun entry => entry.2.name) = some ["a", "b", "b"] ∧
      (Interpreter.execStmts plainContext 5 setBoth { env := twiceNamed }).Leaves
        (Tallies twoFlags twiceNamed ["b", "a", "b"] (.function 0) (fun _ => 0) .statement
          { env := twiceNamed }) := by
  have hdepth : 0 < twoFlags.depth := by decide +kernel
  have hhome : ∀ w ∈ ["b", "a", "b"], twoFlags.position? w = some 0 := by decide +kernel
  have hreg : twoFlags.observeMany ["b", "a", "b"] (.function 0) = .ok twiceNamed := by
    decide +kernel
  obtain ⟨env₁, hreg₁, -, -, hlater⟩ :=
    registration_tells_once_per_name hdepth hhome (.function 0)
  obtain rfl : twiceNamed = env₁ := Except.ok.inj (hreg.symm.trans hreg₁)
  obtain ⟨-, hstmts, -⟩ := hlater { env := twiceNamed } .refl
  exact ⟨hdepth, hhome, hreg, by decide +kernel, hstmts plainContext 5 setBoth⟩

/-- A program that registers one handler, for a list that names a variable twice, and then assigns
to the variable. -/
def repeatingProgram : List Stmt :=
  [Stmt.of (.declare .blockScoped [("a", some (Expr.of (.literal (.string "old"))))]),
    Stmt.of (.observe ["a", "a"] (Expr.of (.function none ["info"] []))),
    assignTo "a" (Expr.of (.literal (.string "new")))]

/-- The one change is told twice to the one handler. -/
theorem repeated_name_is_told_twice :
    (Interpreter.execute plainContext 6 repeatingProgram {}).state?.map (fun s =>
      s.queue.entries.map fun entry => (entry.2.name, entry.2.handler)) =
      some [("a", .function 0), ("a", .function 0)] := by
  decide +kernel

end ReactiveScript
