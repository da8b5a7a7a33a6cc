import ReactiveScript.Proofs.CallDepth
import ReactiveScript.Proofs.MapKeys
import ReactiveScript.Proofs.ReadBack
import ReactiveScript.Proofs.WellFormed

/-!
# Names in a call

When the body of a call starts, its names are found in three scopes: the one of the receiver and the
parameters, the copy of the closure, and the global scope. What a name refers to is decided in this
order: the last parameter of that name, the receiver, the snapshot of the closure, the function
itself, and a global variable. The other scopes of the caller are out of sight.
-/

namespace ReactiveScript

namespace Environment

variable {env env' : Environment} {f : Function} {self v : Value} {mode : Mode}
  {name other : String} {i : Nat}

/-! ## Fresh bindings -/

theorem find?_define_self (henv : 0 < env.depth) (name : String) (v : Value) (mode : Mode) :
    OrderedMap.find? ((env.define name v mode).scope env.current).bindings name =
      some { mode := mode, value := v } := by
  rw [define, scope_modifyScope_self (current_lt henv)]
  exact OrderedMap.find?_put_self _ name _

theorem find?_define_ne (henv : 0 < env.depth) (hother : other ≠ name) :
    OrderedMap.find? ((env.define name v mode).scope env.current).bindings other =
      OrderedMap.find? (env.scope env.current).bindings other := by
  rw [define, scope_modifyScope_self (current_lt henv)]
  exact OrderedMap.find?_put_ne hother

theorem SameShape.define (env : Environment) (name : String) (v : Value) (mode : Mode) :
    env.SameShape (env.define name v mode) :=
  SameShape.modifyScope env env.current fun bindings =>
    OrderedMap.put bindings name { mode := mode, value := v }

theorem WellFormed.define (h : env.WellFormed) (name : String) (v : Value) (mode : Mode) :
    (env.define name v mode).WellFormed :=
  h.modifyScope env.current (f := fun bindings =>
    OrderedMap.put bindings name { mode := mode, value := v }) fun hdistinct =>
      OrderedMap.nodup_keys_put hdistinct name _

/-! ## The copy of the closure -/

theorem find?_captured (f : Function) (name : String) :
    OrderedMap.find? (f.closure.map fun entry =>
        (entry.1, ({ mode := entry.2.mode, value := entry.2.value } : Binding))) name =
      (OrderedMap.find? f.closure name).map fun c => { mode := c.mode, value := c.value } :=
  OrderedMap.find?_map (fun c : Captured => ({ mode := c.mode, value := c.value } : Binding))
    f.closure name

/-- What was captured hides the function's own name. -/
theorem find?_closureBindings_captured {c : Captured}
    (hc : OrderedMap.find? f.closure name = some c) :
    OrderedMap.find? (closureBindings f self) name =
      some { mode := c.mode, value := c.value } := by
  have hcaptured := find?_captured f name
  rw [hc] at hcaptured
  unfold closureBindings
  cases f.name with
  | none => exact hcaptured
  | some own =>
    dsimp only
    split
    · exact hcaptured
    · rename_i hhas
      by_cases hown : name = own
      · rw [← hown, OrderedMap.has, hcaptured] at hhas
        exact absurd rfl hhas
      · rw [OrderedMap.find?_put_ne hown]
        exact hcaptured

theorem find?_closureBindings_own (hc : OrderedMap.find? f.closure name = none)
    (hname : f.name = some name) :
    OrderedMap.find? (closureBindings f self) name =
      some { mode := .function, value := self } := by
  have hcaptured := find?_captured f name
  rw [hc] at hcaptured
  unfold closureBindings
  rw [hname]
  dsimp only
  rw [OrderedMap.has, hcaptured]
  exact OrderedMap.find?_put_self _ name _

theorem find?_closureBindings_other (hc : OrderedMap.find? f.closure name = none)
    (hname : f.name ≠ some name) :
    OrderedMap.find? (closureBindings f self) name = none := by
  have hcaptured := find?_captured f name
  rw [hc] at hcaptured
  unfold closureBindings
  cases hown : f.name with
  | none => exact hcaptured
  | some own =>
    have hne : name ≠ own := by
      rintro rfl
      exact hname hown
    dsimp only
    split
    · exact hcaptured
    · rw [OrderedMap.find?_put_ne hne]
      exact hcaptured

end Environment

/-! ## Parameters -/

namespace Rule

open Environment

variable {env env' : Environment} {params : List String} {args : List Value}
  {receiver : Option Value} {name : String} {i : Nat}

theorem bindParams_cons (env : Environment) (param : String) (params : List String)
    (args : List Value) :
    bindParams env (param :: params) args =
      bindParams (env.define param (args.head?.getD .null) .mutable) params args.tail := by
  cases args <;> rfl

theorem sameShape_bindParams (env : Environment) (params : List String) (args : List Value) :
    env.SameShape (bindParams env params args) := by
  induction params generalizing env args with
  | nil => exact SameShape.refl env
  | cons param params ih =>
    rw [bindParams_cons]
    exact (SameShape.define env param _ .mutable).trans (ih _ _)

/-- Parameters are bound in the innermost scope. -/
theorem scope_bindParams_ne (hi : i ≠ env.current) :
    (bindParams env params args).scope i = env.scope i := by
  induction params generalizing env args with
  | nil => rfl
  | cons param params ih =>
    have hshape := SameShape.define env param (args.head?.getD .null) .mutable
    rw [bindParams_cons, ih (by rw [hshape.current]; exact hi)]
    exact scope_modifyScope_ne hi

theorem find?_bindParams_of_not_mem (henv : 0 < env.depth) (hname : name ∉ params) :
    OrderedMap.find? ((bindParams env params args).scope env.current).bindings name =
      OrderedMap.find? (env.scope env.current).bindings name := by
  induction params generalizing env args with
  | nil => rfl
  | cons param params ih =>
    rw [List.mem_cons, not_or] at hname
    have hshape := SameShape.define env param (args.head?.getD .null) .mutable
    rw [bindParams_cons, ← hshape.current, ih (by rw [hshape.depth]; exact henv) hname.2,
      hshape.current]
    exact find?_define_ne henv hname.1

/-- Of several parameters of the same name, the last one counts. The induction is on the parameters;
those after the last one of that name leave its binding alone. -/
theorem find?_bindParams_of_last (henv : 0 < env.depth) (hi : params[i]? = some name)
    (hlast : ∀ j, i < j → params[j]? ≠ some name) :
    OrderedMap.find? ((bindParams env params args).scope env.current).bindings name =
      some { mode := .mutable, value := args[i]?.getD .null } := by
  induction params generalizing env args i with
  | nil => cases hi
  | cons param params ih =>
    have hshape := SameShape.define env param (args.head?.getD .null) .mutable
    have henv' : 0 < (env.define param (args.head?.getD .null) .mutable).depth := by
      rw [hshape.depth]
      exact henv
    rw [bindParams_cons, ← hshape.current]
    cases i with
    | zero =>
      obtain rfl : param = name := Option.some.inj hi
      have hrest : param ∉ params := by
        intro hmem
        obtain ⟨j, hj⟩ := List.mem_iff_getElem?.1 hmem
        exact hlast (j + 1) (Nat.succ_pos j) hj
      rw [find?_bindParams_of_not_mem henv' hrest, hshape.current, find?_define_self henv,
        List.head?_eq_getElem?]
    | succ i =>
      rw [ih henv' hi fun j hj => hlast (j + 1) (Nat.succ_lt_succ hj), List.getElem?_tail]

/-! ## Receiver and parameters -/

theorem sameShape_bindCall (env : Environment) (params : List String) (args : List Value)
    (receiver : Option Value) : env.SameShape (bindCall env params args receiver) :=
  (SameShape.define env thisName _ .immutable).trans (sameShape_bindParams _ params args)

theorem scope_bindCall_ne (hi : i ≠ env.current) :
    (bindCall env params args receiver).scope i = env.scope i := by
  have hthis := SameShape.define env thisName (receiver.getD .null) .immutable
  rw [bindCall, scope_bindParams_ne (by rw [hthis.current]; exact hi)]
  exact scope_modifyScope_ne hi

theorem find?_bindCall_parameter (henv : 0 < env.depth) (hi : params[i]? = some name)
    (hlast : ∀ j, i < j → params[j]? ≠ some name) :
    OrderedMap.find? ((bindCall env params args receiver).scope env.current).bindings name =
      some { mode := .mutable, value := args[i]?.getD .null } := by
  have hthis := SameShape.define env thisName (receiver.getD .null) .immutable
  rw [bindCall, ← hthis.current]
  exact find?_bindParams_of_last (by rw [hthis.depth]; exact henv) hi hlast

theorem find?_bindCall_of_not_mem (henv : 0 < env.depth) (hname : name ∉ params) :
    OrderedMap.find? ((bindCall env params args receiver).scope env.current).bindings name =
      OrderedMap.find? ((env.define thisName (receiver.getD .null) .immutable).scope
        env.current).bindings name := by
  have hthis := SameShape.define env thisName (receiver.getD .null) .immutable
  rw [bindCall, ← hthis.current]
  exact find?_bindParams_of_not_mem (by rw [hthis.depth]; exact henv) hname

end Rule

/-! ## The scopes of a call -/

/-- What names refer to when the body of a call starts, given the environment of the caller, in the
order in which it is decided. -/
structure Environment.CallFrame (caller : Environment) (f : Function) (callee : Value)
    (args : List Value) (receiver : Option Value) (body : Environment) : Prop where
  /-- The last parameter of a name stands for the argument at its position, or for `null`. -/
  parameter {name : String} {i : Nat} : f.params[i]? = some name →
    (∀ j, i < j → f.params[j]? ≠ some name) →
    body.resolve? name = some { mode := .mutable, value := args[i]?.getD .null }
  /-- `this` stands for the receiver, or for `null`. -/
  receiver : Rule.thisName ∉ f.params →
    body.resolve? Rule.thisName = some { mode := .immutable, value := receiver.getD .null }
  /-- What was captured is there again, with the value and the mode of that time. -/
  captured {name : String} {c : Captured} : name ∉ f.params → name ≠ Rule.thisName →
    OrderedMap.find? f.closure name = some c →
    body.resolve? name = some { mode := c.mode, value := c.value }
  /-- A function knows itself under its own name. -/
  itself {name : String} : name ∉ f.params → name ≠ Rule.thisName →
    OrderedMap.find? f.closure name = none → f.name = some name →
    body.resolve? name = some { mode := .function, value := callee }
  /-- All other names are those of the global scope. -/
  global {name : String} : name ∉ f.params → name ≠ Rule.thisName →
    OrderedMap.find? f.closure name = none → f.name ≠ some name →
    body.resolve? name = OrderedMap.find? (caller.scope 0).bindings name ∧
      ∀ i, body.position? name = some i → i = 0
  /-- Of the scopes of the caller, the body sees the global one only. -/
  chain : body.chain = [caller.depth + 1, caller.depth, 0]
  /-- The scopes of the caller are as they were. -/
  scope_of_lt {i : Nat} : i < caller.depth → body.scope i = caller.scope i

namespace Rule

open Environment

variable {caller env : Environment} {f : Function} {self : Value} {params : List String}
  {args : List Value} {receiver : Option Value}

/-- The body finds its names in three scopes, the innermost of them set up by `bindCall`. -/
theorem resolve?_bindCall (hcaller : caller.Linked) (henv : caller.beginCall f self = .ok env)
    (name : String) :
    (bindCall env params args receiver).resolve? name =
      (OrderedMap.find? ((bindCall env params args receiver).scope env.current).bindings name).or
        ((OrderedMap.find? (closureBindings f self) name).or
          (OrderedMap.find? (caller.scope 0).bindings name)) := by
  have hcurrent := current_beginCall henv
  have hpos := hcaller.nonempty
  -- Only the innermost of the three scopes was changed since the scopes were entered.
  unfold resolve?
  rw [(sameShape_bindCall env params args receiver).chain, chain_beginCall hcaller henv]
  simp only [List.findSome?_cons, List.findSome?_nil]
  rw [hcurrent, scope_bindCall_ne (i := caller.depth) (by omega),
    scope_bindCall_ne (i := 0) (by omega), scope_beginCall_closure henv,
    scope_beginCall_of_lt henv hpos]
  cases OrderedMap.find? ((bindCall env params args receiver).scope (caller.depth + 1)).bindings
    name <;> cases OrderedMap.find? (closureBindings f self) name <;>
    cases OrderedMap.find? (caller.scope 0).bindings name <;> rfl

theorem depth_pos_beginCall (henv : caller.beginCall f self = .ok env) : 0 < env.depth := by
  rw [depth_beginCall henv]
  omega

/-- The innermost scope of a call holds nothing but the receiver and the parameters. -/
theorem find?_bindCall_of_ne (henv : caller.beginCall f self = .ok env) {name : String}
    (hparam : name ∉ params) (hthis : name ≠ thisName) :
    OrderedMap.find? ((bindCall env params args receiver).scope env.current).bindings name =
      none := by
  have hpos := depth_pos_beginCall henv
  rw [find?_bindCall_of_not_mem hpos hparam, find?_define_ne hpos hthis, current_beginCall henv,
    scope_beginCall_function henv]
  rfl

/-- A name that the call does not bind in its innermost scope is looked up in the closure. -/
theorem resolve?_bindCall_of_not_mem (hcaller : caller.Linked)
    (henv : caller.beginCall f self = .ok env) {name : String} (hparam : name ∉ params)
    (hthis : name ≠ thisName) :
    (bindCall env params args receiver).resolve? name =
      (OrderedMap.find? (closureBindings f self) name).or
        (OrderedMap.find? (caller.scope 0).bindings name) := by
  rw [resolve?_bindCall hcaller henv, find?_bindCall_of_ne henv hparam hthis, Option.none_or]

/-- What neither the call nor the closure binds is found in the global scope only. -/
theorem position?_bindCall_global (hcaller : caller.Linked)
    (henv : caller.beginCall f self = .ok env) {name : String} (hparam : name ∉ params)
    (hthis : name ≠ thisName) (hclosure : OrderedMap.find? (closureBindings f self) name = none)
    {i : Nat} (hi : (bindCall env params args receiver).position? name = some i) : i = 0 := by
  obtain ⟨b, hb⟩ := find?_of_position hi
  have hmem := position?_mem_chain hi
  rw [(sameShape_bindCall env params args receiver).chain, chain_beginCall hcaller henv,
    List.mem_cons, List.mem_cons, List.mem_singleton] at hmem
  rcases hmem with rfl | rfl | rfl
  · rw [← current_beginCall henv, find?_bindCall_of_ne henv hparam hthis] at hb
    cases hb
  · rw [scope_bindCall_ne (by rw [current_beginCall henv]; omega), scope_beginCall_closure henv,
      hclosure] at hb
    cases hb
  · rfl

/-- A call looks its names up in the documented order. -/
theorem callFrame_bindCall (hcaller : caller.Linked) (henv : caller.beginCall f self = .ok env)
    (args : List Value) (receiver : Option Value) :
    caller.CallFrame f self args receiver (bindCall env f.params args receiver) where
  parameter hi hlast := by
    rw [resolve?_bindCall hcaller henv,
      find?_bindCall_parameter (depth_pos_beginCall henv) hi hlast, Option.some_or]
  receiver hthis := by
    have hpos := depth_pos_beginCall henv
    rw [resolve?_bindCall hcaller henv, find?_bindCall_of_not_mem hpos hthis,
      find?_define_self hpos, Option.some_or]
  captured hparam hthis hc := by
    rw [resolve?_bindCall_of_not_mem hcaller henv hparam hthis, find?_closureBindings_captured hc,
      Option.some_or]
  itself hparam hthis hc hname := by
    rw [resolve?_bindCall_of_not_mem hcaller henv hparam hthis,
      find?_closureBindings_own hc hname, Option.some_or]
  global {name} hparam hthis hc hname := by
    have hclosure : OrderedMap.find? (closureBindings f self) name = none :=
      find?_closureBindings_other hc hname
    refine ⟨?_, fun i hi => position?_bindCall_global hcaller henv hparam hthis hclosure hi⟩
    rw [resolve?_bindCall_of_not_mem hcaller henv hparam hthis, hclosure, Option.none_or]
  chain := by
    rw [(sameShape_bindCall env f.params args receiver).chain, chain_beginCall hcaller henv]
  scope_of_lt hi := by
    rw [scope_bindCall_ne (by rw [current_beginCall henv]; omega), scope_beginCall_of_lt henv hi]

/-- Below the limit, a call of a function executes the body in a call frame. -/
theorem call_callFrame (ctx : Context) (ev : Evaluator) {ref : Ref} {s : State}
    (args : List Value) (receiver : Option Value) (hf : s.store.function ref = f)
    (hlinked : s.env.Linked) (hlimit : s.env.callDepth < s.env.maxCallDepth) :
    ∃ start : State, call ctx ev (.function ref) args receiver s =
        ((ev.stmts f.body >>= callResult) start).mapState
          (fun s => { s with env := s.env.endCall }) ∧
      s.env.CallFrame f (.function ref) args receiver start.env := by
  subst hf
  have hbegin := beginCall_eq s.env (s.store.function ref) (.function ref)
  rw [if_pos hlimit] at hbegin
  exact ⟨_, call_below_limit hbegin, callFrame_bindCall hlinked hbegin args receiver⟩

end Rule

/-- A call frame resolves names in the documented order. Below the limit, a call of a function
enters its scopes and executes the body, and the environment in which the body starts is an
`Environment.CallFrame` of that of the caller: a name stands for the argument at the last position
of a parameter of that name, or else, if it is `this`, for the receiver, or else for what the
function captured under it, or else, if the function has that name, for the function, or else for
the binding of the global scope, if there is one. All bindings but the global ones are fresh and
have no observers, and the other scopes of the caller are not visible. -/
theorem call_frame_resolves_names (ctx : Context) (fuel : Nat) (ref : Ref) (args : List Value)
    (receiver : Option Value) (s : State) (henv : s.env.WellFormed)
    (hlimit : s.env.callDepth < s.env.maxCallDepth) :
    ∃ env start, s.env.beginCall (s.store.function ref) (.function ref) = .ok env ∧
      start = Rule.enterBody ctx (s.store.function ref) args receiver env s ∧
      Interpreter.callValue ctx (fuel + 1) (.function ref) args receiver s =
        (((Evaluator.level ctx fuel).stmts (s.store.function ref).body >>= Rule.callResult)
          start).mapState (fun s => { s with env := s.env.endCall }) ∧
      s.env.CallFrame (s.store.function ref) (.function ref) args receiver start.env := by
  have hbegin := Environment.beginCall_eq s.env (s.store.function ref) (.function ref)
  rw [if_pos hlimit] at hbegin
  exact ⟨_, _, hbegin, rfl, Rule.call_below_limit hbegin,
    Rule.callFrame_bindCall henv.linked hbegin args receiver⟩

/-- A function `f` with two parameters `a` that captured variables `c` and `this`. -/
def layered : Function where
  name := some "f"
  params := ["a", "a"]
  body := []
  closure := [("c", ⟨.bool true, .immutable⟩), ("this", ⟨.bool true, .mutable⟩)]

/-- Global variables `c` and `g`. -/
def globalVariables : Environment where
  scopes := #[{ kind := .global, parent := none, bindings :=
    [("c", { mode := .mutable, value := .null }), ("g", { mode := .mutable, value := .null })] }]
  maxCallDepth := 1

/-- A block with variables `b` and `c` of its own. -/
def callerInBlock : State where
  env := (globalVariables.pushBlock.define "b" .null .blockMutable).define "c" .null .blockMutable
  store := { functions := #[layered] }

/-- Each of the five layers answers for one name, and the variable `b` of the caller is hidden. -/
theorem call_frame_resolves_names_layered :
    callerInBlock.env.WellFormed ∧ callerInBlock.env.callDepth < callerInBlock.env.maxCallDepth ∧
      ∃ start : State, callerInBlock.env.CallFrame layered (.function 0) [.null, .bool true] none
          start.env ∧
        start.env.resolve? "a" = some { mode := .mutable, value := .bool true } ∧
        start.env.resolve? "this" = some { mode := .immutable, value := .null } ∧
        start.env.resolve? "c" = some { mode := .immutable, value := .bool true } ∧
        start.env.resolve? "f" = some { mode := .function, value := .function 0 } ∧
        start.env.resolve? "g" = some { mode := .mutable, value := .null } ∧
        start.env.resolve? "b" = none := by
  have hglobal : globalVariables.WellFormed :=
    Environment.WellFormed.of_global (by decide) (Nat.zero_le 1)
  have henv : callerInBlock.env.WellFormed :=
    (hglobal.pushBlock.define "b" .null .blockMutable).define "c" .null .blockMutable
  obtain ⟨env, start, -, -, -, hframe⟩ := call_frame_resolves_names plainContext 0 0
    [.null, .bool true] none callerInBlock henv (by decide)
  have hlast : ∀ j, 1 < j → layered.params[j]? ≠ some "a" := by
    intro j hj
    have hnone : layered.params[j]? = none := List.getElem?_eq_none hj
    rw [hnone]
    exact (Option.some_ne_none "a").symm
  have houter : ∀ name, name ∉ layered.params → name ≠ Rule.thisName →
      OrderedMap.find? layered.closure name = none → layered.name ≠ some name →
      start.env.resolve? name = OrderedMap.find? (callerInBlock.env.scope 0).bindings name :=
    fun _ hparam hthis hc hname => (hframe.global hparam hthis hc hname).1
  exact ⟨henv, by decide, start, hframe, hframe.parameter (i := 1) rfl hlast,
    hframe.receiver (by decide),
    hframe.captured (c := ⟨.bool true, .immutable⟩) (by decide) (by decide) rfl,
    hframe.itself (by decide) (by decide) rfl rfl,
    houter "g" (by decide) (by decide) rfl (by decide),
    houter "b" (by decide) (by decide) rfl (by decide)⟩

end ReactiveScript
