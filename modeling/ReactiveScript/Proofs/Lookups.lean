import ReactiveScript.Environment.Loops
import ReactiveScript.Proofs.ReadBack
import ReactiveScript.Proofs.WellFormed

/-!
# Lookups

A name can be looked up in several ways: it can be asked for its binding, its value or whether it is
bound, it can be looked for among all visible names, and a closure can take a snapshot of it. All of
them come to the same binding, the one on the innermost scope of the chain that binds the name, and
this is also the one that assignments and observers change.

The proofs go by way of the map of all visible bindings: the loops collect its keys and its values,
and a name has the value in it that it has in the first scope that binds it.
-/

namespace ReactiveScript

namespace Environment

variable {env env' : Environment} {name : String}

/-! ## Reachable environments -/

/-- Walks end after every elementary step as well, whatever the functions that are called. -/
theorem Linked.step {called : Function → Prop} {loss : Loss} (h : env.Linked)
    (hstep : Step called env loss env') : env'.Linked := by
  cases hstep with
  | block => exact h.pushBlock
  | call self _ => exact h.pushCall _ self
  | leave => exact h.pop
  | count _ => exact h.withCallDepth _
  | adjust i name _ => exact (SameShape.modifyScope env i _).linked h
  | append i b _ => exact (SameShape.modifyScope env i _).linked h
  | put name b => exact (SameShape.modifyScope env _ _).linked h
  | clear => exact (WellFormed.clear env).linked

theorem Linked.steps {called : Function → Prop} (h : env.Linked) (hsteps : Steps called env env') :
    env'.Linked := by
  induction hsteps with
  | refl => exact h
  | tail _ hlast ih =>
    obtain ⟨loss, hstep⟩ := hlast
    exact ih.step hstep

/-- Any operations in any order leave an environment in which walks end. -/
theorem linked_afterAll (maxCallDepth : Nat) (ops : List Operation) :
    (afterAll { maxCallDepth := maxCallDepth } ops).Linked := by
  have hstart : WellFormed { maxCallDepth := maxCallDepth } :=
    WellFormed.of_global List.nodup_nil (Nat.zero_le _)
  have hsteps : Steps (fun _ => True) { maxCallDepth := maxCallDepth }
      (afterAll { maxCallDepth := maxCallDepth } ops) :=
    afterAll_steps fun op _ => by cases op <;> trivial
  exact hstart.linked.steps hsteps

/-! ## All that is visible -/

/-- What was seen before shadows the bindings that are added. -/
theorem find?_addVisible (seen bindings : OrderedMap Binding) (name : String) :
    OrderedMap.find? (addVisible seen bindings) name =
      (OrderedMap.find? seen name).or (OrderedMap.find? bindings name) := by
  induction bindings generalizing seen with
  | nil => simp [addVisible, OrderedMap.find?]
  | cons entry bindings ih =>
    obtain ⟨key, b⟩ := entry
    rw [addVisible, ih, OrderedMap.find?]
    cases hhas : OrderedMap.has seen key with
    | true =>
      -- The entry is shadowed by the one that was seen.
      obtain ⟨b', hb'⟩ := Option.isSome_iff_exists.1 hhas
      rw [if_pos rfl]
      by_cases hkey : key = name
      · subst hkey
        rw [hb', Option.some_or, Option.some_or]
      · rw [if_neg hkey]
    | false =>
      have hnone : OrderedMap.find? seen key = none := by
        simpa [OrderedMap.has] using hhas
      rw [if_neg Bool.false_ne_true, ← OrderedMap.put_eq_concat hhas]
      by_cases hkey : key = name
      · subst hkey
        rw [OrderedMap.find?_put_self, hnone, if_pos rfl]
        rfl
      · rw [OrderedMap.find?_put_ne (Ne.symm hkey), if_neg hkey]

/-- The first scope of a list that binds a name decides what is visible under it. -/
theorem find?_foldl_addVisible (env : Environment) (is : List Nat) (seen : OrderedMap Binding)
    (name : String) :
    OrderedMap.find? (is.foldl (fun seen i => addVisible seen (env.scope i).bindings) seen) name =
      (OrderedMap.find? seen name).or
        (is.findSome? fun i => OrderedMap.find? (env.scope i).bindings name) := by
  induction is generalizing seen with
  | nil => simp
  | cons i is ih =>
    rw [List.foldl_cons, ih, find?_addVisible, List.findSome?_cons, Option.or_assoc]
    cases OrderedMap.find? (env.scope i).bindings name <;> rfl

theorem find?_visible (env : Environment) (name : String) :
    OrderedMap.find? env.visible name = env.resolve? name :=
  find?_foldl_addVisible env env.chain [] name

/-- A snapshot holds the value and the mode of each binding that a name refers to. -/
theorem find?_capture (env : Environment) (name : String) :
    OrderedMap.find? env.capture name =
      (env.resolve? name).map fun b => { value := b.value, mode := b.mode } := by
  rw [← find?_visible]
  exact OrderedMap.find?_map (fun b : Binding => ({ value := b.value, mode := b.mode } : Captured))
    env.visible name

theorem contains_eq (env : Environment) (name : String) :
    env.contains name = (env.resolve? name).isSome := by
  unfold contains
  rw [resolve?_eq]
  cases hi : env.position? name with
  | none => rfl
  | some i =>
    obtain ⟨b, hb⟩ := find?_of_position hi
    rw [Option.bind_some, hb]
    rfl

theorem get?_of_contains (h : env.contains name = true) : ∃ v, env.get? name = some v := by
  rw [contains_eq] at h
  obtain ⟨b, hb⟩ := Option.isSome_iff_exists.1 h
  exact ⟨b.value, by rw [get?, hb]; rfl⟩

theorem get?_of_not_contains (h : env.contains name = false) : env.get? name = none := by
  rw [contains_eq, Option.isSome_eq_false_iff, Option.isNone_iff_eq_none] at h
  rw [get?, h]
  rfl

theorem mem_allNames (env : Environment) (name : String) :
    name ∈ env.allNames ↔ (env.resolve? name).isSome = true := by
  unfold allNames
  rw [← OrderedMap.has_iff_mem_keys, OrderedMap.has, find?_visible]

/-! ## The order of the names -/

/-- The names of a scope are appended unless they are there already. -/
theorem appendNames_eraseDups (names : List String) (bindings : OrderedMap Binding) :
    Loop.appendNames names.eraseDups bindings =
      (names ++ OrderedMap.keys bindings).eraseDups := by
  induction bindings generalizing names with
  | nil => rw [OrderedMap.keys_nil, List.append_nil, Loop.appendNames]
  | cons entry bindings ih =>
    obtain ⟨key, b⟩ := entry
    have hkey := OrderedMap.eraseDups_concat names key
    rw [OrderedMap.keys_cons, List.append_cons, ← ih, hkey, Loop.appendNames]
    simp only [List.mem_eraseDups]

/-- A walk that collects names keeps the first of equal ones. -/
theorem foldl_appendNames (env : Environment) (is : List Nat) (names : List String) :
    is.foldl (fun names i => Loop.appendNames names (env.scope i).bindings) names.eraseDups =
      (names ++ is.flatMap fun i => OrderedMap.keys (env.scope i).bindings).eraseDups := by
  induction is generalizing names with
  | nil => rw [List.foldl_nil, List.flatMap_nil, List.append_nil]
  | cons i is ih =>
    rw [List.foldl_cons, appendNames_eraseDups, ih, List.flatMap_cons, List.append_assoc]

/-! ## The loops -/

/-- What a loop visits is the chain. -/
theorem position_eq_find? (env : Environment) (name : String) (count : Nat) (start : Option Nat) :
    Loop.position env name count start =
      (start.elim [] (chainFrom env.scopes count)).find? fun i =>
        OrderedMap.has (env.scope i).bindings name := by
  induction count generalizing start with
  | zero => cases start <;> rfl
  | succ count ih =>
    cases start with
    | none => rfl
    | some i =>
      rw [Loop.position, ih, Option.elim_some, chainFrom_succ, List.find?_cons]
      cases OrderedMap.has (env.scope i).bindings name <;> rfl

theorem positionByLoop_eq (env : Environment) (name : String) :
    env.positionByLoop name = env.position? name :=
  position_eq_find? env name env.depth (some env.current)

theorem resolveByLoop_eq (env : Environment) (name : String) :
    env.resolveByLoop name = env.resolve? name := by
  rw [resolveByLoop, positionByLoop_eq, resolve?_eq]

theorem collect_eq_foldl {σ : Type} (env : Environment) (add : σ → OrderedMap Binding → σ)
    (count : Nat) (start : Option Nat) (collected : σ) :
    Loop.collect env add count start collected =
      (start.elim [] (chainFrom env.scopes count)).foldl
        (fun collected i => add collected (env.scope i).bindings) collected := by
  induction count generalizing start collected with
  | zero => cases start <;> rfl
  | succ count ih =>
    cases start with
    | none => rfl
    | some i => rw [Loop.collect, ih, Option.elim_some, chainFrom_succ, List.foldl_cons]

/-- A loop that collects goes through the chain. -/
theorem collect_chain {σ : Type} (env : Environment) (add : σ → OrderedMap Binding → σ)
    (collected : σ) :
    Loop.collect env add env.depth (some env.current) collected =
      env.chain.foldl (fun collected i => add collected (env.scope i).bindings) collected :=
  collect_eq_foldl env add env.depth (some env.current) collected

/-- What a snapshot holds of a binding. -/
def captured (b : Binding) : Captured := { value := b.value, mode := b.mode }

/-- Inserting into a snapshot is adding to what is visible. -/
theorem insertCaptured_map (seen bindings : OrderedMap Binding) :
    Loop.insertCaptured (seen.map fun entry => (entry.1, captured entry.2)) bindings =
      (addVisible seen bindings).map fun entry => (entry.1, captured entry.2) := by
  induction bindings generalizing seen with
  | nil => rfl
  | cons entry bindings ih =>
    obtain ⟨key, b⟩ := entry
    have hhas : OrderedMap.has (seen.map fun entry => (entry.1, captured entry.2)) key =
        OrderedMap.has seen key := by
      unfold OrderedMap.has
      rw [OrderedMap.find?_map, Option.isSome_map]
    rw [Loop.insertCaptured, addVisible, ← ih]
    cases hseen : OrderedMap.has seen key with
    | true => rw [hhas, hseen, if_pos rfl, if_pos rfl]
    | false =>
      rw [hhas, hseen, if_neg Bool.false_ne_true, if_neg Bool.false_ne_true,
        OrderedMap.put_eq_concat (hhas.trans hseen), List.map_append]
      rfl

/-- Collecting names is collecting the names of what is visible. -/
theorem appendNames_keys (seen bindings : OrderedMap Binding) :
    Loop.appendNames (OrderedMap.keys seen) bindings =
      OrderedMap.keys (addVisible seen bindings) := by
  induction bindings generalizing seen with
  | nil => rfl
  | cons entry bindings ih =>
    obtain ⟨key, b⟩ := entry
    rw [Loop.appendNames, addVisible, ← ih]
    by_cases hmem : key ∈ OrderedMap.keys seen
    · rw [if_pos hmem, if_pos (OrderedMap.has_iff_mem_keys.2 hmem)]
    · rw [if_neg hmem, if_neg (mt OrderedMap.has_iff_mem_keys.1 hmem), OrderedMap.keys_append]
      rfl

theorem captureByLoop_eq (env : Environment) : env.captureByLoop = env.capture := by
  let snapshot (seen : OrderedMap Binding) : Closure :=
    seen.map fun entry => (entry.1, captured entry.2)
  rw [captureByLoop, collect_chain]
  show env.chain.foldl _ (snapshot []) = snapshot env.visible
  exact List.foldl_hom snapshot fun seen i => insertCaptured_map seen (env.scope i).bindings

theorem allNamesByLoop_eq (env : Environment) : env.allNamesByLoop = env.allNames := by
  rw [allNamesByLoop, collect_chain]
  show env.chain.foldl _ (OrderedMap.keys ([] : OrderedMap Binding)) = OrderedMap.keys env.visible
  exact List.foldl_hom OrderedMap.keys fun seen i => appendNames_keys seen (env.scope i).bindings

/-- The visible names: inner scopes first, in the order of declaration within a scope, and of equal
names the first. -/
theorem allNames_eq (env : Environment) :
    env.allNames =
      (env.chain.flatMap fun i => OrderedMap.keys (env.scope i).bindings).eraseDups := by
  rw [← allNamesByLoop_eq, allNamesByLoop, collect_chain]
  exact foldl_appendNames env env.chain []

/-! ## Declarations -/

/-- What has been declared is bound. -/
theorem contains_of_declare (henv : env.Linked) {mode : Mode} {v : Value} {span : Option Span}
    (h : env.declare mode name v span = .ok env') : env'.contains name = true := by
  obtain ⟨-, rfl⟩ := declare_ok h
  have hvisible := henv.declarationScope_mem_chain mode
  unfold contains position?
  rw [(SameShape.modifyScope env _ _).chain, List.find?_isSome]
  refine ⟨_, hvisible, ?_⟩
  rw [scope_modifyScope_self (henv.lt_of_mem_chain hvisible), OrderedMap.has_iff_mem_keys]
  simp

/-- What is declared in the innermost scope is what its name refers to afterwards. -/
theorem resolve?_of_declare (henv : 0 < env.depth) {mode : Mode} (hmode : mode ≠ .mutable)
    {name : String} {v : Value} {span : Option Span}
    (h : env.declare mode name v span = .ok env') :
    env'.resolve? name = some { mode := mode, value := v, span := span } := by
  have hscope : env.declarationScope mode = env.current := if_neg hmode
  obtain ⟨hnew, rfl⟩ := declare_ok h
  rw [hscope] at hnew ⊢
  have hshape := SameShape.modifyScope env env.current fun bindings =>
    bindings ++ [(name, ({ mode := mode, value := v, span := span } : Binding))]
  refine resolve?_of_find? (by rw [hshape.depth]; exact henv) ?_
  rw [hshape.current, scope_modifyScope_self (current_lt henv), ← OrderedMap.put_eq_concat hnew,
    OrderedMap.find?_put_self]

/-- A name that the innermost scope does not hold can be declared there. -/
theorem declare_immutable (henv : 0 < env.depth)
    (hname : env.containsLocally name = false) (v : Value) (span : Option Span) :
    ∃ env', env.declare .immutable name v span = .ok env' ∧
      env'.resolve? name = some { mode := .immutable, value := v, span } := by
  have hnew : OrderedMap.has (env.scope env.current).bindings name = false := hname
  have hdeclare : env.declare .immutable name v span = .ok _ :=
    if_neg (by simpa [declarationScope] using hnew)
  exact ⟨_, hdeclare, resolve?_of_declare henv (by decide) hdeclare⟩

/-! ## Changes by name -/

theorem Rebinds.resolve? {i : Nat} {b b' : Binding} (h : env.Rebinds name i b b' env') :
    env.resolve? name = some b ∧ env'.resolve? name = some b' := by
  rw [resolve?_eq, resolve?_eq, h.position, h.position']
  exact ⟨h.found, h.written⟩

/-- An observer that is registered is added to the binding that the name refers to. -/
theorem rebinds_of_observe {handler : Value} (h : env.observe name handler = .ok env') :
    ∃ i b, env.Rebinds name i b { b with observers := b.observers ++ [handler] } env' := by
  unfold observe at h
  split at h
  · rename_i hcontains
    obtain ⟨i, hi⟩ := Option.isSome_iff_exists.1 hcontains
    obtain ⟨b, hb⟩ := find?_of_position hi
    cases h
    unfold modifyBinding
    rw [hi]
    exact ⟨i, b, .adjust hi hb fun b => { b with observers := b.observers ++ [handler] }⟩
  · cases h

/-! ## Agreement -/

/-- All ways of looking up a name agree. -/
structure LookupsAgree (env : Environment) (name : String) : Prop where
  contains : env.contains name = true ↔ (env.resolve? name).isSome = true
  allNames : name ∈ env.allNames ↔ (env.resolve? name).isSome = true
  captures : name ∈ OrderedMap.keys env.capture ↔ (env.resolve? name).isSome = true
  get : env.get? name = (env.resolve? name).map (·.value)
  capture : OrderedMap.find? env.capture name =
    (env.resolve? name).map fun b => { value := b.value, mode := b.mode }

theorem lookupsAgree (env : Environment) (name : String) : env.LookupsAgree name where
  contains := by rw [contains_eq]
  allNames := env.mem_allNames name
  captures := by
    rw [keys_capture]
    exact env.mem_allNames name
  get := rfl
  capture := env.find?_capture name

/-- The visible names form one sequence: inner scopes first, in the order of declaration within a
scope, and each name where it occurs first. -/
structure NamesInOrder (env : Environment) : Prop where
  allNames : env.allNames =
    (env.chain.flatMap fun i => OrderedMap.keys (env.scope i).bindings).eraseDups
  capture : OrderedMap.keys env.capture = env.allNames
  nodup : env.allNames.Nodup

theorem namesInOrder (env : Environment) : env.NamesInOrder :=
  ⟨env.allNames_eq, env.keys_capture, env.allNames_spec.1⟩

/-- Every lookup gives what its loop along the parents computes. -/
structure LoopsAgree (env : Environment) (name : String) : Prop where
  position : env.positionByLoop name = env.position? name
  resolve : env.resolveByLoop name = env.resolve? name
  capture : env.captureByLoop = env.capture
  allNames : env.allNamesByLoop = env.allNames

theorem loopsAgree (env : Environment) (name : String) : env.LoopsAgree name :=
  ⟨env.positionByLoop_eq name, env.resolveByLoop_eq name, env.captureByLoop_eq,
    env.allNamesByLoop_eq⟩

/-- All lookups agree. Whatever operations led to an environment, each of the loops along the
parents walks over scopes on the stack until there is no parent, and all of them pick the same
binding for a name. A snapshot and the list of visible names hold the same names once each, in the
order of the scopes. An assignment or an observer that is accepted changes this binding, and no
other one. -/
theorem lookups_agree (maxCallDepth : Nat) (ops : List Operation) (name : String) :
    let env := afterAll { maxCallDepth := maxCallDepth } ops
    env.Walk env.current env.chain ∧ env.LoopsAgree name ∧ env.LookupsAgree name ∧
      env.NamesInOrder ∧
      (∀ (v : Value) (env' : Environment) (m : Option Mutation),
        env.assign name v = .ok (env', m) → ∃ i b, env.resolve? name = some b ∧
          env.Rebinds name i b { b with value := b.value.stored v } env') ∧
      (∀ (handler : Value) (env' : Environment),
        env.observe name handler = .ok env' → ∃ i b, env.resolve? name = some b ∧
          env.Rebinds name i b { b with observers := b.observers ++ [handler] } env') := by
  intro env
  have hlinked : env.Linked := linked_afterAll maxCallDepth ops
  refine ⟨hlinked.walk_chain, env.loopsAgree name, env.lookupsAgree name, env.namesInOrder, ?_, ?_⟩
  · intro v env' m h
    obtain ⟨i, b, hassigns⟩ := assigns_of_assign h
    exact ⟨i, b, hassigns.rebinds.resolve?.1, hassigns.rebinds⟩
  · intro handler env' h
    obtain ⟨i, b, hrebinds⟩ := rebinds_of_observe h
    exact ⟨i, b, hrebinds.resolve?.1, hrebinds⟩

/-- A call whose closure captured `x`, below a global `x` and the `x` of the caller's block, and a
block in the call that does not bind it. -/
def shadowing : List Operation :=
  [.declare .mutable "x" (.bool true) none, .declare .mutable "y" .null none, .pushBlock,
    .declare .blockMutable "x" .null none, .beginCall capturing .null, .pushBlock]

/-- In this call the captured `x` is the one that is assigned and observed. -/
theorem lookups_agree_shadowing :
    (let env := afterAll { maxCallDepth := 1 } shadowing
    (∃ env' m, env.assign "x" (.bool false) = .ok (env', m)) ∧
      (∃ env', env.observe "x" .null = .ok env')) ∧
    (afterAll { maxCallDepth := 1 } shadowing).allNames = ["x", "f", "y"] ∧
    (let env := afterAll { maxCallDepth := 1 } shadowing
    env.LookupsAgree "x" ∧ ∃ b env' env'',
      env.Rebinds "x" 2 b { b with value := b.value.stored (.bool false) } env' ∧
      env.Rebinds "x" 2 b { b with observers := b.observers ++ [.null] } env'') := by
  obtain ⟨-, -, hagree, -, hassign, hobserve⟩ := lookups_agree 1 shadowing "x"
  have hposition : (afterAll { maxCallDepth := 1 } shadowing).position? "x" = some 2 := by decide
  obtain ⟨i, b, hb, hrebinds⟩ := hassign (.bool false) _ _ rfl
  obtain ⟨i', b', hb', hrebinds'⟩ := hobserve .null _ rfl
  obtain rfl : 2 = i := Option.some.inj (hposition.symm.trans hrebinds.position)
  obtain rfl : 2 = i' := Option.some.inj (hposition.symm.trans hrebinds'.position)
  obtain rfl : b = b' := Option.some.inj (hb.symm.trans hb')
  exact ⟨⟨⟨_, _, rfl⟩, ⟨_, rfl⟩⟩, by decide, hagree, b, _, _, hrebinds, hrebinds'⟩

end Environment

end ReactiveScript
