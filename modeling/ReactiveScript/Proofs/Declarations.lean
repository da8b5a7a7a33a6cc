import ReactiveScript.Proofs.Lookups
import ReactiveScript.Proofs.Refusals

/-!
# Where declarations land, and who sees them

A declaration changes one scope, at the end. Which scope that is does not depend on the name: it is
the innermost one, or, for `var`, the nearest scope that takes `var` declarations. Whether the name
is there already is asked of this scope alone, although the blocks inside of it may bind the name
too. So a declaration can succeed and still be hidden where it stands: lookups meet the inner scopes
first.
-/

namespace ReactiveScript

namespace Environment

variable {env env' : Environment} {i target : Nat} {name : String} {b : Binding}

/-! ## The scope of a call -/

/-- A scope is the scope of a call, or a block with nothing but blocks between it and that scope. -/
inductive BlocksOn (env : Environment) (call : Nat) : Nat → Prop where
  | call (hkind : (env.scope call).kind = .function) : BlocksOn env call call
  | block {i p : Nat} (hkind : (env.scope i).kind = .block)
    (hparent : (env.scope i).parent = some p) (h : BlocksOn env call p) : BlocksOn env call i

/-- The walk from a block in a call passes blocks alone before it comes to the scope of the call. -/
theorem BlocksOn.chainAt (henv : env.Linked) {call : Nat} (h : env.BlocksOn call i) :
    ∃ inner outer, env.chainAt i = inner ++ call :: outer ∧
      (∀ j ∈ inner, (env.scope j).kind = .block) ∧ (env.scope call).kind = .function := by
  induction h with
  | call hkind =>
    refine ⟨[], (env.scope call).parent.elim [] (chainFrom env.scopes call), ?_, by simp, hkind⟩
    exact chainFrom_succ env call call
  | @block i p hkind hparent _ ih =>
    obtain ⟨inner, outer, hchain, hblocks, hcall⟩ := ih
    refine ⟨i :: inner, outer, ?_, List.forall_mem_cons.2 ⟨hkind, hblocks⟩, hcall⟩
    rw [chainAt_of_parent henv hparent, hchain, List.cons_append]

/-- In a call, however many blocks deep, `var` declares in the scope of the call. -/
theorem BlocksOn.declaresIn (henv : env.Linked) {call : Nat}
    (h : env.BlocksOn call env.current) : env.DeclaresIn .mutable call := by
  obtain ⟨inner, outer, hchain, hblocks, hcall⟩ := h.chainAt henv
  rw [← chain_eq_chainAt henv] at hchain
  refine .nearest hchain (fun j hj => ?_) (Or.inl hcall)
  rw [hblocks j hj]
  exact ⟨by decide, by decide⟩

theorem BlocksOn.ne_zero (henv : env.WellFormed) {call : Nat} (h : env.BlocksOn call i) :
    call ≠ 0 := by
  obtain ⟨-, -, -, -, hcall⟩ := h.chainAt henv.linked
  rintro rfl
  rw [(henv.placed henv.nonempty).global_iff.2 rfl] at hcall
  cases hcall

/-! ## What changes -/

/-- One scope gains a binding under a name that it did not hold, behind all others, and everything
else stays. -/
structure Gains (env : Environment) (target : Nat) (name : String) (b : Binding)
    (env' : Environment) : Prop where
  live : target < env.depth
  fresh : OrderedMap.has (env.scope target).bindings name = false
  gained : env'.scope target =
    { env.scope target with bindings := (env.scope target).bindings ++ [(name, b)] }
  others {i : Nat} : i ≠ target → env'.scope i = env.scope i
  shape : env.SameShape env'

theorem gains_of_declare (henv : env.Linked) {mode : Mode} {value : Value} {span : Option Span}
    (h : env.declare mode name value span = .ok env') :
    env.Gains (env.declarationScope mode) name { mode, value, span } env' := by
  obtain ⟨hfresh, rfl⟩ := declare_ok h
  have hlive := henv.lt_of_mem_chain (henv.declarationScope_mem_chain mode)
  exact
    { live := hlive, fresh := hfresh, gained := scope_modifyScope_self hlive
      others := fun hi => scope_modifyScope_ne hi
      shape := SameShape.modifyScope env _ _ }

namespace Gains

theorem find?_self (h : env.Gains target name b env') :
    OrderedMap.find? (env'.scope target).bindings name = some b := by
  rw [h.gained]
  dsimp only
  rw [← OrderedMap.put_eq_concat h.fresh, OrderedMap.find?_put_self]

/-- Another name, or the name in another scope. -/
theorem find?_ne (h : env.Gains target name b env') {w : String} (hne : i = target → w ≠ name) :
    OrderedMap.find? (env'.scope i).bindings w = OrderedMap.find? (env.scope i).bindings w := by
  by_cases hi : i = target
  · subst hi
    rw [h.gained]
    dsimp only
    rw [← OrderedMap.put_eq_concat h.fresh, OrderedMap.find?_put_ne (hne rfl)]
  · rw [h.others hi]

theorem has_ne (h : env.Gains target name b env') {w : String} (hne : i = target → w ≠ name) :
    OrderedMap.has (env'.scope i).bindings w = OrderedMap.has (env.scope i).bindings w := by
  unfold OrderedMap.has
  rw [h.find?_ne hne]

end Gains

/-! ## Who sees it -/

/-- The scopes on the chain strictly inside of a scope. -/
def inside (env : Environment) (target : Nat) : List Nat := env.chain.takeWhile (· != target)

theorem ne_of_mem_inside (h : i ∈ env.inside target) : i ≠ target := by
  simpa using List.mem_takeWhile_imp h

theorem chain_eq_inside_append (h : target ∈ env.chain) :
    ∃ outer, env.chain = env.inside target ++ target :: outer := by
  obtain ⟨inner, outer, hchain, hnot⟩ := List.eq_append_cons_of_mem h
  have hinner : ∀ j ∈ inner, (j != target) = true := by
    intro j hj
    rw [bne_iff_ne]
    rintro rfl
    exact hnot hj
  refine ⟨outer, ?_⟩
  have hinside : env.inside target = inner := by
    unfold inside
    rw [hchain, List.takeWhile_append_of_pos hinner, List.takeWhile_cons_of_neg (by simp),
      List.append_nil]
  rw [hinside, hchain]

/-- The scope inside of a scope where lookups of a name end. -/
def firstInside? (env : Environment) (target : Nat) (name : String) : Option Nat :=
  (env.inside target).find? fun j => OrderedMap.has (env.scope j).bindings name

theorem firstInside?_eq_none_iff : env.firstInside? target name = none ↔
    ∀ j ∈ env.inside target, OrderedMap.has (env.scope j).bindings name = false := by
  unfold firstInside?
  simp only [List.find?_eq_none, Bool.not_eq_true]

theorem firstInside?_ne_target : env.firstInside? target name ≠ some target := by
  intro h
  exact ne_of_mem_inside (List.mem_of_find?_eq_some h) rfl

/-- What lookups see of a new binding. Its name refers to it unless a scope inside of its scope
binds the name: then the name refers to the binding there, as it did before. All other names refer
to what they referred to. -/
structure Shows (env : Environment) (target : Nat) (name : String) (b : Binding)
    (env' : Environment) : Prop where
  position : env'.position? name = some target ↔
    ∀ j ∈ env.inside target, OrderedMap.has (env.scope j).bindings name = false
  visible : (∀ j ∈ env.inside target, OrderedMap.has (env.scope j).bindings name = false) →
    env'.resolve? name = some b
  hidden {j : Nat} : j ∈ env.inside target → OrderedMap.has (env.scope j).bindings name = true →
    ∃ k ∈ env.inside target, ∃ b', env.FirstBinds name k b' ∧ env'.FirstBinds name k b' ∧
      env'.resolve? name = some b'
  others {w : String} : w ≠ name →
    env'.position? w = env.position? w ∧ env'.resolve? w = env.resolve? w

namespace Gains

/-- The walk for the name ends at the new binding at the latest. -/
theorem position?_self (h : env.Gains target name b env') (htarget : target ∈ env.chain) :
    env'.position? name = (env.firstInside? target name).or (some target) := by
  obtain ⟨outer, houter⟩ := chain_eq_inside_append htarget
  have hinside : ((env.inside target).find? fun j =>
      OrderedMap.has (env'.scope j).bindings name) = env.firstInside? target name :=
    List.find?_congr fun j hj => h.has_ne fun heq => absurd heq (ne_of_mem_inside hj)
  have hself : OrderedMap.has (env'.scope target).bindings name = true :=
    Option.isSome_of_eq_some h.find?_self
  have hlast : ((target :: outer).find? fun j => OrderedMap.has (env'.scope j).bindings name) =
      some target := List.find?_cons_of_pos hself
  unfold position?
  rw [h.shape.chain, houter, List.find?_append, hinside, hlast]

/-- Where an inner scope binds the name, the walk ends there, as it did before. -/
theorem firstBinds_hidden (h : env.Gains target name b env') (htarget : target ∈ env.chain)
    {k : Nat} (hk : env.firstInside? target name = some k) :
    ∃ b', env.FirstBinds name k b' ∧ env'.FirstBinds name k b' := by
  obtain ⟨outer, houter⟩ := chain_eq_inside_append htarget
  have hbefore : env.position? name = some k := by
    unfold position?
    rw [houter, List.find?_append]
    exact congrArg (Option.or · _) hk
  have hafter : env'.position? name = some k := by
    rw [h.position?_self htarget, hk, Option.some_or]
  obtain ⟨b', hb'⟩ := find?_of_position hbefore
  have hne : k ≠ target := ne_of_mem_inside (List.mem_of_find?_eq_some hk)
  have hkept : OrderedMap.find? (env'.scope k).bindings name = some b' := by
    rw [h.find?_ne fun heq => absurd heq hne, hb']
  exact ⟨b', firstBinds_iff.2 ⟨hbefore, hb'⟩, firstBinds_iff.2 ⟨hafter, hkept⟩⟩

theorem shows (h : env.Gains target name b env') (htarget : target ∈ env.chain) :
    env.Shows target name b env' where
  position := by
    rw [← firstInside?_eq_none_iff, h.position?_self htarget]
    cases hk : env.firstInside? target name with
    | none => simp
    | some k =>
      have hne : k ≠ target := fun heq => firstInside?_ne_target (heq ▸ hk)
      simpa using hne
  visible hfree := by
    rw [resolve?_eq, h.position?_self htarget, firstInside?_eq_none_iff.2 hfree]
    exact h.find?_self
  hidden {j} hj hbinds := by
    have hsome : (env.firstInside? target name).isSome := List.find?_isSome.2 ⟨j, hj, hbinds⟩
    obtain ⟨k, hk⟩ := Option.isSome_iff_exists.1 hsome
    obtain ⟨b', hb', hb''⟩ := h.firstBinds_hidden htarget hk
    refine ⟨k, List.mem_of_find?_eq_some hk, b', hb', hb'', ?_⟩
    obtain ⟨hposition, hkept⟩ := firstBinds_iff.1 hb''
    rw [resolve?_eq, hposition]
    exact hkept
  others {w} hw := by
    have hposition := position?_congr h.shape w fun j => h.has_ne fun _ => hw
    refine ⟨hposition, ?_⟩
    rw [resolve?_eq, resolve?_eq, hposition]
    congr 1
    funext j
    exact h.find?_ne fun _ => hw

end Gains

/-- A declaration lands in one scope, and is seen from there. In every environment that a host can
bring about, a declaration that succeeds adds a binding at the end of one scope on the chain, with
the given mode, value and position and without observers, and changes nothing else. This is the
innermost scope, or for `var` the first one on the way out that belongs to a call or is the global
one: never the global one in a call, in however many blocks. The name then refers to the new binding
if and only if no scope inside of that scope binds it, and otherwise to what it referred to before,
as all other names do. -/
theorem declaration_lands_in_one_scope (maxCallDepth : Nat) (ops : List Operation)
    (hops : ∀ op ∈ ops, op.Calls WellFormed.snapshots) (mode : Mode) (name : String) (value : Value)
    (span : Option Span) :
    let env := afterAll { maxCallDepth := maxCallDepth } ops
    let b : Binding :=
      { mode := mode, value := value, observers := [], registrations := [], span := span }
    env.Walk env.current env.chain ∧
      ∀ env', env.declare mode name value span = .ok env' →
        ∃ target ∈ env.chain, env.DeclaresIn mode target ∧
          (∀ call, mode = .mutable → env.BlocksOn call env.current → target = call ∧ target ≠ 0) ∧
          env.Gains target name b env' ∧ env.Shows target name b env' := by
  intro env b
  have hstart : WellFormed { maxCallDepth := maxCallDepth } :=
    WellFormed.of_global List.nodup_nil (Nat.zero_le _)
  have henv : env.WellFormed := hstart.steps (afterAll_steps hops)
  refine ⟨henv.linked.walk_chain, fun env' h => ?_⟩
  have htarget := henv.linked.declarationScope_mem_chain mode
  have hgains := gains_of_declare henv.linked h
  refine ⟨env.declarationScope mode, htarget, henv.declaresIn_iff.2 rfl, ?_, hgains,
    hgains.shows htarget⟩
  rintro call rfl hcall
  have hscope : env.declarationScope .mutable = call :=
    henv.declaresIn_iff.1 (hcall.declaresIn henv.linked)
  rw [hscope]
  exact ⟨rfl, hcall.ne_zero henv⟩

/-- A call below a global `x`, and in it a block with a variable of its own and another block. -/
def blocksInCall : List Operation :=
  [.declare .blockMutable "y" .null none, .beginCall capturing .null, .pushBlock,
    .declare .blockMutable "y" (.bool true) none, .pushBlock]

/-- In the inner block `var x` lands in the scope of the call and hides what was captured. `var y`
lands there too, and stays hidden by the `y` of the outer block. -/
theorem declaration_lands_in_one_scope_blocksInCall :
    let env := afterAll { maxCallDepth := 1 } blocksInCall
    (∀ op ∈ blocksInCall, op.Calls WellFormed.snapshots) ∧
      env.BlocksOn 2 env.current ∧
      (∃ env', env.declare .mutable "x" (.bool false) none = .ok env' ∧
        env.Gains 2 "x" { mode := .mutable, value := .bool false } env' ∧
        env'.resolve? "x" = some { mode := .mutable, value := .bool false }) ∧
      ∃ env', env.declare .mutable "y" (.bool false) none = .ok env' ∧
        env.Gains 2 "y" { mode := .mutable, value := .bool false } env' ∧
        env'.resolve? "y" = some { mode := .blockMutable, value := .bool true } := by
  intro env
  have hops : ∀ op ∈ blocksInCall, op.Calls WellFormed.snapshots := by
    simp [blocksInCall, Operation.Calls, WellFormed.snapshots, capturing, OrderedMap.keys]
  have hblocks : env.BlocksOn 2 env.current :=
    .block (p := 3) (by decide +kernel) (by decide +kernel)
      (.block (p := 2) (by decide +kernel) (by decide +kernel) (.call (by decide +kernel)))
  have hlands : ∀ (name : String) env', env.declare .mutable name (.bool false) none = .ok env' →
      env.Gains 2 name { mode := .mutable, value := .bool false } env' ∧
        env.Shows 2 name { mode := .mutable, value := .bool false } env' := by
    intro name env' h
    obtain ⟨target, -, -, hcall, hgains, hshows⟩ :=
      (declaration_lands_in_one_scope 1 blocksInCall hops .mutable name (.bool false) none).2 env' h
    obtain ⟨rfl, -⟩ := hcall 2 rfl hblocks
    exact ⟨hgains, hshows⟩
  have hinside : env.inside 2 = [4, 3] := by decide +kernel
  refine ⟨hops, hblocks, ?_, ?_⟩
  · obtain ⟨hgains, hshows⟩ := hlands "x" _ rfl
    refine ⟨_, rfl, hgains, hshows.visible ?_⟩
    rw [hinside]
    decide +kernel
  · obtain ⟨hgains, hshows⟩ := hlands "y" _ rfl
    refine ⟨_, rfl, hgains, ?_⟩
    have hmem : 3 ∈ env.inside 2 := by
      rw [hinside]
      decide
    obtain ⟨k, hk, b', ⟨-, -, -, -, hb'⟩, -, hresolve⟩ := hshows.hidden hmem (by decide +kernel)
    rw [hresolve]
    rw [hinside] at hk
    -- The inner block binds nothing.
    obtain rfl | rfl : k = 4 ∨ k = 3 := by simpa using hk
    · have hnone : OrderedMap.find? (env.scope 4).bindings "y" = none := by decide +kernel
      rw [hnone] at hb'
      cases hb'
    · have hy : OrderedMap.find? (env.scope 3).bindings "y" =
          some { mode := .blockMutable, value := .bool true } := by decide +kernel
      rw [← hb', hy]

end Environment

end ReactiveScript
