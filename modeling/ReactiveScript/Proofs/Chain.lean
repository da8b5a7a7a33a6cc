import Mathlib.Data.List.Find
import Mathlib.Data.Nat.Init
import ReactiveScript.Proofs.ScopeDiscipline

/-!
# The chain of scopes

Lookups follow parents from the innermost scope. In a linked environment each parent lies below its
child and only the global scope has none, so that the walk meets every scope at most once and ends
at the global scope. `chainAt` is the walk from any scope; it satisfies the equations that one
expects of a walk, without a count of steps.
-/

namespace ReactiveScript

namespace Environment

/-- There is a global scope, and every other scope has a parent below it. -/
structure Linked (env : Environment) : Prop where
  nonempty : 0 < env.depth
  parent_lt {i p : Nat} : (env.scope i).parent = some p → p < i
  parent_ne_none {i : Nat} : 0 < i → i < env.depth → (env.scope i).parent ≠ none

variable {env env' : Environment} {i j : Nat}

/-- Scopes beyond the innermost have no parent, so that there are finitely many to look at. -/
theorem linked_iff (env : Environment) : env.Linked ↔ 0 < env.depth ∧ ∀ i < env.depth,
    (∀ p ∈ (env.scope i).parent, p < i) ∧ (0 < i → (env.scope i).parent ≠ none) := by
  constructor
  · intro h
    refine ⟨h.nonempty, fun i hi => ⟨fun p hp => h.parent_lt hp, ?_⟩⟩
    exact fun hpos => h.parent_ne_none hpos hi
  · rintro ⟨hpos, h⟩
    refine ⟨hpos, fun {i p} hp => ?_, fun hpos hi => (h _ hi).2 hpos⟩
    by_cases hi : i < env.depth
    · exact (h i hi).1 p hp
    · rw [scope_of_le (Nat.le_of_not_lt hi)] at hp
      cases hp

instance (env : Environment) : Decidable env.Linked := decidable_of_iff' _ env.linked_iff

theorem Linked.global (h : env.Linked) : (env.scope 0).parent = none := by
  cases hp : (env.scope 0).parent with
  | none => rfl
  | some p => exact absurd (h.parent_lt hp) (Nat.not_lt_zero p)

theorem current_lt (h : 0 < env.depth) : env.current < env.depth := Nat.sub_lt h Nat.one_pos

theorem Linked.current_lt (h : env.Linked) : env.current < env.depth :=
  Environment.current_lt h.nonempty

/-! ## Walks -/

/-- The scopes met on the way from a scope to the global one. -/
def chainAt (env : Environment) (i : Nat) : List Nat := chainFrom env.scopes (i + 1) i

theorem chainFrom_succ (env : Environment) (count i : Nat) :
    chainFrom env.scopes (count + 1) i =
      i :: ((env.scope i).parent.elim [] (chainFrom env.scopes count)) := by
  rw [chainFrom, scope]
  cases (env.scopes.getD i Scope.global).parent <;> rfl

/-- A walk needs no more steps than the index of its first scope allows. -/
theorem chainFrom_eq_chainAt (h : env.Linked) {count : Nat} (hi : i < count) :
    chainFrom env.scopes count i = env.chainAt i := by
  unfold chainAt
  induction i using Nat.strong_induction_on generalizing count with
  | _ i ih =>
    obtain ⟨count, rfl⟩ : ∃ k, count = k + 1 := ⟨count - 1, by omega⟩
    rw [chainFrom_succ, chainFrom_succ]
    cases hp : (env.scope i).parent with
    | none => rfl
    | some p =>
      have hlt := h.parent_lt hp
      show i :: chainFrom env.scopes count p = i :: chainFrom env.scopes i p
      rw [ih p hlt (show p < count by omega), ih p hlt hlt]

theorem chainAt_of_parent (h : env.Linked) {p : Nat} (hp : (env.scope i).parent = some p) :
    env.chainAt i = i :: env.chainAt p := by
  rw [chainAt, chainFrom_succ, hp]
  show i :: chainFrom env.scopes i p = i :: env.chainAt p
  rw [chainFrom_eq_chainAt h (h.parent_lt hp)]

theorem chainAt_of_none (hp : (env.scope i).parent = none) : env.chainAt i = [i] := by
  rw [chainAt, chainFrom_succ, hp]
  rfl

theorem chain_eq_chainAt (h : env.Linked) : env.chain = env.chainAt env.current :=
  chainFrom_eq_chainAt h h.current_lt

theorem chainAt_zero (h : env.Linked) : env.chainAt 0 = [0] := chainAt_of_none h.global

/-- A walk goes strictly down. -/
theorem chainAt_pairwise (h : env.Linked) (i : Nat) :
    (env.chainAt i).Pairwise (· > ·) ∧ ∀ j ∈ env.chainAt i, j ≤ i := by
  induction i using Nat.strong_induction_on with
  | _ i ih =>
    cases hp : (env.scope i).parent with
    | none =>
      rw [chainAt_of_none hp]
      exact ⟨List.pairwise_singleton _ _, fun j hj => Nat.le_of_eq (List.mem_singleton.1 hj)⟩
    | some p =>
      have hlt := h.parent_lt hp
      obtain ⟨hdown, hle⟩ := ih p hlt
      rw [chainAt_of_parent h hp]
      refine ⟨List.pairwise_cons.2 ⟨fun j hj => ?_, hdown⟩, fun j hj => ?_⟩
      · have := hle j hj
        omega
      · rcases List.mem_cons.1 hj with rfl | hj
        · exact Nat.le_refl _
        · have := hle j hj
          omega

/-- A walk ends at the global scope. -/
theorem chainAt_eq_append (h : env.Linked) (hi : i < env.depth) :
    ∃ inner, env.chainAt i = inner ++ [0] := by
  induction i using Nat.strong_induction_on with
  | _ i ih =>
    cases hp : (env.scope i).parent with
    | none =>
      have hzero : i = 0 := by
        by_contra hne
        exact h.parent_ne_none (Nat.pos_of_ne_zero hne) hi hp
      subst hzero
      exact ⟨[], chainAt_of_none hp⟩
    | some p =>
      have hlt := h.parent_lt hp
      obtain ⟨inner, hinner⟩ := ih p hlt (by omega)
      exact ⟨i :: inner, by rw [chainAt_of_parent h hp, hinner, List.cons_append]⟩

/-- Walks depend on nothing but the parents they pass. -/
theorem chainAt_congr (h : env.Linked) (h' : env'.Linked)
    (hp : ∀ j ≤ i, (env'.scope j).parent = (env.scope j).parent) :
    env'.chainAt i = env.chainAt i := by
  induction i using Nat.strong_induction_on with
  | _ i ih =>
    have hi := hp i (Nat.le_refl i)
    cases hparent : (env.scope i).parent with
    | none => rw [chainAt_of_none hparent, chainAt_of_none (hi.trans hparent)]
    | some p =>
      have hlt := h.parent_lt hparent
      rw [chainAt_of_parent h hparent, chainAt_of_parent h' (hi.trans hparent),
        ih p hlt fun j hj => hp j (by omega)]

/-! ## The chain of the innermost scope -/

theorem Linked.chain_pairwise (h : env.Linked) : env.chain.Pairwise (· > ·) := by
  rw [chain_eq_chainAt h]
  exact (chainAt_pairwise h env.current).1

theorem Linked.chain_nodup (h : env.Linked) : env.chain.Nodup :=
  h.chain_pairwise.imp fun hgt => (Nat.ne_of_lt hgt).symm

theorem Linked.lt_of_mem_chain (h : env.Linked) (hi : i ∈ env.chain) : i < env.depth := by
  rw [chain_eq_chainAt h] at hi
  exact Nat.lt_of_le_of_lt ((chainAt_pairwise h env.current).2 i hi) h.current_lt

theorem Linked.chain_eq_append (h : env.Linked) : ∃ inner, env.chain = inner ++ [0] := by
  rw [chain_eq_chainAt h]
  exact chainAt_eq_append h h.current_lt

theorem Linked.zero_mem_chain (h : env.Linked) : 0 ∈ env.chain := by
  obtain ⟨inner, hinner⟩ := h.chain_eq_append
  rw [hinner]
  exact List.mem_append_right inner (List.mem_singleton.2 rfl)

/-- The walk starts at the innermost scope. -/
theorem chain_eq_cons (h : 0 < env.depth) : ∃ outer, env.chain = env.current :: outer := by
  obtain ⟨n, hn⟩ := Nat.exists_eq_succ_of_ne_zero (Nat.ne_of_gt h)
  refine ⟨(env.scope env.current).parent.elim [] (chainFrom env.scopes n), ?_⟩
  rw [chain, show env.scopes.size = n + 1 from hn, chainFrom_succ]

/-- What the innermost scope holds under a name is what the name refers to. -/
theorem resolve?_of_find? (h : 0 < env.depth) {name : String} {b : Binding}
    (hb : OrderedMap.find? (env.scope env.current).bindings name = some b) :
    env.resolve? name = some b := by
  obtain ⟨outer, houter⟩ := chain_eq_cons h
  unfold resolve?
  rw [houter, List.findSome?_cons, hb]

/-- All modes declare in scopes that are visible. -/
theorem Linked.declarationScope_mem_chain (h : env.Linked) (mode : Mode) :
    env.declarationScope mode ∈ env.chain := by
  unfold declarationScope
  split
  · unfold varScope
    cases hfound : env.chain.find? fun i => takesVars (env.scope i) with
    | some i => exact List.mem_of_find?_eq_some hfound
    | none =>
      obtain ⟨inner, hinner⟩ := h.chain_eq_append
      simp [hinner]
  · obtain ⟨outer, houter⟩ := chain_eq_cons h.nonempty
    simp [houter]

/-! ## Environments of the same shape -/

theorem SameShape.linked (hs : env.SameShape env') (h : env.Linked) : env'.Linked where
  nonempty := by rw [hs.depth]; exact h.nonempty
  parent_lt hp := h.parent_lt ((hs.parent _).symm.trans hp)
  parent_ne_none hpos hlt := by
    rw [hs.parent]
    exact h.parent_ne_none hpos (by rw [← hs.depth]; exact hlt)

theorem SameShape.chain (hs : env.SameShape env') : env'.chain = env.chain := by
  have hwalk : ∀ count i, chainFrom env'.scopes count i = chainFrom env.scopes count i := by
    intro count
    induction count with
    | zero => exact fun _ => rfl
    | succ count ih =>
      intro i
      rw [chainFrom_succ, chainFrom_succ, hs.parent, funext ih]
  have hdepth : env'.scopes.size = env.scopes.size := hs.depth
  rw [Environment.chain, hwalk, hdepth, hs.current]
  rfl

theorem SameShape.takesVars (hs : env.SameShape env') (i : Nat) :
    takesVars (env'.scope i) = takesVars (env.scope i) := by
  unfold Environment.takesVars
  rw [hs.kind]

theorem SameShape.varScope (hs : env.SameShape env') : env'.varScope = env.varScope := by
  unfold Environment.varScope
  simp only [hs.chain, hs.takesVars]

/-! ## Blocks -/

theorem Linked.pushBlock (h : env.Linked) : env.pushBlock.Linked := by
  have hcurrent := h.current_lt
  refine env.pushBlock.linked_iff.2 ⟨by rw [depth_pushBlock]; omega, fun i hi => ?_⟩
  rw [depth_pushBlock] at hi
  by_cases hlt : i < env.depth
  · rw [scope_pushBlock_of_lt hlt]
    exact ⟨fun p hp => h.parent_lt hp, fun hpos => h.parent_ne_none hpos hlt⟩
  · obtain rfl : i = env.depth := by omega
    rw [scope_pushBlock_self]
    refine ⟨fun p hp => ?_, fun _ => Option.some_ne_none _⟩
    obtain rfl : env.current = p := Option.some.inj hp
    exact hcurrent

theorem current_pushBlock (env : Environment) : env.pushBlock.current = env.depth := by
  show env.pushBlock.depth - 1 = env.depth
  rw [depth_pushBlock]
  omega

theorem chain_pushBlock (h : env.Linked) : env.pushBlock.chain = env.depth :: env.chain := by
  have hparent : (env.pushBlock.scope env.depth).parent = some env.current := by
    rw [scope_pushBlock_self]
  have hcurrent := h.current_lt
  rw [chain_eq_chainAt h.pushBlock, current_pushBlock, chainAt_of_parent h.pushBlock hparent,
    chain_eq_chainAt h]
  congr 1
  refine chainAt_congr h h.pushBlock fun j hj => ?_
  rw [scope_pushBlock_of_lt (by omega)]

/-- A block takes no `var` declarations, so they land where they would have landed outside. -/
theorem varScope_pushBlock (h : env.Linked) : env.pushBlock.varScope = env.varScope := by
  obtain ⟨inner, hinner⟩ := h.chain_eq_append
  have hblock : takesVars (env.pushBlock.scope env.depth) = false := by
    rw [scope_pushBlock_self]
    rfl
  have hfind : env.chain.find? (fun i => takesVars (env.pushBlock.scope i)) =
      env.chain.find? fun i => takesVars (env.scope i) := by
    refine List.find?_congr fun i hi => ?_
    rw [scope_pushBlock_of_lt (h.lt_of_mem_chain hi)]
  unfold varScope
  rw [chain_pushBlock h, List.find?_cons_of_neg (by rw [hblock]; exact Bool.false_ne_true), hfind,
    hinner, ← List.cons_append, List.getLastD_concat, List.getLastD_concat]

/-- Leaving a scope cuts no chain: a scope is never the parent of one below it. -/
theorem Linked.pop (h : env.Linked) : env.pop.Linked := by
  by_cases hone : 1 < env.depth
  · have hdepth := depth_pop hone
    refine env.pop.linked_iff.2 ⟨by omega, fun i hi => ?_⟩
    have hlt : i < env.depth - 1 := by omega
    rw [scope_pop_of_lt hlt]
    exact ⟨fun p hp => h.parent_lt hp, fun hpos => h.parent_ne_none hpos (by omega)⟩
  · have hpop : env.pop = env := if_neg hone
    rw [hpop]
    exact h

/-! ## Calls -/

section Call

variable {f : Function} {self : Value}

theorem Linked.withCallDepth (h : env.Linked) (n : Nat) : { env with callDepth := n }.Linked :=
  ⟨h.nonempty, h.parent_lt, h.parent_ne_none⟩

theorem Linked.pushCall (h : env.Linked) (f : Function) (self : Value) :
    (env.pushCall f self).Linked := by
  have hpos := h.nonempty
  refine (env.pushCall f self).linked_iff.2 ⟨by rw [depth_pushCall]; omega, fun i hi => ?_⟩
  rw [depth_pushCall] at hi
  by_cases hlt : i < env.depth
  · rw [scope_pushCall_of_lt hlt]
    exact ⟨fun p hp => h.parent_lt hp, fun hpos => h.parent_ne_none hpos hlt⟩
  · by_cases hclosure : i = env.depth
    · subst hclosure
      rw [scope_pushCall_closure]
      refine ⟨fun p hp => ?_, fun _ => Option.some_ne_none _⟩
      obtain rfl : 0 = p := Option.some.inj hp
      exact hpos
    · obtain rfl : i = env.depth + 1 := by omega
      rw [scope_pushCall_function]
      refine ⟨fun p hp => ?_, fun _ => Option.some_ne_none _⟩
      obtain rfl : env.depth = p := Option.some.inj hp
      exact Nat.lt_succ_self _

theorem Linked.beginCall (h : env.Linked) (hcall : env.beginCall f self = .ok env') :
    env'.Linked := by
  obtain ⟨-, rfl⟩ := beginCall_ok hcall
  exact (h.withCallDepth _).pushCall f self

theorem current_beginCall (hcall : env.beginCall f self = .ok env') :
    env'.current = env.depth + 1 := by
  show env'.depth - 1 = env.depth + 1
  rw [depth_beginCall hcall]
  omega

/-- A call sees its own two scopes and the global one. -/
theorem chain_beginCall (h : env.Linked) (hcall : env.beginCall f self = .ok env') :
    env'.chain = [env.depth + 1, env.depth, 0] := by
  have h' := h.beginCall hcall
  have hfunction : (env'.scope (env.depth + 1)).parent = some env.depth := by
    rw [scope_beginCall_function hcall]
  have hclosure : (env'.scope env.depth).parent = some 0 := by
    rw [scope_beginCall_closure hcall]
  rw [chain_eq_chainAt h', current_beginCall hcall, chainAt_of_parent h' hfunction,
    chainAt_of_parent h' hclosure, chainAt_zero h']

/-- The `var` declarations of a call land in its own scope. -/
theorem varScope_beginCall (h : env.Linked) (hcall : env.beginCall f self = .ok env') :
    env'.varScope = env.depth + 1 := by
  have hfunction : takesVars (env'.scope (env.depth + 1)) = true := by
    rw [scope_beginCall_function hcall]
    rfl
  have hfind : env'.chain.find? (fun i => takesVars (env'.scope i)) = some (env.depth + 1) := by
    rw [chain_beginCall h hcall]
    exact List.find?_cons_of_pos hfunction
  rw [varScope, hfind]
  rfl

end Call

end Environment

end ReactiveScript
