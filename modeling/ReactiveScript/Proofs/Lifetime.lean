import ReactiveScript.Proofs.Dispatch
import ReactiveScript.Proofs.MapKeys
import ReactiveScript.Proofs.ScopeDiscipline
import ReactiveScript.Proofs.Steps

/-!
# Lifetimes of bindings

A binding lives until its scope is left, until another binding of its name takes its place, or until
the environment is cleared. As long as it lives it keeps its mode, its position and its observers. An
evaluation ends the life of no binding that it found, whatever it enters and leaves on the way.
-/

namespace ReactiveScript

namespace Environment

/-- Whether a step that may take something away spares the binding of a name in a scope. -/
def Loss.Spares (env : Environment) (i : Nat) (name : String) : Loss → Prop
  | .nothing => True
  | .scope => i + 1 < env.depth ∨ env.depth ≤ 1
  | .binding replaced => i = env.current → replaced ≠ name
  | .everything => False

/-- Elementary steps that spare certain bindings. -/
abbrev SparingSteps (kept : Nat → String → Prop) : Environment → Environment → Prop :=
  Relation.ReflTransGen fun env env' =>
    ∃ loss, Step (fun _ => True) env loss env' ∧ ∀ i name, kept i name → loss.Spares env i name

variable {kept kept' : Nat → String → Prop} {env env' : Environment} {i n : Nat} {name : String}
  {b : Binding}

theorem SparingSteps.mono (h : SparingSteps kept env env')
    (hkept : ∀ i name, kept' i name → kept i name) : SparingSteps kept' env env' :=
  h.lift id fun _ _ ⟨loss, hstep, hspares⟩ =>
    ⟨loss, hstep, fun i name hi => hspares i name (hkept i name hi)⟩

theorem QuietSteps.sparing (h : QuietSteps (fun _ => True) env env') : SparingSteps kept env env' :=
  h.lift id fun _ _ hstep => ⟨.nothing, hstep, fun _ _ _ => trivial⟩

/-! ## What becomes of a binding that lives -/

/-- A change of one scope that retains a binding where it is made. -/
theorem retains_modifyScope {j : Nat} {f : OrderedMap Binding → OrderedMap Binding}
    (hb : OrderedMap.find? (env.scope i).bindings name = some b)
    (hf : i = j → ∃ b', OrderedMap.find? (f (env.scope i).bindings) name = some b' ∧
      b.Retains b') :
    ∃ b', OrderedMap.find? ((env.modifyScope j f).scope i).bindings name = some b' ∧
      b.Retains b' := by
  by_cases hj : i = j
  · subst hj
    rw [scope_modifyScope_self (lt_depth_of_find? hb)]
    exact hf rfl
  · rw [scope_modifyScope_ne hj]
    exact ⟨b, hb, .refl b⟩

theorem retains_adjust {bindings : OrderedMap Binding} {adjusted : String} {f : Binding → Binding}
    (hf : ∀ b : Binding, b.Retains (f b)) (hb : OrderedMap.find? bindings name = some b) :
    ∃ b', OrderedMap.find? (OrderedMap.adjust bindings adjusted f) name = some b' ∧
      b.Retains b' := by
  by_cases hname : name = adjusted
  · subst hname
    rw [OrderedMap.find?_adjust_self, hb]
    exact ⟨f b, rfl, hf b⟩
  · rw [OrderedMap.find?_adjust_ne hname]
    exact ⟨b, hb, .refl b⟩

/-- A step retains the bindings that it spares. -/
theorem Step.retains {called : Function → Prop} {loss : Loss} (h : Step called env loss env')
    (hspares : loss.Spares env i name)
    (hb : OrderedMap.find? (env.scope i).bindings name = some b) :
    ∃ b', OrderedMap.find? (env'.scope i).bindings name = some b' ∧ b.Retains b' := by
  have hlt := lt_depth_of_find? hb
  cases h with
  | block =>
    rw [scope_pushBlock_of_lt hlt]
    exact ⟨b, hb, .refl b⟩
  | call self =>
    rw [scope_pushCall_of_lt hlt]
    exact ⟨b, hb, .refl b⟩
  | leave =>
    rcases hspares with hinner | hone
    · rw [scope_pop_of_lt (by omega)]
      exact ⟨b, hb, .refl b⟩
    · have hpop : env.pop = env := if_neg (Nat.not_lt.2 hone)
      rw [hpop]
      exact ⟨b, hb, .refl b⟩
  | count => exact ⟨b, hb, .refl b⟩
  | adjust j adjusted hf => exact retains_modifyScope hb fun _ => retains_adjust hf hb
  | append j b' =>
    exact retains_modifyScope hb fun _ => ⟨b, OrderedMap.find?_append hb _, .refl b⟩
  | put replaced b' =>
    refine retains_modifyScope hb fun hcurrent => ⟨b, ?_, .refl b⟩
    rw [OrderedMap.find?_put_ne (Ne.symm (hspares hcurrent)), hb]
  | clear => exact hspares.elim

/-- A binding that is spared step by step is retained, by induction on the steps. -/
theorem SparingSteps.retains (h : SparingSteps kept env env') (hkept : kept i name)
    (hb : OrderedMap.find? (env.scope i).bindings name = some b) :
    ∃ b', OrderedMap.find? (env'.scope i).bindings name = some b' ∧ b.Retains b' := by
  induction h with
  | refl => exact ⟨b, hb, .refl b⟩
  | tail _ hlast ih =>
    obtain ⟨b₁, hb₁, hretains₁⟩ := ih
    obtain ⟨loss, hstep, hspares⟩ := hlast
    obtain ⟨b₂, hb₂, hretains₂⟩ := hstep.retains (hspares i name hkept) hb₁
    exact ⟨b₂, hb₂, hretains₁.trans hretains₂⟩

/-- No step takes away the global scope. -/
theorem Step.depth_pos {called : Function → Prop} {loss : Loss} (h : Step called env loss env')
    (henv : 0 < env.depth) : 0 < env'.depth := by
  cases h with
  | block =>
    rw [depth_pushBlock]
    exact Nat.succ_pos _
  | call self =>
    rw [depth_pushCall]
    exact Nat.succ_pos _
  | leave =>
    by_cases hone : 1 < env.depth
    · rw [depth_pop hone]
      omega
    · have hpop : env.pop = env := if_neg hone
      rw [hpop]
      exact henv
  | count => exact henv
  | adjust | append | put =>
    rw [depth_modifyScope]
    exact henv
  | clear => exact Nat.one_pos

theorem SparingSteps.depth_pos (h : SparingSteps kept env env') (henv : 0 < env.depth) :
    0 < env'.depth := by
  induction h with
  | refl => exact henv
  | tail _ hlast ih =>
    obtain ⟨loss, hstep, -⟩ := hlast
    exact hstep.depth_pos ih

/-! ## Scopes below a depth -/

/-- Steps that spare all bindings of the scopes below a depth. -/
abbrev SparingBelow (n : Nat) : Environment → Environment → Prop := SparingSteps fun i _ => i < n

theorem SparingBelow.leave (h : n < env.depth) : SparingBelow n env env.pop :=
  .single ⟨.scope, .leave, fun i _ hi => Or.inl (by omega)⟩

theorem SparingBelow.define (h : n < env.depth) (name : String) (v : Value) (mode : Mode) :
    SparingBelow n env (env.define name v mode) := by
  refine .single ⟨.binding name, .put name _, fun i _ hi hcurrent => ?_⟩
  have hlast : i = env.depth - 1 := hcurrent
  omega

theorem SparingBelow.endCall (h : n + 1 < env.depth) : SparingBelow n env env.endCall := by
  have hdepth : env.pop.depth = env.depth - 1 := depth_pop (by omega)
  have hfirst : SparingBelow n env env.pop := .leave (by omega)
  have hsecond : SparingBelow n env.pop env.pop.pop := .leave (by omega)
  exact (hfirst.trans hsecond).trans (quietSteps_exitCall _).sparing

end Environment

/-! ## Runs -/

open Environment

/-- How deep the scopes reach that a run leaves alone: the owner of the innermost scope may replace
what is in it. -/
def Reach.spared (r : Reach) (env : Environment) : Nat :=
  match r with
  | .owner => env.depth - 1
  | _ => env.depth

/-- A run comes down to steps that spare all scopes below a depth, and each of its changes happens
after such steps. -/
structure Spared (n : Nat) (s : State) (changes : List Change) (s' : State) : Prop where
  depth : s'.env.depth = s.env.depth
  steps : SparingBelow n s.env s'.env
  changes {c : Change} : c ∈ changes → ∃ s₁ s₂, SparingBelow n s.env s₁.env ∧ c.Happens s₁ s₂

namespace Spared

variable {n k : Nat} {s s' s₁ : State} {changes changes' : List Change}

/-- A run without changes. -/
theorem of_quiet (hdepth : s'.env.depth = s.env.depth)
    (hsteps : QuietSteps (fun _ => True) s.env s'.env) : Spared n s [] s' where
  depth := hdepth
  steps := hsteps.sparing
  changes hc := by cases hc

theorem mono (h : Spared k s changes s') (hle : n ≤ k) : Spared n s changes s' where
  depth := h.depth
  steps := h.steps.mono fun _ _ hi => Nat.lt_of_lt_of_le hi hle
  changes hc := by
    obtain ⟨s₁, s₂, hsteps, hhappens⟩ := h.changes hc
    exact ⟨s₁, s₂, hsteps.mono fun _ _ hi => Nat.lt_of_lt_of_le hi hle, hhappens⟩

theorem trans (h : Spared n s changes s₁) (h' : Spared n s₁ changes' s') :
    Spared n s (changes ++ changes') s' where
  depth := h'.depth.trans h.depth
  steps := h.steps.trans h'.steps
  changes hc := by
    rcases List.mem_append.1 hc with hc | hc
    · exact h.changes hc
    · obtain ⟨s₂, s₃, hsteps, hhappens⟩ := h'.changes hc
      exact ⟨s₂, s₃, h.steps.trans hsteps, hhappens⟩

/-- What happens between entering and leaving scopes. -/
theorem bracket {env : Environment} {leave : Environment → Environment}
    (h : Spared n { s with env } changes s') (henter : SparingBelow n s.env env)
    (hleave : SparingBelow n s'.env (leave s'.env))
    (hdepth : (leave s'.env).depth = s.env.depth) :
    Spared n s changes { s' with env := leave s'.env } where
  depth := hdepth
  steps := (henter.trans h.steps).trans hleave
  changes hc := by
    obtain ⟨s₁, s₂, hsteps, hhappens⟩ := h.changes hc
    exact ⟨s₁, s₂, henter.trans hsteps, hhappens⟩

end Spared

/-- A run spares what it found, by induction on the run. -/
theorem Run.spared {r : Reach} {s s' : State} {changes : List Change} (h : Run r s changes s')
    (hdepth : 0 < s.env.depth) : Spared (r.spared s.env) s changes s' := by
  induction h with
  | still henv _ =>
    refine .of_quiet (by rw [henv]) ?_
    rw [henv]
  | @change c s s' h =>
    obtain ⟨i, b, -, -, -, -, -, -, -, henv⟩ := h.assigned
    have hstep : QuietSteps (fun _ => True) s.env s'.env := by
      rw [henv]
      exact .single (.adjust i _ fun b => b.retains_value _)
    refine ⟨?_, hstep.sparing, fun hc => ?_⟩
    · rw [henv, depth_modifyScope]
    · obtain rfl := List.mem_singleton.1 hc
      exact ⟨s, s', .refl, h⟩
  | @register s env targets handler h =>
    refine .of_quiet ?_ (quietSteps_register h)
    exact (SameShape.law.register hdepth h).depth
  | @declare s env mode name v span h =>
    refine .of_quiet ?_ (quietSteps_declare h)
    obtain ⟨-, rfl⟩ := declare_ok h
    exact depth_modifyScope _ _ _
  | define s name v mode =>
    have hlt : s.env.depth - 1 < s.env.depth := by omega
    exact ⟨depth_modifyScope _ _ _, .define hlt name v mode, fun hc => by cases hc⟩
  | setLocal s name v => exact .of_quiet (depth_modifyScope _ _ _) (quietSteps_setLocal _ _ _)
  | @block s s' changes h ih =>
    have hinner : Spared s.env.depth { s with env := s.env.pushBlock } changes s' := by
      refine (ih ?_).mono ?_
      · rw [depth_pushBlock]
        omega
      · show s.env.depth ≤ s.env.pushBlock.depth - 1
        rw [depth_pushBlock]
        omega
    have hs' : s'.env.depth = s.env.depth + 1 := hinner.depth.trans (depth_pushBlock _)
    refine hinner.bracket (.single ⟨.nothing, .block, fun _ _ _ => trivial⟩)
      (.leave (by omega)) ?_
    rw [depth_pop (by omega), hs']
    omega
  | @call s s' env changes f self hcall h ih =>
    have henv := depth_beginCall hcall
    have hinner : Spared s.env.depth { s with env } changes s' := by
      refine (ih ?_).mono ?_
      · show 0 < env.depth
        omega
      · show s.env.depth ≤ env.depth - 1
        omega
    have hs' : s'.env.depth = s.env.depth + 2 := hinner.depth.trans henv
    refine hinner.bracket (quietSteps_beginCall trivial hcall).sparing (.endCall (by omega)) ?_
    rw [depth_endCall (by omega), hs']
    omega
  | ofCall _ ih => exact ih hdepth
  | ofExpression _ ih => exact ih hdepth
  | ofStatement _ ih => exact (ih hdepth).mono (Nat.sub_le _ 1)
  | @trans r s s₁ s₂ changes changes' h h' ih ih' =>
    have hfirst := ih hdepth
    have hspared : r.spared s₁.env = r.spared s.env := by
      unfold Reach.spared
      rw [hfirst.depth]
    have hsecond := ih' (by rw [hfirst.depth]; exact hdepth)
    rw [hspared] at hsecond
    exact hfirst.trans hsecond

end ReactiveScript
