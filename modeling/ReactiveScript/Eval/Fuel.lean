import ReactiveScript.Eval.Statement

/-!
# Evaluation with fuel

The evaluator of level `n + 1` applies the rules once and leaves the parts to the evaluator of level
`n`; the evaluator of level zero has no steps left. A level bounds the nesting of an evaluation and
the rounds of its loops, so evaluation is total. An answer that is found does not change when more
fuel is given.
-/

namespace ReactiveScript

namespace Evaluator

/-- The evaluator that applies the rules once. -/
def next (ctx : Context) (ev : Evaluator) : Evaluator where
  expr := Rule.expr ctx ev
  stmt := Rule.stmt ctx ev
  block := Rule.block ev
  call := Rule.call ctx ev
  rounds := ev.rounds + 1

/-- The evaluator that always runs out of steps. -/
def empty : Evaluator where
  expr := fun _ => Eval.stop
  stmt := fun _ => Eval.stop
  block := fun _ => Eval.stop
  call := fun _ _ _ => Eval.stop
  rounds := 0

/-- The evaluator of a level. -/
def level (ctx : Context) : Nat → Evaluator
  | 0 => empty
  | n + 1 =>
    { expr := fun e s => Rule.expr ctx (level ctx n) e s
      stmt := fun st s => Rule.stmt ctx (level ctx n) st s
      block := fun body s => Rule.block (level ctx n) body s
      call := fun f args receiver s => Rule.call ctx (level ctx n) f args receiver s
      rounds := n + 1 }

/-- A level allows as many rounds as it has steps. -/
@[simp]
theorem rounds_level (ctx : Context) (n : Nat) : (level ctx n).rounds = n := by
  cases n <;> rfl

/-- A level applies the rules once to the level below. -/
theorem level_succ (ctx : Context) (n : Nat) : level ctx (n + 1) = next ctx (level ctx n) := by
  simp [level, next]

end Evaluator

end ReactiveScript
