import ReactiveScript.Eval.Outcome
import ReactiveScript.Schedule.Queue

/-!
# Draining a queue

Tasks run one after the other until none is waiting. A task may schedule and withdraw others; those
it schedules run in the same turn. Between tasks the drain stops if it was told to halt.
-/

namespace ReactiveScript

namespace TaskQueue

/-- Runs waiting tasks, at most `fuel` of them, and counts them. `take` removes the next task from a
state and `run` carries it out; it has no result if it ran out of steps itself. -/
def drain {σ ε τ : Type} (halted : σ → Bool) (halt : ε) (take : σ → Option (τ × σ))
    (run : τ → σ → Option σ) : (fuel : Nat) → (ran : Nat) → σ → Outcome σ ε Nat
  | 0, _, _ => .exhausted
  | fuel + 1, ran, s =>
    if halted s then .error halt s
    else
      match take s with
      | none => .ok ran s
      | some (task, s) =>
        match run task s with
        | some s => drain halted halt take run fuel (ran + 1) s
        | none => .exhausted

end TaskQueue

end ReactiveScript
