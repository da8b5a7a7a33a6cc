/-!
# Outcomes

The result of a computation with a state: a value or an error, each with the state that is left, or
nothing because the steps allowed to it ran out.
-/

namespace ReactiveScript

/-- How a computation ended. -/
inductive Outcome (σ ε α : Type) where
  /-- With a value. -/
  | ok (value : α) (state : σ)
  /-- With an error. Effects up to it stay. -/
  | error (error : ε) (state : σ)
  /-- Not yet: more steps are needed. -/
  | exhausted

namespace Outcome

variable {σ ε α : Type}

/-- Changes the state that is left. -/
@[inline]
def mapState (f : σ → σ) : Outcome σ ε α → Outcome σ ε α
  | ok a s => ok a (f s)
  | error e s => error e (f s)
  | exhausted => exhausted

/-- Changes the error. -/
@[inline]
def mapError (f : ε → ε) : Outcome σ ε α → Outcome σ ε α
  | error e s => error (f e) s
  | outcome => outcome

end Outcome

end ReactiveScript
