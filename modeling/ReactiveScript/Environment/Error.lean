/-!
# What can go wrong with bindings
-/

namespace ReactiveScript

/-- Why an operation on an environment was refused. -/
inductive BindingError where
  /-- The scope holds the name already. -/
  | duplicate (name : String)
  /-- An assignment to a name that is not bound. -/
  | undeclared (name : String)
  /-- An assignment to a constant. -/
  | immutable (name : String)
  /-- An observer for a name that is not bound. -/
  | unobservable (name : String)
  /-- A call beyond the limit. -/
  | stackOverflow (depth max : Nat)
  deriving DecidableEq, Repr

/-- The wording of a refusal. -/
def BindingError.message : BindingError → String
  | duplicate name => "`" ++ name ++ "` has already been declared in this scope"
  | undeclared name => "assignment to undeclared variable `" ++ name ++ "`"
  | immutable name => "assignment to constant `" ++ name ++ "`"
  | unobservable name => "cannot observe undeclared variable `" ++ name ++ "`"
  | stackOverflow depth max =>
    "stack overflow: call depth " ++ depth.repr ++ " exceeds limit " ++ max.repr

end ReactiveScript
