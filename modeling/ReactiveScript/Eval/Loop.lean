import ReactiveScript.Eval.Variable

/-!
# Loops

Every round of a loop starts with a check for interruption. A `break` ends the innermost loop, a
`continue` its round, and a `return` passes through.
-/

namespace ReactiveScript

namespace Rule

/-- What the completion of a loop's body means for the loop: whether it goes on, or how it ends. -/
def afterBody : Completion → Eval.Round
  | .normal _ | .continued => .again
  | .broke => .finish .done
  | .returned v => .finish (.returned v)

/-- One more round as long as a test holds. -/
def whileTrue (ev : Evaluator) (test : Expr) (continuing : Eval Eval.Round) : Eval Eval.Round := do
  let v ← ev.expr test
  if v.isTruthy then continuing else pure (.finish .done)

/-- The body of a loop. -/
def loopBody (ev : Evaluator) (body : Stmt) : Eval Eval.Round := do
  let completion ← ev.stmt body
  pure (afterBody completion)

/-- The body of a loop, and then something else if the loop goes on. -/
def bodyThen (ev : Evaluator) (body : Stmt) (continuing : Eval Eval.Round) : Eval Eval.Round := do
  let round ← loopBody ev body
  match round with
  | .again => continuing
  | .finish completion => pure (.finish completion)

/-- Executes a `while` loop. -/
def whileLoop (ev : Evaluator) (test : Expr) (body : Stmt) : Eval Completion :=
  Eval.repeating (do
    Eval.checkInterrupt
    whileTrue ev test (loopBody ev body)) ev.rounds

/-- Executes a `do`-`while` loop. -/
def doWhile (ev : Evaluator) (body : Stmt) (test : Expr) : Eval Completion :=
  Eval.repeating (do
    Eval.checkInterrupt
    bodyThen ev body (whileTrue ev test (pure .again))) ev.rounds

/-- Runs the update of a `for` loop before the next round. -/
def forUpdate (ev : Evaluator) : Option Expr → Eval Eval.Round
  | none => pure .again
  | some e => do
    let _ ← ev.expr e
    pure .again

/-- One round of a `for` loop. A missing test holds. -/
def forRound (ev : Evaluator) (test update : Option Expr) (body : Stmt) : Eval Eval.Round := do
  Eval.checkInterrupt
  match test with
  | none => bodyThen ev body (forUpdate ev update)
  | some test => whileTrue ev test (bodyThen ev body (forUpdate ev update))

/-- Executes a `for` loop, in a block that holds its variables. -/
def forLoop (ev : Evaluator) (init : Option Stmt) (test update : Option Expr) (body : Stmt) :
    Eval Completion :=
  Eval.inBlock do
    match init with
    | none => Eval.repeating (forRound ev test update body) ev.rounds
    | some init => do
      let _ ← ev.stmt init
      Eval.repeating (forRound ev test update body) ev.rounds

/-- Gives an item to the variable of a loop. A declared variable is set; any other is assigned to,
which its observers notice. -/
def bindItem (binding : LoopBinding) (item : Value) : Eval Unit :=
  match binding.kind with
  | some _ => Eval.modifyEnv fun env => env.setLocal binding.name item
  | none => assignVariable binding.name item

/-- One round of a loop over items. -/
def itemRound (ev : Evaluator) (binding : LoopBinding) (body : Stmt) (item : Value) :
    Eval Eval.Round := do
  Eval.checkInterrupt
  bindItem binding item
  loopBody ev body

/-- Executes a loop over items that were fixed when it started. -/
def iterate (ev : Evaluator) (binding : LoopBinding) (items : List Value) (body : Stmt) :
    Eval Completion :=
  Eval.inBlock do
    match binding.kind with
    | some kind => do
      Eval.modifyEnv fun env => env.define binding.name .null kind.mode
      Eval.forEach (itemRound ev binding body) items
    | none => Eval.forEach (itemRound ev binding body) items

/-- The strings `0`, `1` and so on below a bound. -/
def indexStrings (n : Nat) : List Value := (List.range n).map fun i => .string i.repr

/-- The keys that a `for`-`in` loop visits. -/
def keysOf (ctx : Context) (st : Store) : Value → List Value
  | .record ref => (OrderedMap.keys (st.record ref)).map .string
  | .list ref => indexStrings (st.list ref).size
  | .string s => indexStrings s.length
  | .host ref => indexStrings ((ctx.library.enumerate? st ref).getD []).length
  | _ => []

/-- The values that a `for`-`of` loop visits. -/
def itemsOf (ctx : Context) (st : Store) : Value → Except Cause (List Value)
  | .list ref => .ok (st.list ref).toList
  | .string s => .ok (s.toList.map fun c => .string (String.singleton c))
  | .host ref =>
    match ctx.library.enumerate? st ref with
    | some items => .ok items
    | none => .error (.notIterable (st.host ref).typeName)
  | other => .error (.notIterable other.typeName)

/-- Executes a `for`-`in` loop. -/
def forIn (ctx : Context) (ev : Evaluator) (binding : LoopBinding) (object : Expr) (body : Stmt) :
    Eval Completion := do
  let v ← ev.expr object
  let st ← Eval.store
  iterate ev binding (keysOf ctx st v) body

/-- Executes a `for`-`of` loop. -/
def forOf (ctx : Context) (ev : Evaluator) (binding : LoopBinding) (iterable : Expr)
    (body : Stmt) : Eval Completion := do
  let v ← ev.expr iterable
  let st ← Eval.store
  let items ← Eval.ofExcept (itemsOf ctx st v)
  iterate ev binding items body

end Rule

end ReactiveScript
