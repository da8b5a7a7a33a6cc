import ReactiveScript.Number.Basic
import ReactiveScript.Program.Mode
import ReactiveScript.Program.Operator
import ReactiveScript.Program.Span

/-!
# Syntax trees

Programs are lists of statements. Every statement and every expression is a node: a position and
what stands there.
-/

namespace ReactiveScript

/-- A literal. -/
inductive Literal where
  | null
  | bool (b : Bool)
  | number (n : Number)
  | string (s : String)
  deriving DecidableEq

/-- What an import statement binds. -/
inductive ImportSpecifier where
  /-- One export under a local name. -/
  | named (imported localName : String)
  /-- A record of all exports. -/
  | everything (localName : String)
  deriving DecidableEq, Repr

/-- The variable of a `for`-`in` or `for`-`of` loop. -/
structure LoopBinding where
  /-- The keyword, if the loop declares the variable. -/
  kind : Option DeclarationKind
  /-- The variable. -/
  name : String
  deriving DecidableEq, Repr

mutual

/-- An expression with its position. -/
inductive Expr where
  | node (span : Span) (kind : ExprKind)

/-- What an expression is. -/
inductive ExprKind where
  | literal (value : Literal)
  | ident (name : String)
  | this
  | list (items : List Expr)
  | record (entries : List (String × Expr))
  | function (name : Option String) (params : List String) (body : List Stmt)
  | unary (op : UnaryOp) (operand : Expr)
  /-- Counting; with `first` the result is the new value, otherwise the old one. -/
  | update (op : UpdateOp) (first : Bool) (target : Expr)
  | binary (op : BinaryOp) (left right : Expr)
  | logical (op : LogicalOp) (left right : Expr)
  | conditional (test consequent alternate : Expr)
  /-- Assignment, after applying an operator to the old value if one is given. -/
  | assign (op : Option BinaryOp) (target value : Expr)
  | member (object : Expr) (property : String)
  | index (object key : Expr)
  | call (callee : Expr) (args : List Expr)
  /-- A module loaded as a record. -/
  | importModule (source : Expr)

/-- A statement with its position. -/
inductive Stmt where
  | node (span : Span) (kind : StmtKind)

/-- What a statement is. -/
inductive StmtKind where
  | expression (e : Expr)
  | declare (kind : DeclarationKind) (declarators : List (String × Option Expr))
  | function (name : Option String) (params : List String) (body : List Stmt)
  | block (body : List Stmt)
  | ifElse (test : Expr) (consequent : Stmt) (alternate : Option Stmt)
  | whileLoop (test : Expr) (body : Stmt)
  | doWhile (body : Stmt) (test : Expr)
  | forLoop (init : Option Stmt) (test update : Option Expr) (body : Stmt)
  | forIn (binding : LoopBinding) (object : Expr) (body : Stmt)
  | forOf (binding : LoopBinding) (iterable : Expr) (body : Stmt)
  /-- Cases in order; a case without a test is a default. -/
  | switch (discriminant : Expr) (cases : List (Option Expr × List Stmt))
  /-- A block, a handler with an optional parameter, and a finalizer. -/
  | tryCatch (block : List Stmt) (handler : Option (Option String × List Stmt))
      (finalizer : Option (List Stmt))
  | throw (value : Expr)
  | ret (value : Option Expr)
  | breakLoop
  | continueLoop
  /-- A guarded body: if the guard holds, the rest of the enclosing list is skipped. -/
  | whenGuard (test : Expr) (body : List Stmt)
  | otherwise (body : List Stmt)
  | observe (targets : List String) (handler : Expr)
  | importNames (specifiers : List ImportSpecifier) (source : String)
  | exported (declaration : Stmt)
  | empty

end

namespace Expr

/-- The position of an expression. -/
def span : Expr → Span
  | node s _ => s

/-- What stands at an expression. -/
def kind : Expr → ExprKind
  | node _ k => k

/-- An expression without a position. -/
def of (k : ExprKind) : Expr := node .unknown k

/-- The expression at another position. -/
def withSpan (e : Expr) (s : Span) : Expr := node s e.kind

end Expr

namespace Stmt

/-- The position of a statement. -/
def span : Stmt → Span
  | node s _ => s

/-- What stands at a statement. -/
def kind : Stmt → StmtKind
  | node _ k => k

/-- A statement without a position. -/
def of (k : StmtKind) : Stmt := node .unknown k

/-- The statement at another position. -/
def withSpan (stmt : Stmt) (s : Span) : Stmt := node s stmt.kind

end Stmt

/-- The name of a kind of statement in trace events. -/
def StmtKind.name : StmtKind → String
  | expression .. => "expression"
  | declare .. => "declaration"
  | function .. => "function"
  | block .. => "block"
  | ifElse .. => "if"
  | whileLoop .. => "while"
  | doWhile .. => "do-while"
  | forLoop .. => "for"
  | forIn .. => "for-in"
  | forOf .. => "for-of"
  | switch .. => "switch"
  | tryCatch .. => "try"
  | throw .. => "throw"
  | ret .. => "return"
  | breakLoop => "break"
  | continueLoop => "continue"
  | whenGuard .. => "when"
  | otherwise .. => "otherwise"
  | observe .. => "observe"
  | importNames .. => "import"
  | exported .. => "export"
  | empty => "empty"

/-! ## Abbreviated forms -/

/-- An anonymous function whose body returns one expression. -/
def ExprKind.arrow (params : List String) (result : Expr) : ExprKind :=
  .function none params [Stmt.of (.ret (some result))]

/-- A call of a member of an object. -/
def ExprKind.methodCall (object : Expr) (method : String) (args : List Expr) : ExprKind :=
  .call (Expr.of (.member object method)) args

/-- A statement that writes its arguments to the console. -/
def StmtKind.print (args : List Expr) : StmtKind :=
  .expression (Expr.of (.methodCall (Expr.of (.ident "console")) "log" args))

end ReactiveScript
