/-!
# Declaration modes
-/

namespace ReactiveScript

/-- How a name was declared. -/
inductive Mode where
  /-- Declared by `var`, and parameters. -/
  | mutable
  /-- Declared by `let`, and catch parameters. -/
  | blockMutable
  /-- Declared by `const`, imports, and `this`. -/
  | immutable
  /-- Declared by a function declaration, and a function's own name. -/
  | function
  deriving DecidableEq, Repr

/-- Whether a binding of this mode can be assigned to. -/
def Mode.isMutable (m : Mode) : Bool := m != .immutable

/-- The keyword of a declaration. -/
inductive DeclarationKind where
  /-- `var`: the name belongs to the enclosing function. -/
  | functionScoped
  /-- `let`: the name belongs to the enclosing block. -/
  | blockScoped
  /-- `const`: like `let`, and the name cannot be assigned to. -/
  | constant
  deriving DecidableEq, Repr

/-- The mode of the names that a declaration introduces. -/
def DeclarationKind.mode : DeclarationKind → Mode
  | functionScoped => .mutable
  | blockScoped => .blockMutable
  | constant => .immutable

end ReactiveScript
