import ReactiveScript.Eval.Evaluator

/-!
# Modules
-/

namespace ReactiveScript

namespace Rule

/-- The exports of a module. -/
def loadModule (ctx : Context) (path : String) : Eval Exports :=
  match ctx.modules with
  | none => Eval.raise (.moduleLoad path "no module loader configured")
  | some modules => do
    Eval.emit (.loading path)
    match OrderedMap.find? modules path with
    | some exports => pure exports
    | none => Eval.raise (.moduleLoad path ("no module registered at `" ++ path ++ "`"))

/-- A new record of all exports. -/
def namespaceOf (exports : Exports) : Eval Value :=
  Eval.allocate fun st => st.newRecord (OrderedMap.ofEntries exports)

/-- The value of one import. -/
def importValue (source : String) (exports : Exports) : ImportSpecifier → Eval Value
  | .named imported _ =>
    match OrderedMap.find? exports imported with
    | some v => pure v
    | none => Eval.raise (.moduleLoad source ("module does not export `" ++ imported ++ "`"))
  | .everything _ => namespaceOf exports

/-- The name that an import binds. -/
def importName : ImportSpecifier → String
  | .named _ localName => localName
  | .everything localName => localName

/-- Binds imports one after the other, as constants. -/
def bindImports (span : Span) (source : String) (exports : Exports) :
    List ImportSpecifier → Eval Completion
  | [] => pure .done
  | specifier :: rest => do
    let v ← importValue source exports specifier
    Eval.tryEnv fun env => env.declare .immutable (importName specifier) v (some span)
    bindImports span source exports rest

/-- Executes an import statement. -/
def importNames (ctx : Context) (span : Span) (specifiers : List ImportSpecifier)
    (source : String) : Eval Completion := do
  let exports ← loadModule ctx source
  bindImports span source exports specifiers

/-- Evaluates a dynamic import. -/
def importModule (ctx : Context) (ev : Evaluator) (source : Expr) : Eval Value := do
  let path ← ev.expr source
  let st ← Eval.store
  let exports ← loadModule ctx (path.display st)
  namespaceOf exports

/-- The names that an exported statement makes known. -/
def exportedNames (stmt : Stmt) : List String :=
  match stmt.kind with
  | .declare _ declarators => declarators.map Prod.fst
  | .function name _ _ => name.toList
  | .expression e =>
    match e.kind with
    | .ident name => [name]
    | _ => []
  | _ => []

/-- Executes an exported statement and records its names. -/
def exported (ev : Evaluator) (stmt : Stmt) : Eval Completion := do
  let completion ← ev.stmt stmt
  fun s => .ok completion { s with exports := s.exports ++ exportedNames stmt }

end Rule

end ReactiveScript
