import CilLift.Machine

/-! Calls, constructions and delegates. -/

namespace CilLift

namespace Machine

/-- The call for the shared empty array, where an array of arguments is expected. -/
def emptyArrayArgument (parameter : Parameter) (value : Expr) : Expr :=
  match value with
  | .call _ _ callee _ =>
    if parameter.isParamArray && callee.flags.isArrayEmpty then
      .mkArray value.type.elementOrObject []
    else value
  | _ => value

/-- An argument as a value of its parameter's type. -/
def popArgument (stack : StackId) (parameter : Parameter) : Run Expr := do
  let value := emptyArrayArgument parameter (← pop stack "call argument")
  if parameter.type = .nativeInt ∧ value.type = .methodHandle then return value
  else value.coerce parameter.type

/-- The arguments of a call, the last of which is on top. -/
def popArguments (stack : StackId) (method : Method) : Run (List Expr) := do
  let arguments ← method.parameters.reverse.mapM (popArgument stack)
  return arguments.reverse

/-- Lifts the body of a delegate as a function of the given type. -/
def inlineBody (task : Task) (method : Method) (body : MethodBody) (target : Option Expr)
    (type : TypeSig) : Run Expr := do
  let (tree, nextNode) ←
    task.liftNested (← get).workspace.emission.nextNode method body target
  work (Work.emit fun emission => ((), { emission with nextNode }))
  modify fun machine =>
    { machine with notCacheable := machine.notCacheable || tree.notCacheable }
  return tree.toLambda type

/-- The body of a delegate's method, where delegates are followed. -/
def delegateBody (task : Task) (method : Method) : Except Error (Option MethodBody) :=
  if task.options.inlineDelegates then task.resolver.methodBody method else .ok none

/-- What a delegate expression holds, where delegates are followed. -/
def capturedDelegate (task : Task) (expr : Expr) : Except Error (Option DelegateTarget) :=
  if task.options.inlineDelegates then task.resolver.capturedDelegate expr else .ok none

/-- The object of a constructor call; a delegate whose body is known becomes a function. -/
def construct (task : Task) (constructor : Method) (arguments : List Expr) : Run Expr :=
  if constructor.isDelegateConstructor then
    match arguments with
    | [target, handle] =>
      match handle with
      | .constant _ (.method method) => do
        match ← delegateBody task method with
        | some body =>
          inlineBody task method body (if method.isStatic then none else some target)
            constructor.declaringType
        | none => return .mkNew constructor arguments
      | _ => throw (.shape (.delegateWithoutHandle constructor))
    | _ => throw (.shape (.delegateArgumentCount constructor arguments.length))
  else return .mkNew constructor arguments

/-- The object that a captured delegate runs on, as a tree of this method. -/
def capturedReceiver (delegate : DelegateTarget) : Run (Option Expr) :=
  match delegate.target with
  | some receiver => do return some (← work (Work.place receiver.shape))
  | none => return none

/-- Runs what a captured delegate holds. -/
def invokeCaptured (task : Task) (method : Method) (target : Expr) (arguments : List Expr)
    (delegate : DelegateTarget) : Run Expr := do
  modify fun machine => { machine with notCacheable := true }
  match ← task.resolver.methodBody delegate.method with
  | none => throw (.delegateWithoutBody target.text delegate.method)
  | some body =>
    let receiver ← capturedReceiver delegate
    let lambda ← inlineBody task delegate.method body receiver target.type
    return .mkInvoke lambda arguments method.returnType

/-- The invocation of a delegate. -/
def invokeDelegate (task : Task) (method : Method) (target : Expr) (arguments : List Expr) :
    Run Expr := do
  match target with
  | .lambda .. => return .mkInvoke target arguments method.returnType
  | _ =>
    match ← capturedDelegate task target with
    | some delegate => invokeCaptured task method target arguments delegate
    | none => return .mkCall (some target) method arguments

def call (task : Task) (method : Method) (target : Option Expr) (arguments : List Expr) : Run Expr :=
  match target with
  | some target =>
    if method.isDelegateInvoke then invokeDelegate task method target arguments
    else return .mkCall (some target) method arguments
  | none => return .mkCall none method arguments

/-- The receiver of a call, below its arguments. -/
def popReceiver (stack : StackId) (method : Method) : Run (Option Expr) :=
  if method.isStatic then return none else do return some (← pop stack "call instance")

/-- What an instruction on a method leaves. -/
def methodValue (task : Task) (stack : StackId) (opcode : Opcode) (method : Method) : Run Expr :=
  match opcode with
  | .ldftn => return .mkConstant (.method method) .methodHandle
  | .ldvirtftn => do
    let _ ← pop stack "ldvirtftn"
    return .mkConstant (.method method) .methodHandle
  | .newobj => do construct task method (← popArguments stack method)
  | .call | .callvirt => do
    let arguments ← popArguments stack method
    let target ← popReceiver stack method
    call task method target arguments
  | other => unsupported other

def runMethod (task : Task) (stack : StackId) (opcode : Opcode) (method : Method) : Run Unit := do
  let value ← methodValue task stack opcode method
  if value.isVoid then statement value else push stack value

end Machine

end CilLift
