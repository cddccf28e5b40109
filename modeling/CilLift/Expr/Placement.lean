import CilLift.Expr

/-!
Identities of nodes. Building a tree needs no identities; they are handed out when the tree is put
to use, to the nodes that have none. Two trees are structurally equal when they have one shape.
-/

namespace CilLift.Expr

mutual

/-- The tree without identities. -/
def shape : Expr → Expr
  | .constant header value => .constant { type := header.type } value
  | .parameter header slot name => .parameter { type := header.type } slot name
  | .var header number name => .var { type := header.type } number name
  | .unary header op operand => .unary { type := header.type } op operand.shape
  | .binary header op left right => .binary { type := header.type } op left.shape right.shape
  | .conditional header test onTrue onFalse =>
    .conditional { type := header.type } test.shape onTrue.shape onFalse.shape
  | .call header receiver method arguments =>
    .call { type := header.type } (receiverShape receiver) method (shapes arguments)
  | .new header constructor arguments =>
    .new { type := header.type } constructor (shapes arguments)
  | .field header receiver member =>
    .field { type := header.type } (receiverShape receiver) member
  | .index header items position => .index { type := header.type } items.shape position.shape
  | .array header elements => .array { type := header.type } (shapes elements)
  | .assign header target value => .assign { type := header.type } target.shape value.shape
  | .block header declarations statements =>
    .block { type := header.type } (shapes declarations) (shapes statements)
  | .typeIs header operand tested => .typeIs { type := header.type } operand.shape tested
  | .lambda header parameters body =>
    .lambda { type := header.type } (shapes parameters) body.shape
  | .invoke header target arguments =>
    .invoke { type := header.type } target.shape (shapes arguments)
  | .branch header number => .branch { type := header.type } number

def receiverShape : Option Expr → Option Expr
  | none => none
  | some receiver => some receiver.shape

def shapes : List Expr → List Expr
  | [] => []
  | expr :: rest => expr.shape :: shapes rest

end

mutual

/-- Gives identities from `next` on to the nodes without one, operands first, and returns the next
free identity. Below a placed node everything is placed. -/
def place (next : Nat) : Expr → Expr × Nat
  | .constant header value =>
    match header.id with
    | some _ => (.constant header value, next)
    | none => (.constant { header with id := some next } value, next + 1)
  | .parameter header slot name =>
    match header.id with
    | some _ => (.parameter header slot name, next)
    | none => (.parameter { header with id := some next } slot name, next + 1)
  | .var header number name =>
    match header.id with
    | some _ => (.var header number name, next)
    | none => (.var { header with id := some next } number name, next + 1)
  | .unary header op operand =>
    match header.id with
    | some _ => (.unary header op operand, next)
    | none =>
      let (operand, next) := operand.place next
      (.unary { header with id := some next } op operand, next + 1)
  | .binary header op left right =>
    match header.id with
    | some _ => (.binary header op left right, next)
    | none =>
      let (left, next) := left.place next
      let (right, next) := right.place next
      (.binary { header with id := some next } op left right, next + 1)
  | .conditional header test onTrue onFalse =>
    match header.id with
    | some _ => (.conditional header test onTrue onFalse, next)
    | none =>
      let (test, next) := test.place next
      let (onTrue, next) := onTrue.place next
      let (onFalse, next) := onFalse.place next
      (.conditional { header with id := some next } test onTrue onFalse, next + 1)
  | .call header receiver method arguments =>
    match header.id with
    | some _ => (.call header receiver method arguments, next)
    | none =>
      let (receiver, next) := placeReceiver next receiver
      let (arguments, next) := placeAll next arguments
      (.call { header with id := some next } receiver method arguments, next + 1)
  | .new header constructor arguments =>
    match header.id with
    | some _ => (.new header constructor arguments, next)
    | none =>
      let (arguments, next) := placeAll next arguments
      (.new { header with id := some next } constructor arguments, next + 1)
  | .field header receiver member =>
    match header.id with
    | some _ => (.field header receiver member, next)
    | none =>
      let (receiver, next) := placeReceiver next receiver
      (.field { header with id := some next } receiver member, next + 1)
  | .index header items position =>
    match header.id with
    | some _ => (.index header items position, next)
    | none =>
      let (items, next) := items.place next
      let (position, next) := position.place next
      (.index { header with id := some next } items position, next + 1)
  | .array header elements =>
    match header.id with
    | some _ => (.array header elements, next)
    | none =>
      let (elements, next) := placeAll next elements
      (.array { header with id := some next } elements, next + 1)
  | .assign header target value =>
    match header.id with
    | some _ => (.assign header target value, next)
    | none =>
      let (target, next) := target.place next
      let (value, next) := value.place next
      (.assign { header with id := some next } target value, next + 1)
  | .block header declarations statements =>
    match header.id with
    | some _ => (.block header declarations statements, next)
    | none =>
      let (declarations, next) := placeAll next declarations
      let (statements, next) := placeAll next statements
      (.block { header with id := some next } declarations statements, next + 1)
  | .typeIs header operand tested =>
    match header.id with
    | some _ => (.typeIs header operand tested, next)
    | none =>
      let (operand, next) := operand.place next
      (.typeIs { header with id := some next } operand tested, next + 1)
  | .lambda header parameters body =>
    match header.id with
    | some _ => (.lambda header parameters body, next)
    | none =>
      let (parameters, next) := placeAll next parameters
      let (body, next) := body.place next
      (.lambda { header with id := some next } parameters body, next + 1)
  | .invoke header target arguments =>
    match header.id with
    | some _ => (.invoke header target arguments, next)
    | none =>
      let (target, next) := target.place next
      let (arguments, next) := placeAll next arguments
      (.invoke { header with id := some next } target arguments, next + 1)
  | .branch header number =>
    match header.id with
    | some _ => (.branch header number, next)
    | none => (.branch { header with id := some next } number, next + 1)

def placeReceiver (next : Nat) : Option Expr → Option Expr × Nat
  | none => (none, next)
  | some receiver =>
    let (receiver, next) := receiver.place next
    (some receiver, next)

def placeAll (next : Nat) : List Expr → List Expr × Nat
  | [] => ([], next)
  | expr :: rest =>
    let (expr, next) := expr.place next
    let (rest, next) := placeAll next rest
    (expr :: rest, next)

end

mutual

/-- All nodes of a tree, the tree first. -/
def nodes : Expr → List Expr
  | .constant header value => [.constant header value]
  | .parameter header slot name => [.parameter header slot name]
  | .var header number name => [.var header number name]
  | .branch header number => [.branch header number]
  | .unary header op operand => .unary header op operand :: operand.nodes
  | .typeIs header operand tested => .typeIs header operand tested :: operand.nodes
  | .binary header op left right => .binary header op left right :: (left.nodes ++ right.nodes)
  | .conditional header test onTrue onFalse =>
    .conditional header test onTrue onFalse :: (test.nodes ++ onTrue.nodes ++ onFalse.nodes)
  | .call header receiver method arguments =>
    .call header receiver method arguments :: (nodesReceiver receiver ++ nodesAll arguments)
  | .new header constructor arguments => .new header constructor arguments :: nodesAll arguments
  | .field header receiver member => .field header receiver member :: nodesReceiver receiver
  | .index header items position =>
    .index header items position :: (items.nodes ++ position.nodes)
  | .array header elements => .array header elements :: nodesAll elements
  | .assign header target value => .assign header target value :: (target.nodes ++ value.nodes)
  | .block header declarations statements =>
    .block header declarations statements :: (nodesAll declarations ++ nodesAll statements)
  | .lambda header parameters body =>
    .lambda header parameters body :: (nodesAll parameters ++ body.nodes)
  | .invoke header target arguments =>
    .invoke header target arguments :: (target.nodes ++ nodesAll arguments)

def nodesReceiver : Option Expr → List Expr
  | none => []
  | some receiver => receiver.nodes

def nodesAll : List Expr → List Expr
  | [] => []
  | expr :: rest => expr.nodes ++ nodesAll rest

end

/-- The first identity above all those in the given trees. -/
def freeIdentity (exprs : List Expr) : Nat :=
  (nodesAll exprs).foldr (fun node bound => max (node.id?.elim 0 (· + 1)) bound) 0

end CilLift.Expr
