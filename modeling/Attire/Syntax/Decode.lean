import Attire.Json.Decode
import Attire.Json.Read
import Attire.Syntax.Basic

namespace Attire

/-! Reading syntax trees from their JSON form, `{type, children}` for every node. -/

namespace Syntax

open Json (Decoder Fields Node asText asBool asNumber asNatural asList asName asRecord)

def asNode : Decoder Node := Json.asNode "type" "children"

def asPath : Decoder Path := asList asText

def asSpan : Decoder Span := fun room json => do
  let fields ← asRecord ["start", "end", "line", "column"] room json
  return {
    start := ← fields.withDefault "start" (asNatural UInt64.size) 0
    stop := ← fields.withDefault "end" (asNatural UInt64.size) 0
    line := ← fields.withDefault "line" (asNatural UInt32.size) 0
    column := ← fields.withDefault "column" (asNatural UInt32.size) 0 }

def spanOf (fields : Fields) : Option Span := fields.withDefault "span" asSpan {}

/-- Types, to a nesting of at most `steps`. -/
def asType : Nat → Decoder TypeExpr
  | 0 => fun _ _ => none
  | steps + 1 => fun room json => do
    let node ← asNode room json
    match node.tag with
    | "num" => node.unit .num
    | "string" => node.unit .text
    | "bool" => node.unit .bool
    | "void" => node.unit .void
    | "suggestion" => node.unit .suggestion
    | "array" =>
      let fields ← node.fields
      return .array (← fields.required "element" (asType steps))
    | "set" =>
      let fields ← node.fields
      return .set (← fields.required "element" (asType steps))
    | "map" =>
      let fields ← node.fields
      return .map (← fields.required "key" (asType steps))
        (← fields.required "value" (asType steps))
    | "tuple" =>
      let fields ← node.fields
      return .tuple (← fields.required "elements" (asList (asType steps)))
    | "named" =>
      let fields ← node.fields
      return .named (← fields.required "path" asPath)
    | _ => none

/-- A container at least stands around every node, so this nesting is never passed. -/
def levels : Nat := Json.depthLimit + 1

def asTypeExpr : Decoder TypeExpr := asType levels

def asBinaryOp : Decoder BinaryOp := fun room json => do
  match ← asName room json with
  | "+" => some .add
  | "-" => some .sub
  | "*" => some .mul
  | "/" => some .div
  | "%" => some .rem
  | "==" => some .eq
  | "!=" => some .ne
  | "<" => some .lt
  | "<=" => some .le
  | ">" => some .gt
  | ">=" => some .ge
  | "&&" => some .and
  | "||" => some .or
  | _ => none

def asUnaryOp : Decoder UnaryOp := fun room json => do
  match ← asName room json with
  | "-" => some .neg
  | "!" => some .not
  | _ => none

def asCompoundOp : Decoder CompoundOp := fun room json => do
  match ← asName room json with
  | "+=" => some .add
  | "-=" => some .sub
  | "*=" => some .mul
  | "/=" => some .div
  | _ => none

def asStep (expr : Decoder Expr) : Decoder SuggestStep := fun room json => do
  let node ← asNode room json
  match node.tag with
  | "extend" =>
    let fields ← node.fields
    return .extend none (← fields.required "target" expr) (← fields.required "class" asPath)
  | "retract" =>
    let fields ← node.fields
    return .retract none (← fields.required "target" expr) (← fields.required "class" asPath)
  | "call" =>
    let fields ← node.fields
    return .call none (← fields.required "target" expr) (← fields.required "method" asText)
      (← fields.withDefault "args" (asList expr) [])
  | _ => none

/-- The node of an expression, its parts read by `expr`. -/
def asForm (expr : Decoder Expr) : Decoder Form := fun room json => do
  let node ← asNode room json
  match node.tag with
  | "null" => node.unit .null
  | "this" => node.unit .this
  | "caller" => node.unit .caller
  | "random" => node.unit .random
  | tag =>
    let fields ← node.fields
    match tag with
    | "num" => return .num (← fields.required "value" asNumber)
    | "str" => return .text (← fields.required "value" asText)
    | "bool" => return .bool (← fields.required "value" asBool)
    | "name" => return .name (← fields.required "path" asPath)
    | "field" =>
      return .field (← fields.required "object" expr) (← fields.required "name" asText)
    | "index" =>
      return .index (← fields.required "object" expr) (← fields.required "index" expr)
    | "call" =>
      return .call (← fields.required "object" expr) (← fields.required "method" asText)
        (← fields.withDefault "args" (asList expr) [])
    | "super_call" =>
      return .superCall (← fields.required "method" asText)
        (← fields.withDefault "args" (asList expr) [])
    | "new" => return .new (← fields.required "ty" asTypeExpr)
    | "binary" =>
      return .binary (← fields.required "op" asBinaryOp) (← fields.required "left" expr)
        (← fields.required "right" expr)
    | "unary" =>
      return .unary (← fields.required "op" asUnaryOp) (← fields.required "operand" expr)
    | "array" => return .array (← fields.required "elements" (asList expr))
    | "tuple" => return .tuple (← fields.required "elements" (asList expr))
    | "cast" =>
      return .cast (← fields.required "value" expr) (← fields.required "ty" asTypeExpr)
    | "clone" => return .clone (← fields.required "value" expr)
    | "len" => return .len (← fields.required "value" expr)
    | "has" =>
      return .has (← fields.required "collection" expr) (← fields.required "key" expr)
    | "is" => return .is (← fields.required "value" expr) (← fields.required "class" asPath)
    | "suggest" => return .suggest (← fields.withDefault "steps" (asList (asStep expr)) [])
    | _ => none

def asNested : Nat → Decoder Expr
  | 0 => fun _ _ => none
  | steps + 1 => fun room json => (asForm (asNested steps) room json).map (Expr.mk none)

def asExpr : Decoder Expr := asNested levels

/-- The node of a statement, its blocks read by `block`. -/
def asStatement (block : Decoder (List Stmt)) : Decoder Stmt := fun room json => do
  let node ← asNode room json
  let fields ← node.fields
  let span ← spanOf fields
  match node.tag with
  | "let" =>
    return .let none (← fields.required "name" asText) (← fields.optional "ty" asTypeExpr)
      (← fields.optional "init" asExpr) span
  | "assign" =>
    return .assign (← fields.required "target" asExpr) (← fields.required "value" asExpr) span
  | "compound" =>
    return .compound (← fields.required "op" asCompoundOp) (← fields.required "target" asExpr)
      (← fields.required "value" asExpr) span
  | "expr" => return .expr (← fields.required "expr" asExpr) span
  | "if" =>
    return .if (← fields.required "cond" asExpr) (← fields.required "then" block)
      (← fields.withDefault "else" block []) span
  | "while" =>
    return .while (← fields.required "cond" asExpr) (← fields.required "body" block) span
  | "for" =>
    return .for none (← fields.required "key" asText) (← fields.optional "value" asText)
      (← fields.optional "key_ty" asTypeExpr) (← fields.optional "value_ty" asTypeExpr)
      (← fields.required "iter" asExpr) (← fields.required "body" block) span
  | "return" => return .return (← fields.optional "value" asExpr) span
  | "break" => return .break span
  | "continue" => return .continue span
  | "extend" =>
    return .extend none (← fields.required "target" asExpr) (← fields.required "class" asPath) span
  | "retract" =>
    return .retract none (← fields.required "target" asExpr) (← fields.required "class" asPath)
      span
  | "enforce" => return .enforce (← fields.required "suggestion" asExpr) span
  | _ => none

def asNestedStmt : Nat → Decoder Stmt
  | 0 => fun _ _ => none
  | steps + 1 => asStatement (asList (asNestedStmt steps))

def asStmt : Decoder Stmt := asNestedStmt levels

def asParam : Decoder Param := fun room json => do
  let fields ← asRecord ["name", "ty"] room json
  return { name := ← fields.required "name" asText, ty := ← fields.required "ty" asTypeExpr }

def asField (node : Node) : Option FieldDecl := do
  let fields ← node.record ["name", "ty", "init", "span"]
  return {
    name := ← fields.required "name" asText
    ty := ← fields.required "ty" asTypeExpr
    init := ← fields.optional "init" asExpr
    span := ← spanOf fields }

def asMethod (node : Node) : Option MethodDecl := do
  let fields ← node.record
    ["name", "params", "ret", "mutating", "mutating_this", "override", "body", "span"]
  return {
    name := ← fields.required "name" asText
    params := ← fields.withDefault "params" (asList asParam) []
    ret := ← fields.withDefault "ret" asTypeExpr .void
    mutating := ← fields.withDefault "mutating" asBool false
    mutatingThis := ← fields.withDefault "mutating_this" asBool false
    isOverride := ← fields.withDefault "override" asBool false
    body := ← fields.withDefault "body" (asList asStmt) []
    span := ← spanOf fields }

def asMember : Decoder Member := fun room json => do
  let node ← asNode room json
  match node.tag with
  | "field" => (asField node).map .field
  | "method" => (asMethod node).map .method
  | _ => none

def asClass (node : Node) : Option ClassDecl := do
  let fields ← node.record ["name", "parents", "exported", "members", "span"]
  return {
    name := ← fields.required "name" asText
    parents := ← fields.withDefault "parents" (asList asPath) []
    exported := ← fields.withDefault "exported" asBool false
    members := ← fields.withDefault "members" (asList asMember) []
    span := ← spanOf fields }

def asFabric (node : Node) : Option FabricDecl := do
  let fields ← node.record ["name", "lines", "exported", "span"]
  return {
    name := ← fields.required "name" asText
    lines := ← fields.required "lines" (asList asText)
    exported := ← fields.withDefault "exported" asBool false
    span := ← spanOf fields }

def asDecl : Decoder Decl := fun room json => do
  let node ← asNode room json
  match node.tag with
  | "class" => (asClass node).map .cls
  | "fabric" => (asFabric node).map .fabric
  | tag =>
    let fields ← node.fields
    let span ← spanOf fields
    match tag with
    | "copyright" => return .copyright (← fields.required "text" asText) span
    | "license" => return .license (← fields.required "text" asText) span
    | "import" =>
      return .import (← fields.required "url" asText) (← fields.required "name" asText) span
    | "alias" =>
      return .«alias» (← fields.required "name" asText) (← fields.required "path" asPath)
        (← fields.withDefault "exported" asBool false) span
    | "wildcard" => return .wildcard (← fields.required "path" asPath) span
    | "main" => return .main (← fields.required "path" asPath) span
    | _ => none

def asModule : Decoder ModuleTree := fun room json => do
  let node ← asNode room json
  if node.tag ≠ "module" then
    none
  let fields ← node.record ["declarations"]
  return { declarations := ← fields.withDefault "declarations" (asList asDecl) [] }

end Syntax

/-- The tree that a module's text denotes. -/
def ModuleTree.ofText? (text : String) : Option ModuleTree :=
  (Json.ofText? text).bind (Syntax.asModule Json.depthLimit)

/-- The class member that a text denotes. -/
def Member.ofText? (text : String) : Option Member :=
  (Json.ofText? text).bind (Syntax.asMember Json.depthLimit)

end Attire
