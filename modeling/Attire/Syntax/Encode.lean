import Attire.Json.Basic
import Attire.Syntax.Basic

namespace Attire

/-! The JSON form of syntax trees, with nothing left out. -/

namespace Syntax

def unitNode (tag : String) : Json := .object [("type", .string tag)]

def node (tag : String) (parts : List (String × Json)) : Json :=
  .object [("type", .string tag), ("children", .object parts)]

def encodePath (path : Path) : Json := .list (path.map Json.string)

def encodeNatural (number : Nat) : Json := .number (.natural number)

def encodeSpan (span : Span) : Json := .object [
  ("start", encodeNatural span.start),
  ("end", encodeNatural span.stop),
  ("line", encodeNatural span.line),
  ("column", encodeNatural span.column)]

def encodeOption {α : Type} (item : α → Json) : Option α → Json
  | none => .null
  | some value => item value

mutual

def encodeType : TypeExpr → Json
  | .num => unitNode "num"
  | .text => unitNode "string"
  | .bool => unitNode "bool"
  | .void => unitNode "void"
  | .suggestion => unitNode "suggestion"
  | .array element => node "array" [("element", encodeType element)]
  | .set element => node "set" [("element", encodeType element)]
  | .map key value => node "map" [("key", encodeType key), ("value", encodeType value)]
  | .tuple elements => node "tuple" [("elements", .list (encodeTypes elements))]
  | .named path => node "named" [("path", encodePath path)]

def encodeTypes : List TypeExpr → List Json
  | [] => []
  | ty :: rest => encodeType ty :: encodeTypes rest

end

mutual

def encodeExpr : Expr → Json
  | .mk _ form => encodeForm form

def encodeForm : Form → Json
  | .num value => node "num" [("value", .number (.real value))]
  | .text value => node "str" [("value", .string value)]
  | .bool value => node "bool" [("value", .bool value)]
  | .null => unitNode "null"
  | .this => unitNode "this"
  | .caller => unitNode "caller"
  | .random => unitNode "random"
  | .name path => node "name" [("path", encodePath path)]
  | .field object name => node "field" [("object", encodeExpr object), ("name", .string name)]
  | .index object index =>
    node "index" [("object", encodeExpr object), ("index", encodeExpr index)]
  | .call object method args =>
    node "call" [
      ("object", encodeExpr object),
      ("method", .string method),
      ("args", .list (encodeExprs args))]
  | .superCall method args =>
    node "super_call" [("method", .string method), ("args", .list (encodeExprs args))]
  | .new ty => node "new" [("ty", encodeType ty)]
  | .binary op left right =>
    node "binary" [
      ("op", .string op.symbol),
      ("left", encodeExpr left),
      ("right", encodeExpr right)]
  | .unary op operand =>
    node "unary" [("op", .string op.symbol), ("operand", encodeExpr operand)]
  | .array elements => node "array" [("elements", .list (encodeExprs elements))]
  | .tuple elements => node "tuple" [("elements", .list (encodeExprs elements))]
  | .cast value ty => node "cast" [("value", encodeExpr value), ("ty", encodeType ty)]
  | .clone value => node "clone" [("value", encodeExpr value)]
  | .len value => node "len" [("value", encodeExpr value)]
  | .has collection key =>
    node "has" [("collection", encodeExpr collection), ("key", encodeExpr key)]
  | .is value cls => node "is" [("value", encodeExpr value), ("class", encodePath cls)]
  | .suggest steps => node "suggest" [("steps", .list (encodeSteps steps))]

def encodeExprs : List Expr → List Json
  | [] => []
  | expr :: rest => encodeExpr expr :: encodeExprs rest

def encodeStep : SuggestStep → Json
  | .extend _ target cls =>
    node "extend" [("target", encodeExpr target), ("class", encodePath cls)]
  | .retract _ target cls =>
    node "retract" [("target", encodeExpr target), ("class", encodePath cls)]
  | .call _ target method args =>
    node "call" [
      ("target", encodeExpr target),
      ("method", .string method),
      ("args", .list (encodeExprs args))]

def encodeSteps : List SuggestStep → List Json
  | [] => []
  | step :: rest => encodeStep step :: encodeSteps rest

end

mutual

def encodeStmt : Stmt → Json
  | .let _ name ty init span =>
    node "let" [
      ("name", .string name),
      ("ty", encodeOption encodeType ty),
      ("init", encodeOption encodeExpr init),
      ("span", encodeSpan span)]
  | .assign target value span =>
    node "assign" [
      ("target", encodeExpr target),
      ("value", encodeExpr value),
      ("span", encodeSpan span)]
  | .compound op target value span =>
    node "compound" [
      ("op", .string op.symbol),
      ("target", encodeExpr target),
      ("value", encodeExpr value),
      ("span", encodeSpan span)]
  | .expr expr span => node "expr" [("expr", encodeExpr expr), ("span", encodeSpan span)]
  | .if cond yes no span =>
    node "if" [
      ("cond", encodeExpr cond),
      ("then", .list (encodeStmts yes)),
      ("else", .list (encodeStmts no)),
      ("span", encodeSpan span)]
  | .while cond body span =>
    node "while" [
      ("cond", encodeExpr cond),
      ("body", .list (encodeStmts body)),
      ("span", encodeSpan span)]
  | .for _ key value keyTy valueTy iter body span =>
    node "for" [
      ("key", .string key),
      ("value", encodeOption Json.string value),
      ("key_ty", encodeOption encodeType keyTy),
      ("value_ty", encodeOption encodeType valueTy),
      ("iter", encodeExpr iter),
      ("body", .list (encodeStmts body)),
      ("span", encodeSpan span)]
  | .return value span =>
    node "return" [("value", encodeOption encodeExpr value), ("span", encodeSpan span)]
  | .break span => node "break" [("span", encodeSpan span)]
  | .continue span => node "continue" [("span", encodeSpan span)]
  | .extend _ target cls span =>
    node "extend" [
      ("target", encodeExpr target),
      ("class", encodePath cls),
      ("span", encodeSpan span)]
  | .retract _ target cls span =>
    node "retract" [
      ("target", encodeExpr target),
      ("class", encodePath cls),
      ("span", encodeSpan span)]
  | .enforce suggestion span =>
    node "enforce" [("suggestion", encodeExpr suggestion), ("span", encodeSpan span)]

def encodeStmts : List Stmt → List Json
  | [] => []
  | stmt :: rest => encodeStmt stmt :: encodeStmts rest

end

def encodeParam (param : Param) : Json :=
  .object [("name", .string param.name), ("ty", encodeType param.ty)]

def encodeMember : Member → Json
  | .field decl =>
    node "field" [
      ("name", .string decl.name),
      ("ty", encodeType decl.ty),
      ("init", encodeOption encodeExpr decl.init),
      ("span", encodeSpan decl.span)]
  | .method decl =>
    node "method" [
      ("name", .string decl.name),
      ("params", .list (decl.params.map encodeParam)),
      ("ret", encodeType decl.ret),
      ("mutating", .bool decl.mutating),
      ("mutating_this", .bool decl.mutatingThis),
      ("override", .bool decl.isOverride),
      ("body", .list (encodeStmts decl.body)),
      ("span", encodeSpan decl.span)]

def encodeDecl : Decl → Json
  | .copyright text span =>
    node "copyright" [("text", .string text), ("span", encodeSpan span)]
  | .license text span => node "license" [("text", .string text), ("span", encodeSpan span)]
  | .import url name span =>
    node "import" [("url", .string url), ("name", .string name), ("span", encodeSpan span)]
  | .«alias» name path exported span =>
    node "alias" [
      ("name", .string name),
      ("path", encodePath path),
      ("exported", .bool exported),
      ("span", encodeSpan span)]
  | .wildcard path span =>
    node "wildcard" [("path", encodePath path), ("span", encodeSpan span)]
  | .cls decl =>
    node "class" [
      ("name", .string decl.name),
      ("parents", .list (decl.parents.map encodePath)),
      ("exported", .bool decl.exported),
      ("members", .list (decl.members.map encodeMember)),
      ("span", encodeSpan decl.span)]
  | .fabric decl =>
    node "fabric" [
      ("name", .string decl.name),
      ("lines", encodePath decl.lines),
      ("exported", .bool decl.exported),
      ("span", encodeSpan decl.span)]
  | .main path span => node "main" [("path", encodePath path), ("span", encodeSpan span)]

end Syntax

/-- The parts of a module's node. -/
def ModuleTree.encodeParts (tree : ModuleTree) : Json :=
  .object [("declarations", .list (tree.declarations.map Syntax.encodeDecl))]

def ModuleTree.encode (tree : ModuleTree) : Json :=
  .object [("type", .string "module"), ("children", tree.encodeParts)]

end Attire
