import BehaviorTree.Program.Arena
import BehaviorTree.Text.Dump

/-!
Programs as dumps show them: a declaration in full, with the nodes in it by their numbers and its
names by the numbers under which they are interned.
-/

namespace BehaviorTree

def SourceRange.dump (range : SourceRange) : Dump := .atom range.describe

def dumpDocs (docs : List String) : Dump := .list (docs.map Dump.text)

def Origin.dump (origin : Origin) (kind : NodeKind) : Dump := .atom (kind.handle origin.id)

def Expr.dumpId (expr : Expr) : Dump := expr.origin.dump .expr

def TypeExpr.dumpId (type : TypeExpr) : Dump := type.origin.dump .type

def Stmt.dumpId (stmt : Stmt) : Dump := stmt.head.origin.dump .stmt

def Decl.dumpId (decl : Decl) : Dump := decl.head.origin.dump .decl

def Direction.dump (direction : Direction) : Dump := .atom direction.name

def Behavior.dump (behavior : Behavior) : Dump :=
  .record "BehaviorAttr"
    [("data", .atom behavior.data.spelling), ("flow", .atom behavior.flow.spelling),
      ("range", behavior.range.dump)]

namespace Arena

def dumpText (arena : Arena) (text : String) : Dump :=
  .atom (nameHandle ((arena.nameNumber? text).getD 0))

def dumpName (arena : Arena) (name : Name) : Dump :=
  .record "Ident" [("name", arena.dumpText name.text), ("range", name.range.dump)]

def dumpParam (arena : Arena) (param : Param) : Dump :=
  .record "Param"
    [("docs", dumpDocs param.docs), ("direction", .option (param.direction.map Direction.dump)),
      ("name", arena.dumpName param.name), ("ty", param.type.dumpId),
      ("default", .option (param.default.map Expr.dumpId)), ("range", param.range.dump)]

def dumpParams (arena : Arena) (params : List Param) : Dump := .list (params.map arena.dumpParam)

/-- What is special to each kind of declaration. -/
def dumpDeclKind (arena : Arena) : Decl → Dump
  | .importFile _ path pathRange =>
    .call "Import" [.record "ImportDecl"
      [("path", arena.dumpText path), ("path_range", pathRange.dump)]]
  | .node _ category name ports behavior =>
    .call "Extern" [.record "ExternDecl"
      [("category", .atom category.name), ("name", arena.dumpName name),
        ("ports", arena.dumpParams ports), ("behavior", .option (behavior.map Behavior.dump))]]
  | .opaqueType _ name => .record "ExternType" [("name", arena.dumpName name)]
  | .typeAlias _ name type =>
    .record "TypeAlias" [("name", arena.dumpName name), ("ty", type.dumpId)]
  | .varDecl _ name type init =>
    .record "GlobalVar"
      [("name", arena.dumpName name), ("ty", .option (type.map TypeExpr.dumpId)),
        ("init", .option (init.map Expr.dumpId))]
  | .constDecl _ name type value =>
    .record "GlobalConst"
      [("name", arena.dumpName name), ("ty", .option (type.map TypeExpr.dumpId)),
        ("value", value.dumpId)]
  | .tree _ name params body =>
    .call "Tree" [.record "TreeDecl"
      [("name", arena.dumpName name), ("params", arena.dumpParams params),
        ("body", .list (body.map Stmt.dumpId))]]

def dumpDecl (arena : Arena) (decl : Decl) : Dump :=
  .record "Decl"
    [("kind", arena.dumpDeclKind decl), ("docs", dumpDocs decl.head.docs),
      ("range", decl.range.dump)]

end Arena

def Program.dump (program : Program) : Dump :=
  .record "Program"
    [("file", .atom program.file.describe), ("docs", dumpDocs program.docs),
      ("decls", .list (program.decls.map Decl.dumpId)), ("range", program.range.dump)]

/-- The program and behind it each of its declarations. -/
def Program.dumpText (program : Program) (arena : Arena) : String :=
  String.join ((program.dump :: program.decls.map arena.dumpDecl).map fun dump =>
    dump.indented ++ "\n")

end BehaviorTree
