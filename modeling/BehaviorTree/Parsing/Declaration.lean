import BehaviorTree.Lexical.TokenStream
import BehaviorTree.Parsing.Statement

/-!
Declarations: imports, nodes and types from outside, type aliases, global variables and constants,
and trees; and whole programs.
-/

namespace BehaviorTree.Parser

/-- Gives a declaration up: skips to where the next may start, and over a `;` there. -/
def abandonDecl : Parser Unit := do
  synchronize .top
  let _ ← acceptPunctuation .semi

/-- `import "path";` -/
def importDecl : Parser (Option (DeclHead → Decl)) := do
  let _ ← advance
  let token ← peek
  match token.kind with
  | .string path =>
    let _ ← advance
    intern path
    expectSemi "after import" .top
    pure (some (.importFile · path token.range))
  | _ =>
    expectedWithHelp "an import path string after `import`"
      "write imports as `import \"./other.bt\";`"
    abandonDecl
    pure none

/-- One entry of a list of ports or parameters, if its name is there. -/
def param (what : String) (set : RecoverySet) : Parser (Option Param) := do
  let docs ← docComments
  let start := (← peek).range
  let direction ← direction
  match ← expectName ("a " ++ what ++ " name") set with
  | none => pure none
  | some name =>
    let context := "after " ++ what ++ " name " ++ quoted name.text
    let type ← if ← expectPunctuation .colon context set then typeExpr else missingType
    let default ← initializer
    return some ⟨docs.lines, direction, name, type, default, ← rangeSince start⟩

def paramTurn (what : String) (params : List Param) : Parser (Turn (List Param)) := do
  let set : RecoverySet := [.comma, .rParen, .lBrace] ++ RecoverySet.top
  let context := "to close the " ++ what ++ " list"
  if ← listGoesOn context false then
    let params := params ++ (← param what set).toList
    if ← listContinues context ("`,` or `)` in " ++ what ++ " list") false set then
      pure (.again params)
    else pure (.done params)
  else pure (.done params)

/-- Ports or parameters through the closing `)`, if a `(` opens them. -/
def paramList (what context : String) : Parser (List Param) := do
  if ← expectPunctuation .lParen context (RecoverySet.top ++ [.lBrace]) then
    iterate (paramTurn what) []
  else pure []

/-- `extern action Name(ports);` -/
def nodeDecl (behavior : Option Behavior) : Parser (Option (DeclHead → Decl)) := do
  let _ ← advance
  match (← peek).keyword?.bind NodeCategory.ofKeyword? with
  | none =>
    expectedWithHelp "a node category after `extern`"
      "expected `action`, `condition`, `control`, `decorator`, `subtree` or `type`"
    abandonDecl
    pure none
  | some category =>
    let _ ← advance
    match ← expectName "a node name" (RecoverySet.top ++ [.lBrace]) with
    | none =>
      abandonDecl
      pure none
    | some name =>
      let ports ← paramList "port" "after the node name"
      expectSemi "after extern declaration" .top
      pure (some (.node · category name ports behavior))

/-- `extern type Name;` -/
def opaqueTypeDecl : Parser (Option (DeclHead → Decl)) := do
  let _ ← advance
  let _ ← advance
  match ← expectName "a type name" .top with
  | none =>
    abandonDecl
    pure none
  | some name =>
    expectSemi "after extern type declaration" .top
    pure (some (.opaqueType · name))

/-- `type Name = Type;` -/
def typeAliasDecl : Parser (Option (DeclHead → Decl)) := do
  let _ ← advance
  match ← expectName "a type name" .top with
  | none =>
    abandonDecl
    pure none
  | some name =>
    let type ← if ← expectOperator .eq "in type alias" .top then typeExpr else missingType
    expectSemi "after type alias" .top
    pure (some (.typeAlias · name type))

/-- `var name[: Type][= init];` -/
def varDecl : Parser (Option (DeclHead → Decl)) := do
  return (← varParts .top).map fun parts head => .varDecl head parts.name parts.type parts.init

/-- `const NAME[: Type] = value;` -/
def constDecl : Parser (Option (DeclHead → Decl)) := do
  return (← constParts .top).map fun parts head => .constDecl head parts.name parts.type parts.value

/-- The block of a tree, or nothing where it is missing. -/
def treeBody : Parser (List Stmt) := do
  if ← atPunctuation .lBrace then block
  else
    let _ ← missing "`\x7b`" "to start the tree body" none
    synchronize .top
    pure []

/-- `tree Name(params) { body }` -/
def treeDecl : Parser (Option (DeclHead → Decl)) := do
  let _ ← advance
  match ← expectName "a tree name" (RecoverySet.top ++ [.lBrace]) with
  | none =>
    if ← atPunctuation .lBrace then skip Skip.group
    pure none
  | some name =>
    let params ← paramList "parameter" "after the tree name"
    let body ← treeBody
    pure (some (.tree · name params body))

/-- A policy of the `behavior` attribute. -/
def policy {α : Type} (what choices : String) (ofSpelling? : String → Option α) (set : RecoverySet) :
    Parser (Option α) := do
  match ← expectName ("a " ++ what) set with
  | none => pure none
  | some name =>
    match ofSpelling? name.text with
    | some policy => pure (some policy)
    | none =>
      report (SyntaxReport.unknownPolicy what name.text choices name.range)
      pure none

def flowPolicy (set : RecoverySet) : Parser (Option FlowPolicy) := do
  if ← acceptPunctuation .comma then
    policy "flow policy" "`Chained` or `Isolated`" FlowPolicy.ofSpelling? set
  else pure (some defaultFlowPolicy)

/-- The policies between the parentheses of the `behavior` attribute. -/
def policies (set : RecoverySet) : Parser (Option (DataPolicy × FlowPolicy)) := do
  let inner := set ++ [.rParen]
  if ← expectPunctuation .lParen "after `behavior`" set then
    let data ← policy "data policy" "`All`, `Any` or `None`" DataPolicy.ofSpelling? inner
    let flow ← flowPolicy inner
    let _ ← expectPunctuation .rParen "to close the behavior attribute" set
    match data, flow with
    | some data, some flow => pure (some (data, flow))
    | _, _ => pure none
  else pure none

def attributeBody (set : RecoverySet) : Parser (Option (DataPolicy × FlowPolicy)) := do
  if ← expectPunctuation .lBracket "after `#`" set then
    match ← expectName "an attribute name" set with
    | none => pure none
    | some name =>
      if name.text = behaviorAttribute then policies set
      else
        report (SyntaxReport.unknownAttribute name.text name.range)
        synchronize set
        pure none
  else pure none

end BehaviorTree.Parser

namespace BehaviorTree

/-- An attribute in front of a declaration: what it says, if that is valid, and its range. -/
structure Attribute where
  behavior : Option Behavior
  range : SourceRange

end BehaviorTree

namespace BehaviorTree.Parser

/-- An attribute behind its `#`. -/
def attributeBehind (start : SourceRange) (set : RecoverySet) : Parser (Option Attribute) := do
  let policies ← attributeBody set
  let _ ← expectPunctuation .rBracket "to close the attribute" set
  let range ← rangeSince start
  pure (some ⟨policies.map fun (data, flow) => ⟨data, flow, range⟩, range⟩)

/-- `#[behavior(data, flow)]`, if a `#` opens it. -/
def attributeHere : Parser (Option Attribute) := do
  let start := (← peek).range
  if ← acceptPunctuation .hash then attributeBehind start (Stop.rBracket :: RecoverySet.top)
  else pure none

/-- Makes a declaration of what was parsed since a range, widened by an attribute. -/
def finishDecl (build : Option (DeclHead → Decl)) (docs : Docs) (start : SourceRange)
    (attr : Option SourceRange) : Parser (Option Decl) := do
  match build with
  | none => pure none
  | some build =>
    let own ← rangeSince start
    let range := (attr.map (·.merge own)).getD own
    some <$> newDecl range fun origin => build ⟨origin, docs.lines⟩

/-- A declaration that takes no attribute; one in front of it is reported. -/
def plainDecl (parser : Parser (Option (DeclHead → Decl))) (docs : Docs)
    (attr : Option Attribute) : Parser (Option Decl) := do
  let start := (← peek).range
  let build ← parser
  match attr with
  | some attr => report (SyntaxReport.misplacedAttribute attr.range)
  | none => pure ()
  finishDecl build docs start none

/-- What stands at the end of a file behind documentation or an attribute. -/
def nothingDeclared (docs : Docs) (attr : Option Attribute) : Parser Unit :=
  match attr with
  | some _ => expected "an `extern` declaration after the attribute"
  | none => danglingDocs docs.range

def declarationAfter (docs : Docs) (attr : Option Attribute) : Parser (Option Decl) := do
  let token ← peek
  match token.kind with
  | .identifier =>
    match ForeignWord.ofSpelling? token.text with
    | some word =>
      skipForeign word
      pure none
    | none => noDeclaration
  | .keyword .importWord => plainDecl importDecl docs attr
  | .keyword .externWord =>
    if (← peekSecond).isKeyword .typeWord then plainDecl opaqueTypeDecl docs attr
    else
      let build ← nodeDecl (attr.bind Attribute.behavior)
      finishDecl build docs token.range (attr.map Attribute.range)
  | .keyword .typeWord => plainDecl typeAliasDecl docs attr
  | .keyword .varWord => plainDecl varDecl docs attr
  | .keyword .constWord => plainDecl constDecl docs attr
  | .keyword .treeWord => plainDecl treeDecl docs attr
  | .endOfFile =>
    nothingDeclared docs attr
    pure none
  | _ => noDeclaration
where
  noDeclaration : Parser (Option Decl) := do
    expectedWithHelp "a declaration"
      "top-level items are `import`, `extern`, `type`, `var`, `const` and `tree`"
    synchronize [.opener]
    pure none

/-- A declaration with what stands in front of it. -/
def declaration : Parser (Option Decl) := do
  let docs ← docComments
  let attr ← attributeHere
  declarationAfter docs attr

def moduleDocTurn (docs : List String) : Parser (Turn (List String)) := do
  match (← peek).kind with
  | .moduleDoc line =>
    let _ ← advance
    pure (.again (docs ++ [line]))
  | _ => pure (.done docs)

/-- The doc comments for the module at the start of a file. -/
def moduleDocs : Parser (List String) := iterate moduleDocTurn []

def programTurn (decls : List Decl) : Parser (Turn (List Decl)) := do
  if ← atEnd then pure (.done decls)
  else
    let decl ← orStepOver declaration fun _ => false
    pure (.again (decls ++ decl.toList))

def program : Parser Program := do
  let docs ← moduleDocs
  let decls ← iterate programTurn []
  fun state => (⟨state.file, docs, decls, ⟨state.file, 0, state.current.range.stop⟩⟩, state)

end BehaviorTree.Parser

namespace BehaviorTree

/-- A program, the arena it was built in, and what was reported on the way. -/
structure Parsed where
  program : Program
  arena : Arena
  diagnostics : List Diagnostic

namespace Parsed

/-- The token at the end of a stream that does not have one. -/
def closing (file : FileId) (tokens : List Token) : Token :=
  ⟨.endOfFile, "", .emptyAt file ((tokens.getLast?.map fun token => token.range.stop).getD 0), false⟩

/-- The state in front of a stream of tokens. A stream that does not end with the token for the end
of the file gets one. -/
def initial (file : FileId) (tokens : List Token) (arena : Arena) : ParserState :=
  let closing := closing file tokens
  let closed := (tokens.getLast?.map Token.isEndOfFile).getD false
  { file
    rest := if closed then tokens else tokens ++ [closing]
    final := if closed then tokens.getLast?.getD closing else closing
    position := 0
    lastRange := .emptyAt file 0
    reportedAt := none
    arena
    diagnostics := [] }

/-- The program of a stream of tokens. -/
def ofTokens (file : FileId) (tokens : List Token) (arena : Arena) : Parsed :=
  let (program, state) := Parser.program (initial file tokens arena)
  ⟨program, state.arena, state.diagnostics⟩

/-- The program of a source text; reports on its characters come first. -/
def ofText (file : FileId) (text : String) (arena : Arena) : Parsed :=
  let stream := TokenStream.ofText file text
  let parsed := ofTokens file stream.tokens arena
  { parsed with diagnostics := stream.diagnostics ++ parsed.diagnostics }

end Parsed

end BehaviorTree
