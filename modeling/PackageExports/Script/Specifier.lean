import PackageExports.Path.Basic
import PackageExports.Script.Source
import PackageExports.Usage.Basic

/-!
# Module specifiers

A module is asked for by a string: in an import statement, in an export from another module, or as the first argument
of a call that loads a module. A specifier that is neither a relative nor an absolute path names a package and
possibly a path inside it.

Main definitions: `Node.specifier?`, `Script.specifiers`, `PackageImport.ofSpecifier?`.
-/

namespace PackageExports

namespace Script

def unquoted (t : Text) : Text :=
  (t.drop 1).dropLast

/-- What is written in a string or in a template without substitutions. -/
def Node.literal? (n : Node) : Option Text :=
  if n.isPhrase .string then some (unquoted n.text)
  else if n.isPhrase .template ∧ !n.children.any (·.isPhrase .substitution) then some (unquoted n.text)
  else none

/-- The categories of calls. Types may contain calls as well. -/
def callCategories : List Category :=
  [.call, .decoratorCall, .queryCall, .importTypeCall]

/-- Whether a call of a node loads a module. -/
def Node.isLoader (n : Node) : Bool :=
  n.isPhrase .importWord || (n.kind = .token .word && n.text = "require")

/-- Whether a node stands between arguments, or around them. -/
def Node.isArgumentMark (n : Node) : Bool :=
  n.kind = .token "(" || n.kind = .token "," || n.kind = .token ")"

/-- The specifier in the parts of a call that loads a module: its first argument must be a literal, and no comment may
stand before it. -/
def callSpecifier? (parts : List Node) : Option Text := do
  let function ← parts.head?
  let arguments ← parts.find? (·.isPhrase .arguments)
  let first ← arguments.children.find? (!·.isArgumentMark)
  if function.isLoader then first.literal? else none

/-- The string among some parts. -/
def stringAmong? (parts : List Node) : Option Text := do
  (← parts.find? (·.isPhrase .string)).literal?

/-- The specifier in the parts of an import statement. -/
def importSpecifier? (parts : List Node) : Option Text :=
  match parts.find? (·.isPhrase .fromClause) <|> parts.find? (·.isPhrase .importRequireClause) with
  | some clause => stringAmong? clause.children
  | none => stringAmong? parts

/-- The specifier in the parts of an export statement. -/
def exportSpecifier? (parts : List Node) : Option Text := do
  stringAmong? (← parts.find? (·.isPhrase .fromClause)).children

/-- The specifier that a node gives by itself; an empty one counts as none. -/
def Node.specifier? (n : Node) : Option Text :=
  Option.filter (!·.isEmpty) <|
    match n.kind with
    | .phrase .importStatement => importSpecifier? n.children
    | .phrase .exportStatement => exportSpecifier? n.children
    | .phrase c => if c ∈ callCategories then callSpecifier? n.children else none
    | _ => none

/-- The specifiers in trees, in the order in which their nodes are visited. -/
def specifiersOf (nodes : List Node) : List Text :=
  (Node.walk nodes).filterMap Node.specifier?

/-- Whether scripts under a path may hold elements. -/
def allowsElements (path : Path) : Bool :=
  path.suffix ∉ ([".ts", ".mts", ".cts"] : List Text)

def specifiers (path : Path) (source : Text) : List Text :=
  specifiersOf (read (if allowsElements path then withElements else typed) source)

end Script

/-- The package and the path that a specifier names. -/
def PackageImport.ofSpecifier? (specifier : Text) : Option PackageImport :=
  let ofParts (package : Text) (rest : List Text) : PackageImport :=
    ⟨package, if rest.isEmpty then "." else "./" ++ Text.joinWith "/" rest⟩
  match Text.splitOn '/' specifier with
  | [] => none
  | first :: rest =>
    if first.isEmpty ∨ Text.startsWith first "." then none
    else if Text.startsWith first "@" then
      match rest with
      | second :: rest => if second.isEmpty then none else some (ofParts (first ++ "/" ++ second) rest)
      | [] => none
    else some (ofParts first rest)

end PackageExports
