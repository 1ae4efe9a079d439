import PackageExports.Json.Comments
import PackageExports.Json.Reader
import PackageExports.Path.Relative
import PackageExports.World

/-!
# Compiler options

`tsconfig.json` is JSON in which comments and trailing commas may stand. A file that cannot be read counts as empty,
with a warning.

Main definitions: `FileSystem.readCompilerSettings`, `CompilerOptions`.
-/

namespace PackageExports

/-- The members of a value; a value that is no object has none. -/
def Json.membersOf : Json → Json.Members
  | .object members => members
  | _ => []

/-- The value that a text writes if its comments and trailing commas are passed over. -/
def Json.parseNoisy? (t : Text) : Option Json :=
  parse? (dropNoise t)

def FileSystem.readCompilerSettings (fs : FileSystem) (package : Path) : Noted Json.Members :=
  let path := package.child "tsconfig.json"
  if fs.isFile path.text then
    match fs.readText path.text with
    | .error c => do
      Noted.note (.unparsed path c)
      return []
    | .ok t =>
      match Json.parseNoisy? t with
      | some value => return value.membersOf
      | none => do
        Noted.note (.unparsed path .notJson)
        return []
  else return []

/-- The directories that compiler options name. -/
structure CompilerOptions where
  output : Option Text := none
  declarations : Option Text := none
  root : Option Text := none
deriving DecidableEq

namespace CompilerOptions

/-- A directory under a name, without `./` in front. -/
def directory? (options : Json.Members) (name : Text) : Option Text :=
  ((options.value? name).bind Json.nonemptyText?).map Relative.bare

def ofMembers (members : Json.Members) : CompilerOptions :=
  let options := ((members.value? "compilerOptions").map Json.membersOf).getD []
  { output := directory? options "outDir"
    declarations := directory? options "declarationDir"
    root := directory? options "rootDir" }

end CompilerOptions

end PackageExports
