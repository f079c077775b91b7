import ImageBuild.Error
import ImageBuild.FileTree.Lookup
import ImageBuild.Ignore.Rules
/-!
# Loading ignore rules

The rules of a tree come from its ignore file.  The ignore file and the Dockerfile are wanted whatever
the rules say, so a negated rule is added for either that they ignore.
-/

namespace ImageBuild.Ignore

/-- The name of the ignore file of a tree. -/
def defaultName : String := ".dockerignore"

/-- Adds a rule that wants `path` back, if the rules ignore it. -/
def Rules.keep (rules : Rules) (path : String) : Except Fault Rules :=
  if rules.isIgnored path then do
    let rule ← Rule.ofLine ('!' :: path.toList)
    return rules ++ [rule]
  else return rules

/-- The rules that an ignore file with this content means for a tree with this Dockerfile. -/
def Rules.ofContent (content : String) (dockerfile : Option String) : Except Fault Rules := do
  let rules ← Rules.parse content
  let rules ← rules.keep defaultName
  match dockerfile with
  | some path => rules.keep path
  | none => return rules

/-- Where the ignore file of a tree is: a given file, as seen from the tree, or the default one. -/
def location (workDir : Path) (ignoreFile : Option Path) : Path :=
  workDir.join (ignoreFile.getD ⟨defaultName⟩)

/-- Reads the rules of a tree; without an ignore file there are none. -/
def Rules.load (fs : FileSystem) (workDir : Path) (ignoreFile : Option Path)
    (dockerfile : Option String) : Except BuildError Rules :=
  match fs.readText (location workDir ignoreFile) with
  | .ok content =>
    (Rules.ofContent content dockerfile).mapError fun f => .invalidConfig f.message
  | .error e => if e.isNotFound then .ok [] else .error (.io e)

end ImageBuild.Ignore
