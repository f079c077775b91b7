import ImageBuild.Daemon.Message
/-!
# Solve requests

A build in a session is written down as attributes of the frontend, by name: what a spec says, with
the names of labels and build arguments marked as such.
-/

namespace ImageBuild.Solve

def frontend : String := "dockerfile.v0"

def labelMark : String := "label:"

def argMark : String := "build-arg:"

/-- The kind of export that puts the image into the daemon's own store. -/
def imageExport : String := "moby"

/-- The key of the image's digest in the response. -/
def digestKey : String := "containerimage.digest"

/-- The entries of a table, with marked names. -/
def marked (mark : String) (entries : List (String × String)) : List (String × String) :=
  entries.map fun (name, value) => (mark ++ name, value)

/-- The directory of a Dockerfile. -/
def dockerfileDir (workDir dockerfile : Path) : Path :=
  dockerfile.parent?.getD workDir

/-- The request for a spec and a Dockerfile. -/
def request (spec : BuildSpec) (dockerfile : Path) (args : List (String × String))
    (platform : String) : SolveRequest where
  frontend := frontend
  frontendAttrs :=
    [("filename", dockerfile.fileName?.getD "Dockerfile"), ("platform", platform)] ++
    (spec.target.map fun target => ("target", target)).toList ++
    (if spec.noCache then [("no-cache", "")] else []) ++
    marked labelMark spec.labels ++ marked argMark args
  localDirs :=
    [("dockerfile", (dockerfileDir spec.workDir dockerfile).text), ("context", spec.workDir.text)]
  exports := [⟨imageExport, [("name", spec.tag)]⟩]
  secrets := spec.secrets

end ImageBuild.Solve
