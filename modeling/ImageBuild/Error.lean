import ImageBuild.IoError
import ImageBuild.Phase
/-!
# Build errors

Why a build fails.  The error of a run names the phase it arose in: `inPhase` puts the name on, once,
and `root` takes it off.  `message` is the one wording of every error.
-/

namespace ImageBuild

/-- Errors in the exchange with an engine. -/
inductive EngineError where
  /-- The engine refused a request. -/
  | response (status : Nat) (message : String)
  /-- The engine reported an error in the middle of a stream. -/
  | stream (message : String)
  /-- The engine sent JSON of the wrong shape; the details are left out. -/
  | wrongShape
  /-- The engine sent something that is no JSON; the details are left out. -/
  | notJson
  | unsupportedScheme (address : String)
  | socketNotFound (path : String)
  | certificateNotRead (path : String)
  /-- The exchange itself broke off; the details are left out. -/
  | transport
  | io (e : IoError)
deriving Repr, DecidableEq

def EngineError.message : EngineError → String
  | .response status message =>
    "Docker responded with status code " ++ Nat.repr status ++ ": " ++ message
  | .stream message => "Docker stream error: " ++ message
  | .wrongShape => "Failed to deserialize JSON: ..."
  | .notJson => "..."
  | .unsupportedScheme address => "URI scheme is not supported: " ++ address
  | .socketNotFound path => "Socket not found: " ++ path
  | .certificateNotRead path => "Cannot open/read certificate with path: " ++ path
  | .transport => "Error in the hyper legacy client: ..."
  | .io e => e.message

inductive BuildError where
  | dockerfileNotFound (path : String)
  | capabilityDetection (reason : String)
  | connection (e : EngineError)
  | buildFailed (reason : String)
  | missingImageId
  | contextArchive (reason : String)
  | pushFailed (reason : String)
  | unauthorized (tag : String)
  | authFailed (registry reason : String)
  | invalidTag (reason : String)
  | invalidConfig (reason : String)
  | cancelled
  | phase (p : Phase) (source : BuildError)
  | io (e : IoError)
deriving Repr, DecidableEq, Inhabited

/-- What a caller does about an error depends on its kind. -/
inductive ErrorKind where
  | configuration
  | capabilityDetection
  | buildExecution
  | pushTransient
  | pushAuthorization
  | cancelled
deriving Repr, DecidableEq

namespace BuildError

def message : BuildError → String
  | dockerfileNotFound path => "Dockerfile not found: " ++ path
  | capabilityDetection reason => "Error checking for buildkit support: " ++ reason
  | connection e => "Docker connection error: " ++ e.message
  | buildFailed reason => "Build failed: " ++ reason
  | missingImageId => "Build finished without reporting an image id"
  | contextArchive reason => "Error archiving build context: " ++ reason
  | pushFailed reason => "Push failed: " ++ reason
  | unauthorized tag => "Registry denied access while pushing " ++ tag
  | authFailed registry reason => "Authentication failed for " ++ registry ++ ": " ++ reason
  | invalidTag reason => "Invalid tag: " ++ reason
  | invalidConfig reason => "Invalid build configuration: " ++ reason
  | cancelled => "Operation cancelled"
  | phase p source => p.name ++ ": " ++ source.message
  | io e => "IO error: " ++ e.message

/-- Names the phase an error arose in; an error that names one keeps it. -/
def inPhase (p : Phase) : BuildError → BuildError
  | phase q source => phase q source
  | e => phase p e

def phase? : BuildError → Option Phase
  | phase p _ => some p
  | _ => none

/-- The error without the names of phases. -/
def root : BuildError → BuildError
  | phase _ source => source.root
  | e => e

def kind (e : BuildError) : ErrorKind :=
  match e.root with
  | dockerfileNotFound _ | invalidConfig _ | invalidTag _ => .configuration
  | capabilityDetection _ => .capabilityDetection
  | pushFailed _ => .pushTransient
  | unauthorized _ => .pushAuthorization
  | cancelled => .cancelled
  | _ => .buildExecution

/-- The wording of the error that this one was made from. -/
def causeMessage? : BuildError → Option String
  | connection e => some e.message
  | phase _ source => some source.message
  | io e => some e.message
  | _ => none

/-- The wording for the person who asked for the build: it says what to do. -/
def userMessage (e : BuildError) : String :=
  match e.root with
  | dockerfileNotFound path =>
    "Dockerfileが見つかりません: " ++ path ++
      "\n\n解決方法:\n1. Dockerfileのパスを確認してください\n" ++
      "2. パスを省略すると作業ディレクトリの Dockerfile を使用します"
  | buildFailed reason =>
    "ビルドに失敗しました: " ++ reason ++ "\n\nDockerfileの内容を確認してください。"
  | unauthorized tag =>
    "レジストリへのプッシュが拒否されました: " ++ tag ++
      "\n\nレジストリの認証情報とイメージ名の権限を確認してください。"
  | capabilityDetection reason =>
    "Dockerデーモンのビルド機能を判定できませんでした: " ++ reason ++
      "\n\nDOCKER_BUILDKIT 環境変数の値を確認してください。"
  | other => other.message

theorem root_inPhase (p : Phase) (e : BuildError) : (e.inPhase p).root = e.root := by
  cases e <;> simp [inPhase, root]

theorem kind_inPhase (p : Phase) (e : BuildError) : (e.inPhase p).kind = e.kind := by
  simp [kind, root_inPhase]

/-- An error names one phase at most through `inPhase`: the first name stays. -/
theorem inPhase_inPhase (p q : Phase) (e : BuildError) :
    (e.inPhase p).inPhase q = e.inPhase p := by
  cases e <;> simp [inPhase]

end BuildError
end ImageBuild
