import ImageBuild.Daemon.Message
import ImageBuild.Json.Record
import ImageBuild.Text.Decimal
/-!
# The version of an engine

The report from which the builder of choice is told.
-/

namespace ImageBuild.Engine

open Json

/-- What an engine says of its version. -/
structure VersionRecord where
  apiVersion : Option String := none
  os : Option String := none
deriving Repr, DecidableEq

/-- A part of an engine that has a version of its own. -/
def componentForm : Reader Unit :=
  .form [.present .text "Name", .present .text "Version",
    .unused (Reader.table .text) "Details"]

def VersionRecord.fields : List (Json.Field VersionRecord) :=
  [.unused (Reader.form [.present .text "Name"]) "Platform",
    .unused (Reader.list componentForm) "Components",
    .unused .text "Version",
    .optional "ApiVersion" .text fun version r => { r with apiVersion := version },
    .unused .text "MinAPIVersion",
    .unused .text "GitCommit",
    .unused .text "GoVersion",
    .optional "Os" .text fun os r => { r with os := os },
    .unused .text "Arch",
    .unused .text "KernelVersion",
    .unused .bool "Experimental",
    .unused .text "BuildTime"]

def VersionRecord.reader : Reader VersionRecord :=
  .record fields {}

/-- The version of the interface since which BuildKit is the builder of choice. -/
def buildKitSince : Nat × Nat := (1, 42)

/-- Whether a version is `required` or later; what comes after the second number does not count. -/
def isAtLeast (version : String) (required : Nat × Nat) : Bool :=
  match (Text.piecesOf '.' version).map (Text.numeral? Text.words32) with
  | some major :: some minor :: _ =>
    required.1 < major || (required.1 = major && required.2 ≤ minor)
  | _ => false

/-- The builder of choice of an engine. -/
def preferredBuilder (v : VersionRecord) : BuilderKind :=
  if ((v.os.getD "").toList.map Char.toLower) = "linux".toList ∧
      isAtLeast (v.apiVersion.getD "") buildKitSince then .buildKit
  else .classic

end ImageBuild.Engine
