import ImageBuild.Json.Record
import ImageBuild.Text.Decimal
import ImageBuild.Text.Moment
/-!
# The cluster of an engine

An engine that belongs to a cluster reports on it.  Nothing of the report is used, but it has to be of
the right form.
-/

namespace ImageBuild.Engine

open Json

/-- A field with a moment in time, which arrays may leave out as well. -/
def momentField {σ : Type} (name : String) : Json.Field σ :=
  .defaulted name (Reader.text.choose fun s => if Text.isMoment s then some () else none).nullable
    fun _ s => s

def textListForm : Reader (List String) := .list .text

def textTableForm : Reader (List (String × String)) := .table .text

/-- A whole number without a sign that fits into 64 bits. -/
def wordForm : Reader Nat := .natBelow Text.words64

namespace Swarm

def raftForm : Reader Unit :=
  .form (["SnapshotInterval", "KeepOldSnapshots", "LogEntriesForSlowFollowers"].map
      (.unused wordForm) ++
    ["ElectionTick", "HeartbeatTick"].map (.unused .int))

def externalAuthorityForm : Reader Unit :=
  .form [.unused (Reader.word ["", "cfssl"]) "Protocol", .unused .text "URL",
    .unused textTableForm "Options", .unused .text "CACert"]

def authorityForm : Reader Unit :=
  .form [.unused .int "NodeCertExpiry", .unused (Reader.list externalAuthorityForm) "ExternalCAs",
    .unused .text "SigningCACert", .unused .text "SigningCAKey", .unused wordForm "ForceRotate"]

def logDriverForm : Reader Unit :=
  .form [.unused .text "Name", .unused textTableForm "Options"]

def specForm : Reader Unit :=
  .form [.unused .text "Name", .unused textTableForm "Labels",
    .unused (Reader.form [.unused .int "TaskHistoryRetentionLimit"]) "Orchestration",
    .unused raftForm "Raft",
    .unused (Reader.form [.unused .int "HeartbeatPeriod"]) "Dispatcher",
    .unused authorityForm "CAConfig",
    .unused (Reader.form [.unused .bool "AutoLockManagers"]) "EncryptionConfig",
    .unused (Reader.form [.unused logDriverForm "LogDriver"]) "TaskDefaults"]

def clusterForm : Reader Unit :=
  .form [.unused .text "ID",
    .unused (Reader.form [.unused wordForm "Index"]) "Version",
    momentField "CreatedAt", momentField "UpdatedAt",
    .unused specForm "Spec",
    .unused (Reader.form (["TrustRoot", "CertIssuerSubject", "CertIssuerPublicKey"].map
      (.unused .text))) "TLSInfo",
    .unused .bool "RootRotationInProgress",
    .unused (Reader.natBelow Text.words32) "DataPathPort",
    .unused textListForm "DefaultAddrPool",
    .unused (Reader.natBelow Text.words32) "SubnetSize"]

def peerForm : Reader Unit :=
  .form [.unused .text "NodeID", .unused .text "Addr"]

/-- What an engine tells of its cluster. -/
def form : Reader Unit :=
  .form [.unused .text "NodeID", .unused .text "NodeAddr",
    .unused (Reader.word ["", "inactive", "pending", "active", "error", "locked"])
      "LocalNodeState",
    .unused .bool "ControlAvailable", .unused .text "Error",
    .unused (Reader.list peerForm) "RemoteManagers",
    .unused .int "Nodes", .unused .int "Managers", .unused clusterForm "Cluster"]

end Swarm
end ImageBuild.Engine
