import ImageBuild.Daemon.Message
import ImageBuild.Engine.Swarm
/-!
# What an engine tells of images

The details of one image, the list of all images, and what was done to remove one.
-/

namespace ImageBuild.Engine

open Json

namespace Image

def platformForm : Reader Unit :=
  .form [.unused .text "architecture", .unused .text "os", .unused .text "os.version",
    .unused textListForm "os.features", .unused .text "variant"]

/-- The descriptor of a blob. -/
def descriptorForm : Reader Unit :=
  .form [.unused .text "mediaType", .unused .text "digest", .unused .int "size",
    .unused textListForm "urls", .unused textTableForm "annotations", .unused .text "data",
    .unused platformForm "platform", .unused .text "artifactType"]

def manifestImageForm : Reader Unit :=
  .form [.present platformForm "Platform",
    .present (Reader.nullable textListForm) "Containers",
    .present (Reader.form [.present .int "Unpacked"]) "Size"]

/-- What a manifest is for; an empty text is as good as `null`. -/
def kindForm : Reader (Option String) :=
  (Reader.text.among ["", "image", "attestation", "unknown"]).nullable

/-- One of the manifests behind an image. -/
def manifestForm : Reader Unit :=
  .form [.present .text "ID", .present descriptorForm "Descriptor", .present .bool "Available",
    .present (Reader.form [.present .int "Total", .present .int "Content"]) "Size",
    .present kindForm "Kind",
    .unused manifestImageForm "ImageData",
    .unused (Reader.form [.present .text "For"]) "AttestationData"]

def healthForm : Reader Unit :=
  .form (.unused textListForm "Test" ::
    ["Interval", "Timeout", "Retries", "StartPeriod", "StartInterval"].map (.unused .int))

/-- A set of names, written as a table of empty objects. -/
def nameSetForm : Reader (List (String × Unit)) := .table .bare

/-- How containers of an image start. -/
def configForm : Reader Unit :=
  .form (["Hostname", "Domainname", "User"].map (.unused .text) ++
    ["AttachStdin", "AttachStdout", "AttachStderr"].map (.unused .bool) ++
    [.unused nameSetForm "ExposedPorts"] ++
    ["Tty", "OpenStdin", "StdinOnce"].map (.unused .bool) ++
    [.unused textListForm "Env", .unused textListForm "Cmd", .unused healthForm "Healthcheck",
      .unused .bool "ArgsEscaped", .unused .text "Image", .unused nameSetForm "Volumes",
      .unused .text "WorkingDir", .unused textListForm "Entrypoint",
      .unused .bool "NetworkDisabled", .unused .text "MacAddress",
      .unused textListForm "OnBuild", .unused textTableForm "Labels",
      .unused .text "StopSignal", .unused .int "StopTimeout", .unused textListForm "Shell"])

def driverForm : Reader Unit :=
  .form [.present .text "Name", .present (Reader.nullable textTableForm) "Data"]

def layersForm : Reader Unit :=
  .form [.present .text "Type", .unused textListForm "Layers"]

def detailsFields : List (Json.Field ImageDetails) :=
  [.optional "Id" .text fun id i => { i with id := id.getD "" },
    .unused descriptorForm "Descriptor", .unused (Reader.list manifestForm) "Manifests",
    .unused textListForm "RepoTags", .unused textListForm "RepoDigests",
    .unused .text "Parent", .unused .text "Comment", momentField "Created",
    .unused .text "DockerVersion", .unused .text "Author", .unused configForm "Config"] ++
  ["Architecture", "Variant", "Os", "OsVersion"].map (.unused .text) ++
  [.optional "Size" .int fun size i => { i with size := size.getD 0 },
    .unused .int "VirtualSize", .unused driverForm "GraphDriver", .unused layersForm "RootFS",
    .unused (Reader.form [momentField "LastTagTime"]) "Metadata"]

/-- Reads the details of an image. -/
def detailsReader : Reader ImageDetails :=
  .record detailsFields ⟨"", 0⟩

def tagsFields : List (Json.Field (List String)) :=
  [.present .text "Id", .present .text "ParentId",
    .required "RepoTags" (Reader.nullable textListForm) fun tags _ => tags.getD [],
    .present (Reader.nullable textListForm) "RepoDigests"] ++
  ["Created", "Size", "SharedSize"].map (.present .int) ++
  [.unused .int "VirtualSize", .present (Reader.nullable textTableForm) "Labels",
    .present .int "Containers", .unused (Reader.list manifestForm) "Manifests",
    .unused descriptorForm "Descriptor"]

/-- Reads an image of a list, of which only the tags matter. -/
def tagsReader : Reader (List String) :=
  .record tagsFields []

/-- What was done to remove an image. -/
def removalForm : Reader Unit :=
  .form [.unused .text "Untagged", .unused .text "Deleted"]

end Image
end ImageBuild.Engine
