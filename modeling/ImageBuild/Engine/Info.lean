import ImageBuild.Daemon.Message
import ImageBuild.Engine.Swarm
/-!
# What an engine reports about itself

A long record, of which four fields are used; the others have to be of the right form if they are there.
-/

namespace ImageBuild.Engine

open Json

namespace Info

def pluginsForm : Reader Unit :=
  .form (["Volume", "Network", "Authorization", "Log"].map (.unused textListForm))

def registryForm : Reader Unit :=
  .form [.unused .text "Name", .unused textListForm "Mirrors", .unused .bool "Secure",
    .unused .bool "Official"]

def registriesForm : Reader Unit :=
  .form [.unused textListForm "InsecureRegistryCIDRs",
    .unused (Reader.table registryForm) "IndexConfigs", .unused textListForm "Mirrors"]

def resourceForm : Reader Unit :=
  .form [
    .unused (Reader.form [.unused .text "Kind", .unused .text "Value"]) "NamedResourceSpec",
    .unused (Reader.form [.unused .text "Kind", .unused .int "Value"]) "DiscreteResourceSpec"]

def runtimeForm : Reader Unit :=
  .form [.unused .text "path", .unused textListForm "runtimeArgs", .unused textTableForm "status"]

def commitForm : Reader Unit :=
  .form [.unused .text "ID"]

def addressPoolForm : Reader Unit :=
  .form [.unused .text "Base", .unused .int "Size"]

/-- A list of pairs of texts, which need not be pairs. -/
def pairsForm : Reader (List (List String)) := .list textListForm

def firewallForm : Reader Unit :=
  .form [.unused .text "Driver", .unused pairsForm "Info"]

def containerdForm : Reader Unit :=
  .form [.unused .text "Address",
    .unused (Reader.form [.unused .text "Containers", .unused .text "Plugins"]) "Namespaces"]

/-- The fields that tell the state of an engine. -/
def stateFields : List (Json.Field DaemonInfo) :=
  [.unused .text "ID"] ++
  ["Containers", "ContainersRunning", "ContainersPaused", "ContainersStopped", "Images"].map
    (.unused .int) ++
  [.unused .text "Driver", .unused pairsForm "DriverStatus", .unused .text "DockerRootDir",
    .unused pluginsForm "Plugins"] ++
  ["MemoryLimit", "SwapLimit", "KernelMemoryTCP", "CpuCfsPeriod", "CpuCfsQuota", "CPUShares",
    "CPUSet", "PidsLimit", "OomKillDisable", "IPv4Forwarding", "BridgeNfIptables",
    "BridgeNfIp6tables", "Debug"].map (.unused .bool) ++
  ["NFd", "NGoroutines"].map (.unused .int) ++
  [.unused .text "SystemTime", .unused .text "LoggingDriver",
    .unused (Reader.word ["", "cgroupfs", "systemd", "none"]) "CgroupDriver",
    .unused (Reader.word ["", "1", "2"]) "CgroupVersion",
    .unused .int "NEventsListener"]

/-- The fields that tell the machine of an engine. -/
def machineFields : List (Json.Field DaemonInfo) :=
  [.unused .text "KernelVersion", .unused .text "OperatingSystem",
    .optional "OSVersion" .text fun version i => { i with osVersion := version.getD "" },
    .optional "OSType" .text fun os i => { i with osType := os.getD "" },
    .optional "Architecture" .text fun arch i => { i with architecture := arch.getD "" },
    .unused .int "NCPU", .unused .int "MemTotal"]

/-- The fields that tell the settings of an engine. -/
def settingsFields : List (Json.Field DaemonInfo) :=
  [.unused .text "IndexServerAddress", .unused registriesForm "RegistryConfig",
    .unused (Reader.list resourceForm) "GenericResources"] ++
  ["HttpProxy", "HttpsProxy", "NoProxy", "Name"].map (.unused .text) ++
  [.unused textListForm "Labels", .unused .bool "ExperimentalBuild",
    .optional "ServerVersion" .text fun version i => { i with serverVersion := version.getD "" },
    .unused (Reader.table runtimeForm) "Runtimes", .unused .text "DefaultRuntime",
    .unused Swarm.form "Swarm", .unused .bool "LiveRestoreEnabled",
    .unused (Reader.word ["", "default", "hyperv", "process"]) "Isolation",
    .unused .text "InitBinary"] ++
  ["ContainerdCommit", "RuncCommit", "InitCommit"].map (.unused commitForm) ++
  [.unused textListForm "SecurityOptions", .unused .text "ProductLicense",
    .unused (Reader.list addressPoolForm) "DefaultAddressPools",
    .unused firewallForm "FirewallBackend",
    .unused textListForm "Warnings", .unused textListForm "CDISpecDirs",
    .unused containerdForm "Containerd"]

/-- Reads what an engine reports about itself. -/
def reader : Reader DaemonInfo :=
  .record (stateFields ++ machineFields ++ settingsFields) {}

end Info
end ImageBuild.Engine
