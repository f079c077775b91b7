import ImageBuild.Environment
import ImageBuild.Json.Record
/-!
# Settings

How builds are run: which daemon, how long to wait for it, how to push.  Settings are read from JSON,
where each has a default, and environment variables go over them.
-/

namespace ImageBuild

structure Settings where
  /-- The address of the daemon. -/
  daemonHost : Option String := none
  /-- Milliseconds to wait for a sign of life. -/
  probeTimeout : Nat := 5000
  /-- Milliseconds to wait for a report about the daemon. -/
  infoTimeout : Nat := 10000
  /-- Milliseconds between two attempts to push. -/
  pushRetryDelay : Nat := 3000
  /-- The largest number of attempts to push; zero sets no limit. -/
  pushMaxAttempts : Nat := 0
  platform : String := "linux/amd64"
  /-- Whether to build with BuildKit, as it was written. -/
  buildkit : Option String := none
deriving Repr, DecidableEq, Inhabited

namespace Settings

/-- A number of milliseconds. -/
def millis : Json.Reader Nat :=
  .natBelow Text.words64

def fields : List (Json.Field Settings) :=
  [.defaulted "daemon_host" (Json.Reader.nullable .text) fun host s => { s with daemonHost := host },
    .defaulted "probe_timeout_ms" millis fun n s => { s with probeTimeout := n },
    .defaulted "info_timeout_ms" millis fun n s => { s with infoTimeout := n },
    .defaulted "push_retry_delay_ms" millis fun n s => { s with pushRetryDelay := n },
    .defaulted "push_max_attempts" (.natBelow Text.words32) fun n s => { s with pushMaxAttempts := n },
    .defaulted "platform" .text fun platform s => { s with platform := platform },
    .defaulted "buildkit" (Json.Reader.nullable .text) fun word s => { s with buildkit := word }]

/-- Reads settings; whatever is not given has its default. -/
def reader : Json.Reader Settings :=
  .record fields {}

/-- Reads settings from a JSON text. -/
def parse? (s : String) : Option Settings :=
  (reader.readText s).toOption

/-- The settings with the environment variables that are set put over them.  A variable that is blank
or holds no number where one is needed changes nothing. -/
def withEnvironment (s : Settings) (env : Environment) : Settings where
  daemonHost := env.nonBlank? "FLEET_BUILD_DAEMON_HOST" <|> s.daemonHost
  probeTimeout := (env.numeral? Text.words64 "FLEET_BUILD_PROBE_TIMEOUT_MS").getD s.probeTimeout
  infoTimeout := (env.numeral? Text.words64 "FLEET_BUILD_INFO_TIMEOUT_MS").getD s.infoTimeout
  pushRetryDelay :=
    (env.numeral? Text.words64 "FLEET_BUILD_PUSH_RETRY_DELAY_MS").getD s.pushRetryDelay
  pushMaxAttempts :=
    (env.numeral? Text.words32 "FLEET_BUILD_PUSH_MAX_ATTEMPTS").getD s.pushMaxAttempts
  platform := (env.nonBlank? "FLEET_BUILD_PLATFORM").getD s.platform
  buildkit := env.nonBlank? "DOCKER_BUILDKIT" <|> s.buildkit

end Settings
end ImageBuild
