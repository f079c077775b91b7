import ImageBuild.Environment
import ImageBuild.FileTree.Lookup
import ImageBuild.Json.Record
import ImageBuild.Registry.Credentials
import ImageBuild.Text.Base64
/-!
# The credential file

A credential file holds secrets by registry, and names helper programs that hold others.  A lookup
for one image reads the entry of its registry and asks a helper only without one.  The table of all
credentials takes every entry of the file, in the order in which the file lists them, and then asks
the helpers of the registries that are still missing.
-/

namespace ImageBuild.Registry

/-- An entry of the file: a pair of user name and password in Base64, or a token. -/
structure StoredAuth where
  auth : Option String := none
  identityToken : Option String := none
deriving Repr, DecidableEq

/-- The content of a credential file. -/
structure Store where
  auths : List (String × StoredAuth) := []
  /-- The helper of the registries that have none of their own. -/
  defaultHelper : Option String := none
  /-- Helpers by registry. -/
  helpers : List (String × String) := []
deriving Repr, DecidableEq

/-- What comes of asking a helper program for a registry. -/
inductive HelperAnswer where
  /-- There is no such program. -/
  | unavailable
  /-- The program has nothing for the registry. -/
  | refused
  | output (bytes : List UInt8)
deriving Repr, DecidableEq

/-- What the helper programs answer, by program and registry. -/
abbrev Helpers := String → String → HelperAnswer

def StoredAuth.reader : Json.Reader StoredAuth :=
  .record
    [.optional "auth" .text fun auth a => { a with auth := auth },
      .optional "identitytoken" .text fun token a => { a with identityToken := token }] {}

def Store.reader : Json.Reader Store :=
  .record
    [.defaulted "auths" (Json.Reader.table StoredAuth.reader) fun auths s => { s with auths := auths },
      .defaulted "credsStore" (Json.Reader.nullable .text) fun helper s =>
        { s with defaultHelper := helper },
      .defaulted "credHelpers" (Json.Reader.table .text) fun helpers s =>
        { s with helpers := helpers }] {}

/-- Why an entry holds no credentials that can be read. -/
inductive AuthFault where
  | encoding (f : Text.Base64.Fault)
  | notText (f : Text.Utf8.Fault)
deriving Repr, DecidableEq

def AuthFault.message : AuthFault → String
  | .encoding f => "Failed to decode auth: " ++ f.message
  | .notText f => "Invalid UTF-8 in auth: " ++ f.message

/-- A user name and a password, written with the first colon between them. -/
def splitPair (pair : List Char) : Option Secret :=
  (Text.splitOnce ':' pair).map fun (username, password) =>
    .password (String.ofList username) (String.ofList password)

/-- The secret in a pair of user name and password in Base64. -/
def decodePair (encoded : String) : Except AuthFault (Option Secret) :=
  match Text.Base64.decode (Text.Utf8.ofString encoded) with
  | .error f => .error (.encoding f)
  | .ok bytes =>
    match Text.Utf8.decode bytes with
    | .error f => .error (.notText f)
    | .ok pair => .ok (splitPair pair)

/-- The secret of an entry.  A token goes before a pair, and an empty text is as good as none. -/
def StoredAuth.secret (a : StoredAuth) : Except AuthFault (Option Secret) :=
  match a.identityToken.filter (· ≠ "") with
  | some token => .ok (some (.identityToken token))
  | none =>
    match a.auth.filter (· ≠ "") with
    | some encoded => decodePair encoded
    | none => .ok none

/-- The credentials that an entry means under its key. -/
def StoredAuth.credentials (a : StoredAuth) (key : String) :
    Except BuildError (Option Credentials) :=
  match a.secret with
  | .ok secret => .ok (secret.map fun s => ⟨s, canonical key⟩)
  | .error f => .error (.authFailed key f.message)

/-- The user name with which a helper marks a token. -/
def tokenUser : String := "<token>"

/-- Reads the user name and the secret in the output of a helper. -/
def helperReader : Json.Reader (String × String) :=
  .record
    [.required "Username" .text fun username p => (username, p.2),
      .required "Secret" .text fun secret p => (p.1, secret)] ("", "")

/-- The secret in the output of a helper. -/
def helperSecret? (bytes : List UInt8) : Option Secret :=
  (helperReader.readBytes bytes).toOption.map fun (username, secret) =>
    if username = tokenUser then .identityToken secret else .password username secret

/-- Asks a helper; a helper that fails is one without an answer. -/
def Helpers.ask (helpers : Helpers) (helper registry : String) : Option Credentials :=
  match helpers helper registry with
  | .output bytes => (helperSecret? bytes).map fun s => ⟨s, canonical registry⟩
  | _ => none

namespace Store

def auth? (s : Store) (key : String) : Option StoredAuth :=
  (s.auths.find? fun e => e.1 == key).map Prod.snd

/-- The entry of a registry, which for Docker Hub may stand under its old key. -/
def entryOf? (s : Store) (registry : String) : Option StoredAuth :=
  match s.auth? registry with
  | some a => some a
  | none => if registry = hub then s.auth? hubLegacyKey else none

/-- The helper that is asked for a registry. -/
def helperFor? (s : Store) (registry : String) : Option String :=
  match s.helpers.find? fun e => e.1 == registry with
  | some e => some e.2
  | none => s.defaultHelper

/-- The credentials of one registry. -/
def lookup (s : Store) (helpers : Helpers) (registry : String) :
    Except BuildError (Option Credentials) := do
  let stored ← match s.entryOf? registry with
    | some a => a.credentials registry
    | none => .ok none
  match stored with
  | some c => return some c
  | none => return (s.helperFor? registry).bind fun helper => helpers.ask helper registry

/-- Adds what an entry holds.  The builder looks Docker Hub up under its old key too. -/
def addEntry (t : CredentialTable) (entry : String × StoredAuth) : CredentialTable :=
  match entry.2.credentials entry.1 with
  | .ok (some c) =>
    let registry := canonical entry.1
    let t := if registry = hub then t.insert hubLegacyKey c else t
    t.insert registry c
  | _ => t

/-- Adds what a helper holds for its registry, unless the table has credentials for it. -/
def addHelper (helpers : Helpers) (t : CredentialTable) (entry : String × String) :
    CredentialTable :=
  if t.contains entry.1 then t
  else
    match helpers.ask entry.2 entry.1 with
    | some c => t.insert entry.1 c
    | none => t

/-- The credentials of all registries. -/
def all (s : Store) (helpers : Helpers) : CredentialTable :=
  s.helpers.foldl (addHelper helpers) (s.auths.foldl addEntry [])

/-- Reads the credential file at a path; there may be none. -/
def load (fs : FileSystem) (p : Path) : Except BuildError (Option Store) :=
  if !fs.exists? p then .ok none
  else
    match fs.readText p with
    | .error e => .error (.authFailed p.text ("Failed to read config.json: " ++ e.message))
    | .ok content =>
      match reader.readText content with
      | .ok s => .ok (some s)
      | .error _ => .error (.authFailed p.text "Failed to parse config.json: ...")

end Store

/-- The credentials in the file at a path and in the helpers it names. -/
def fileProvider (fs : FileSystem) (helpers : Helpers) (p : Path) : Provider where
  forImage image := do
    match ← Store.load fs p with
    | some s => s.lookup helpers (registryOf image)
    | none => return none
  all := do
    match ← Store.load fs p with
    | some s => return s.all helpers
    | none => return []

/-- Where the credential file of a user is: in the directory that the environment names, or else in
one below the user's home. -/
def credentialFile (env : Environment) (accountHome : Option Path) : Path :=
  let home := (env.path? "HOME").filter (fun p => p.text ≠ "") <|> accountHome
  let dir := env.path? "DOCKER_CONFIG" <|> home.map (·.join ⟨".docker"⟩)
  (dir.getD ⟨".docker"⟩).join ⟨"config.json"⟩

end ImageBuild.Registry
