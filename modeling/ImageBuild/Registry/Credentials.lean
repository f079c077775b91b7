import ImageBuild.Error
import ImageBuild.Registry.Reference
/-!
# Credentials

What a registry is shown, and where it comes from.  A `Provider` answers for one image, as a push
needs, and for all registries at once, as a build needs.
-/

namespace ImageBuild.Registry

/-- What proves to a registry who is asking. -/
inductive Secret where
  | password (username password : String)
  | identityToken (token : String)
deriving Repr, DecidableEq

structure Credentials where
  secret : Secret
  /-- The registry the secret is for. -/
  address : String
deriving Repr, DecidableEq

/-- Credentials by registry, each registry once. -/
abbrev CredentialTable := List (String × Credentials)

namespace CredentialTable

def get? (t : CredentialTable) (registry : String) : Option Credentials :=
  (t.find? fun e => e.1 == registry).map Prod.snd

def contains (t : CredentialTable) (registry : String) : Bool :=
  t.any fun e => e.1 == registry

/-- The table with the credentials of one registry set. -/
def insert : CredentialTable → String → Credentials → CredentialTable
  | [], registry, c => [(registry, c)]
  | e :: es, registry, c =>
    if e.1 = registry then (registry, c) :: es else e :: insert es registry c

theorem get?_insert_self (t : CredentialTable) (r : String) (c : Credentials) :
    (t.insert r c).get? r = some c := by
  induction t with
  | nil => simp [insert, get?]
  | cons e es ih =>
    by_cases h : e.1 = r
    · simp [insert, get?, h]
    · simpa [insert, get?, h] using ih

theorem get?_insert_of_ne (t : CredentialTable) {r s : String} (c : Credentials) (h : s ≠ r) :
    (t.insert r c).get? s = t.get? s := by
  induction t with
  | nil => simp [insert, get?, Ne.symm h]
  | cons e es ih =>
    by_cases he : e.1 = r
    · subst he
      simp [insert, get?, Ne.symm h]
    · by_cases hs : e.1 = s
      · subst hs
        simp [insert, get?, he]
      · simpa [insert, get?, he, hs] using ih

end CredentialTable

/-- A source of credentials. -/
structure Provider where
  forImage : String → Except BuildError (Option Credentials)
  all : Except BuildError CredentialTable

/-- Credentials that the caller has at hand. -/
def CredentialTable.provider (t : CredentialTable) : Provider where
  forImage image := .ok (t.get? (registryOf image))
  all := .ok t

/-- A table of user names and passwords, given in order; the last one for a registry counts. -/
def CredentialTable.ofPasswords (entries : List (String × String × String)) : CredentialTable :=
  entries.foldl (fun t (registry, username, password) =>
    t.insert registry ⟨.password username password, registry⟩) []

end ImageBuild.Registry
