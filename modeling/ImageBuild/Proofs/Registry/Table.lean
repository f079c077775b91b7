import ImageBuild.Proofs.Registry.Hub
/-!
# What the table of all credentials holds

The entries of a credential file come into the table under their registries, and Docker Hub under its old key as
well; the helpers fill what is left.  An entry without credentials and a helper without an answer leave no trace in
the table, and a helper is asked only for a key that no entry covers.
-/

namespace ImageBuild.Registry

namespace Store

variable {helpers : Helpers} {s order : Store} {r key : String}

/-- Some entry holds credentials for the registry, under whatever spelling. -/
def holds (s : Store) (r : String) : Bool :=
  s.auths.any fun entry => (secretFor? r entry).isSome

/-- The entries alone put the key into the table. -/
def covers (s : Store) (key : String) : Bool :=
  s.holds key || (key == hubLegacyKey && s.holds hub)

theorem Reorders.holds (horder : order.Reorders s) (r : String) : order.holds r = s.holds r :=
  horder.auths.any_eq

theorem Reorders.covers (horder : order.Reorders s) (key : String) : order.covers key = s.covers key := by
  rw [Store.covers, Store.covers, horder.holds, horder.holds]

/-- Adds what a helper holds, where to ask it is an action. -/
def askFor {m : Type → Type} [Monad m] (ask : String → String → m (Option Credentials))
    (t : CredentialTable) (entry : String × String) : m CredentialTable := do
  if t.contains entry.1 then return t
  match ← ask entry.2 entry.1 with
  | some c => return t.insert entry.1 c
  | none => return t

/-- The credentials of all registries, gathered by such actions. -/
def gather {m : Type → Type} [Monad m] (ask : String → String → m (Option Credentials)) (s : Store) :
    m CredentialTable :=
  s.helpers.foldlM (askFor ask) (s.auths.foldl addEntry [])

theorem gather_pure {m : Type → Type} [Monad m] [LawfulMonad m] (s : Store) (helpers : Helpers) :
    s.gather (fun helper registry => (pure (helpers.ask helper registry) : m _)) = pure (s.all helpers) := by
  have hstep : askFor (fun helper registry => (pure (helpers.ask helper registry) : m _)) =
      fun t entry => pure (addHelper helpers t entry) := by
    funext t entry
    rw [askFor, addHelper]
    split_ifs
    · rfl
    · rw [pure_bind]
      cases helpers.ask entry.2 entry.1 <;> rfl
  rw [gather, hstep, List.foldlM_pure]
  rfl

end Store

end ImageBuild.Registry
