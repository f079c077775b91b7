import ImageBuild.Proofs.Registry.Views
/-!
# Docker Hub under its two names

A daemon looks Docker Hub up under its old key, and everybody else by its name.  So every entry of a credential
file that means Docker Hub comes into the table under both.  What a helper answers comes in only under the key
that the helper is named for, so a file without such an entry may give one of the two names away without the other.
-/

namespace ImageBuild.Registry

theorem canonical_ne_hubLegacyKey (key : String) : canonical key ≠ hubLegacyKey := by
  rw [canonical]
  split
  · decide
  · intro h
    have hlast := congrArg (fun r : String => r.toList.getLast?) h
    simp only [String.toList_ofList] at hlast
    rcases Text.dropTailWhile_eq_nil_or_append (· = '/') (Text.dropHeads "http://".toList
        (Text.dropHeads "https://".toList key.toList)) with hnil | ⟨front, c, hc, hslash⟩
    · rw [hnil] at hlast
      exact absurd hlast (by decide)
    · have hend : hubLegacyKey.toList.getLast? = some '/' := by decide
      rw [hc, List.getLast?_concat, hend] at hlast
      cases hlast
      simp at hslash

namespace Store

variable {helpers : Helpers} {s order : Store}

/-- An entry that comes into the table keeps the two names alike. -/
theorem addEntry_hub {t : CredentialTable} (h : t.get? hubLegacyKey = t.get? hub)
    (entry : String × StoredAuth) :
    (addEntry t entry).get? hubLegacyKey = (addEntry t entry).get? hub := by
  have hlegacy : hubLegacyKey ≠ canonical entry.1 := (canonical_ne_hubLegacyKey entry.1).symm
  rw [addEntry]
  split
  · rename_i c _
    by_cases hhub : canonical entry.1 = hub
    · simp only [hhub, if_true]
      rw [CredentialTable.get?_insert_self, CredentialTable.get?_insert_of_ne _ _ (by decide),
        CredentialTable.get?_insert_self]
    · simp only [hhub, if_false]
      rw [CredentialTable.get?_insert_of_ne _ _ hlegacy,
        CredentialTable.get?_insert_of_ne _ _ (Ne.symm hhub), h]
  · exact h

theorem addEntries_hub (auths : List (String × StoredAuth)) {t : CredentialTable}
    (h : t.get? hubLegacyKey = t.get? hub) :
    (auths.foldl addEntry t).get? hubLegacyKey = (auths.foldl addEntry t).get? hub := by
  induction auths generalizing t with
  | nil => exact h
  | cons entry auths ih => exact ih (addEntry_hub h entry)

/-- What the helper that is named for a key answers. -/
def named (s : Store) (helpers : Helpers) (key : String) : Option Credentials :=
  (s.helpers.find? fun e => e.1 == key).bind fun e => helpers.ask e.2 key

/-- No other helper answers under the same key. -/
theorem findSome?_named (hkeys : (s.helpers.map Prod.fst).Nodup) (horder : order.Reorders s)
    (key : String) :
    (order.helpers.findSome? fun entry => if entry.1 = key then helpers.ask entry.2 key else none) =
      s.named helpers key := by
  cases hfound : order.helpers.findSome? fun entry =>
      if entry.1 = key then helpers.ask entry.2 key else none with
  | some c =>
      obtain ⟨entry, hentry, hask⟩ := List.exists_of_findSome?_eq_some hfound
      split at hask
      · rename_i hkey
        subst hkey
        rw [named, find?_helpers_of_mem hkeys (horder.helpers.mem_iff.1 hentry)]
        exact hask.symm
      · cases hask
  | none =>
      rw [named]
      cases hfind : s.helpers.find? fun e => e.1 == key with
      | none => rfl
      | some entry =>
          have hkey : entry.1 = key := by simpa using List.find?_some hfind
          have hmem := horder.helpers.mem_iff.2 (List.mem_of_find?_eq_some hfind)
          have hnone := List.findSome?_eq_none_iff.1 hfound entry hmem
          rw [if_pos hkey] at hnone
          exact hnone.symm

/-- The table has of a key what the entries hold, or else what the helper of the key answers. -/
theorem get?_all (hkeys : (s.helpers.map Prod.fst).Nodup) (horder : order.Reorders s) (key : String) :
    (order.all helpers).get? key =
      ((order.auths.foldl addEntry []).get? key).or (s.named helpers key) := by
  rw [all, get?_addHelpers, findSome?_named hkeys horder]

theorem isSome_addEntries {r : String} (hr : r ≠ hubLegacyKey) (horder : order.Reorders s) :
    ((order.auths.foldl addEntry []).get? r).isSome = true ↔
      ∃ entry ∈ s.auths, canonical entry.1 = r ∧ ∃ secret, entry.2.secret = .ok (some secret) := by
  have hnone : CredentialTable.get? [] r = none := rfl
  rw [get?_addEntries hr, hnone, Option.or_none, Option.isSome_map]
  constructor
  · intro hlast
    obtain ⟨secret, hsecret⟩ := Option.isSome_iff_exists.1 hlast
    obtain ⟨entry, hentry, hheld⟩ := List.mem_filterMap.1 (List.mem_of_getLast? hsecret)
    obtain ⟨hkey, hok⟩ := secretFor?_eq_some_iff.1 hheld
    exact ⟨entry, horder.auths.mem_iff.1 hentry, hkey, secret, hok⟩
  · rintro ⟨entry, hentry, hkey, secret, hok⟩
    refine Option.isSome_iff_ne_none.2 fun hlast => ?_
    have hall := List.filterMap_eq_nil_iff.1 (List.getLast?_eq_none_iff.1 hlast)
    cases (hall entry (horder.auths.mem_iff.2 hentry)).symm.trans (secretFor?_eq_some_iff.2 ⟨hkey, hok⟩)

theorem all_hub_iff (hkeys : (s.helpers.map Prod.fst).Nodup) (horder : order.Reorders s) :
    (order.all helpers).get? hub = (order.all helpers).get? hubLegacyKey ↔
      (∃ entry ∈ s.auths, canonical entry.1 = hub ∧ ∃ secret, entry.2.secret = .ok (some secret)) ∨
        s.named helpers hub = s.named helpers hubLegacyKey := by
  have hhub : hub ≠ hubLegacyKey := by decide
  rw [get?_all hkeys horder, get?_all hkeys horder, addEntries_hub order.auths rfl,
    ← isSome_addEntries hhub horder]
  cases (order.auths.foldl addEntry []).get? hub with
  | some c => simp
  | none => simp

end Store

/-- Whatever the order of the entries, the table holds Docker Hub alike under its two names just if an entry of the
file holds it, under whatever spelling, or the helpers that are named for the two keys answer alike. -/
theorem hub_alike_iff {fs : FileSystem} {p : Path} {helpers : Helpers} {s order : Store}
    (hload : Store.load fs p = .ok (some s)) (horder : order.Reorders s) :
    (fileProvider fs helpers p).all = .ok (s.all helpers) ∧
      ((order.all helpers).get? hub = (order.all helpers).get? hubLegacyKey ↔
        (∃ entry ∈ s.auths, canonical entry.1 = hub ∧ ∃ secret, entry.2.secret = .ok (some secret)) ∨
          s.named helpers hub = s.named helpers hubLegacyKey) :=
  ⟨fileProvider_all hload, Store.all_hub_iff (Store.nodup_helpers_of_load hload) horder⟩

/-! ## A helper for one of the names -/

/-- A file that names a helper for Docker Hub. -/
def helperText : String := "\x7b\"credHelpers\":\x7b\"docker.io\":\"vault\"\x7d\x7d"

def helperStore : Store where
  helpers := [("docker.io", "vault")]

/-- A helper that has the credentials of Docker Hub. -/
def vault : Helpers := fun helper registry =>
  if helper = "vault" ∧ registry = "docker.io" then
    .output (Text.Utf8.ofString "\x7b\"Username\":\"deployer\",\"Secret\":\"s3cret\"\x7d")
  else .refused

theorem helperStore_load : Store.load (cardSystem helperText) ⟨"/card"⟩ = .ok (some helperStore) :=
  cardSystem_load (by cbv)

theorem helperStore_all : helperStore.all vault = [("docker.io", ⟨.password "deployer" "s3cret", "docker.io"⟩)] := by
  cbv

theorem hub_alike_iff_helper :
    Store.load (cardSystem helperText) ⟨"/card"⟩ = .ok (some helperStore) ∧
      helperStore.Reorders helperStore ∧
      (fileProvider (cardSystem helperText) vault ⟨"/card"⟩).all = .ok (helperStore.all vault) ∧
      ((helperStore.all vault).get? hub = (helperStore.all vault).get? hubLegacyKey ↔
        (∃ entry ∈ helperStore.auths, canonical entry.1 = hub ∧
            ∃ secret, entry.2.secret = .ok (some secret)) ∨
          helperStore.named vault hub = helperStore.named vault hubLegacyKey) :=
  ⟨helperStore_load, .refl helperStore, hub_alike_iff helperStore_load (.refl helperStore)⟩

/-- The daemon, which looks under the old key, is given nothing of what the helper answers. -/
theorem hub_helper_under_one_name :
    ∃ t, (fileProvider (cardSystem helperText) vault ⟨"/card"⟩).all = .ok t ∧
      t.get? hub = some ⟨.password "deployer" "s3cret", hub⟩ ∧ t.get? hubLegacyKey = none := by
  refine ⟨_, fileProvider_all helperStore_load, ?_⟩
  rw [helperStore_all]
  decide

end ImageBuild.Registry
