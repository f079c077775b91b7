import ImageBuild.Registry.Store
import ImageBuild.Proofs.FileTree.Resolution
import ImageBuild.Proofs.Json.Yields
import ImageBuild.Proofs.Text.Encode
import Mathlib
/-!
# The two views of a credential file

A push looks the registry of its image up in the credential file, and a build takes the table of all
credentials.  The lookup reads only the entry whose key is the registry, or the old key of Docker Hub;
the table brings every key into its canonical form first.  So an entry under `https://ghcr.io/` serves
the build and not the push, and a broken entry under `ghcr.io` fails the push while the table passes
over it.  `views_agree_iff` says when both come to the same.
-/

namespace ImageBuild.Registry

/-! ## Registries and keys -/

theorem notMem_front_of_splitOnce {α : Type} [BEq α] [LawfulBEq α] {x : α} {xs front back : List α}
    (h : Text.splitOnce x xs = some (front, back)) : x ∉ front := by
  rw [Text.splitOnce] at h
  split at h
  · cases h
  · cases h
    intro hx
    simpa using List.mem_takeWhile_imp hx

theorem slash_notMem_registryOf (image : String) : '/' ∉ (registryOf image).toList := by
  rw [registryOf]
  split
  · rename_i first back hsplit
    split
    · rw [String.toList_ofList]
      exact notMem_front_of_splitOnce hsplit
    · decide
  · decide

theorem dropHeads_of_slash {head xs : List Char} (hhead : '/' ∈ head) (hxs : '/' ∉ xs) :
    Text.dropHeads head xs = xs := by
  rw [Text.dropHeads, dif_neg]
  rintro ⟨-, hfront⟩
  exact hxs ((List.isPrefixOf_iff_prefix.1 hfront).subset hhead)

theorem dropTailWhile_of_slash {xs : List Char} (hxs : '/' ∉ xs) :
    Text.dropTailWhile (· = '/') xs = xs := by
  obtain ⟨tail, happend, htail⟩ := Text.exists_dropTailWhile_append (· = '/') xs
  cases tail with
  | nil => simpa using happend
  | cons c tail =>
      have hc : c = '/' := by simpa using htail c List.mem_cons_self
      exact absurd (happend ▸ List.mem_append_right _ (hc ▸ List.mem_cons_self)) hxs

variable {r : String}

theorem ne_hubLegacyKey_of_slash (hr : '/' ∉ r.toList) : r ≠ hubLegacyKey := by
  rintro rfl
  exact hr (by decide)

/-- A registry without a slash is its own canonical key. -/
theorem canonical_of_slash (hr : '/' ∉ r.toList) : canonical r = r := by
  have hhttps : Text.dropHeads "https://".toList r.toList = r.toList :=
    dropHeads_of_slash (by decide) hr
  have hhttp : Text.dropHeads "http://".toList r.toList = r.toList :=
    dropHeads_of_slash (by decide) hr
  simp only [canonical, if_neg (ne_hubLegacyKey_of_slash hr), hhttps, hhttp,
    dropTailWhile_of_slash hr, String.ofList_toList]

/-! ## The table of all credentials -/

/-- The secret that an entry holds for a registry, however its key is spelled. -/
def secretFor? (r : String) (entry : String × StoredAuth) : Option Secret :=
  if canonical entry.1 = r then entry.2.secret.toOption.join else none

theorem secretFor?_eq_some_iff {entry : String × StoredAuth} {secret : Secret} :
    secretFor? r entry = some secret ↔
      canonical entry.1 = r ∧ entry.2.secret = .ok (some secret) := by
  rw [secretFor?]
  split
  · rename_i hkey
    rcases entry.2.secret with f | _ | held <;> simp [Except.toOption, hkey]
  · rename_i hkey
    simp [hkey]

namespace Store

variable {helpers : Helpers} {s order : Store} {c : Credentials}

theorem get?_addEntry (hr : r ≠ hubLegacyKey) (t : CredentialTable) (entry : String × StoredAuth) :
    (addEntry t entry).get? r = ((secretFor? r entry).map (⟨·, r⟩)).or (t.get? r) := by
  rw [addEntry, StoredAuth.credentials, secretFor?]
  obtain f | _ | secret := entry.2.secret
  · simp [Except.toOption]
  · simp [Except.toOption]
  · by_cases hkey : canonical entry.1 = r
    · simp [Except.toOption, hkey, CredentialTable.get?_insert_self]
    · simp only [Option.map_some, if_neg hkey, Option.map_none, Option.none_or]
      rw [CredentialTable.get?_insert_of_ne _ _ (Ne.symm hkey)]
      split
      · rw [CredentialTable.get?_insert_of_ne _ _ hr]
      · rfl

/-- The last entry with a secret for the registry counts. -/
theorem get?_addEntries (hr : r ≠ hubLegacyKey) (auths : List (String × StoredAuth))
    (t : CredentialTable) :
    (auths.foldl addEntry t).get? r =
      ((auths.filterMap (secretFor? r)).getLast?.map (⟨·, r⟩)).or (t.get? r) := by
  induction auths generalizing t with
  | nil => rfl
  | cons entry auths ih =>
      rw [List.foldl_cons, ih, get?_addEntry hr, List.filterMap_cons]
      cases secretFor? r entry with
      | none => rfl
      | some secret =>
          rw [List.getLast?_cons]
          cases (auths.filterMap (secretFor? r)).getLast? <;> rfl

theorem contains_eq_isSome_get? (t : CredentialTable) (key : String) :
    t.contains key = (t.get? key).isSome := by
  rw [CredentialTable.contains, CredentialTable.get?, Option.isSome_map, List.isSome_find?]

/-- The first helper of the registry that answers counts, if no entry did. -/
theorem get?_addHelpers (named : List (String × String)) (t : CredentialTable) :
    (named.foldl (addHelper helpers) t).get? r =
      (t.get? r).or (named.findSome? fun entry =>
        if entry.1 = r then helpers.ask entry.2 r else none) := by
  induction named generalizing t with
  | nil => rw [List.foldl_nil, List.findSome?_nil, Option.or_none]
  | cons entry named ih =>
      have hentry : (addHelper helpers t entry).get? r =
          (t.get? r).or (if entry.1 = r then helpers.ask entry.2 r else none) := by
        rw [addHelper, contains_eq_isSome_get?]
        by_cases hkey : entry.1 = r
        · subst hkey
          cases hheld : t.get? entry.1 with
          | some held => simp [hheld]
          | none =>
              cases helpers.ask entry.2 entry.1 <;>
                simp [hheld, CredentialTable.get?_insert_self]
        · simp only [if_neg hkey, Option.or_none]
          split
          · rfl
          · split
            · exact CredentialTable.get?_insert_of_ne _ _ (Ne.symm hkey)
            · rfl
      rw [List.foldl_cons, ih, hentry, Option.or_assoc, List.findSome?_cons]
      cases (if entry.1 = r then helpers.ask entry.2 r else none) <;> rfl

/-- What the helper of a registry answers; the default helper stands in for a missing one. -/
def asked (s : Store) (helpers : Helpers) (r : String) : Option Credentials :=
  (s.helperFor? r).bind fun helper => helpers.ask helper r

/-- The same store, its entries in an order of their own. -/
structure Reorders (order s : Store) : Prop where
  auths : order.auths.Perm s.auths
  helpers : order.helpers.Perm s.helpers

theorem Reorders.refl (s : Store) : s.Reorders s := ⟨.refl _, .refl _⟩

theorem find?_helpers_of_mem (hkeys : (s.helpers.map Prod.fst).Nodup) {entry : String × String}
    (hmem : entry ∈ s.helpers) : s.helpers.find? (fun e => e.1 == entry.1) = some entry := by
  obtain ⟨front, back, hsplit⟩ := List.append_of_mem hmem
  rw [hsplit, List.map_append, List.map_cons, List.nodup_append] at hkeys
  have hfront : ∀ e ∈ front, (e.1 == entry.1) = false := fun e he =>
    beq_eq_false_iff_ne.2 (hkeys.2.2 e.1 (List.mem_map_of_mem he) entry.1 List.mem_cons_self)
  rw [hsplit, List.find?_append, List.find?_eq_none.2 (by simpa using hfront)]
  simp

theorem asked_of_mem (hkeys : (s.helpers.map Prod.fst).Nodup) {entry : String × String}
    (hmem : entry ∈ s.helpers) : s.asked helpers entry.1 = helpers.ask entry.2 entry.1 := by
  rw [asked, helperFor?, find?_helpers_of_mem hkeys hmem]
  rfl

/-- The credentials in the table come from an entry for their registry, or from its helper if there is
no such entry. -/
theorem source_of_get?_all (hr : '/' ∉ r.toList) (hkeys : (s.helpers.map Prod.fst).Nodup)
    (horder : order.Reorders s) (hc : (order.all helpers).get? r = some c) :
    (∃ entry ∈ s.auths, secretFor? r entry = some c.secret ∧ c.address = r) ∨
      (∀ entry ∈ s.auths, secretFor? r entry = none) ∧ s.asked helpers r = some c := by
  rw [all, get?_addHelpers, get?_addEntries (ne_hubLegacyKey_of_slash hr)] at hc
  cases hlast : (order.auths.filterMap (secretFor? r)).getLast? with
  | some secret =>
      obtain ⟨entry, hentry, hsecret⟩ := List.mem_filterMap.1 (List.mem_of_getLast? hlast)
      rw [hlast] at hc
      cases hc
      exact .inl ⟨entry, horder.auths.mem_iff.1 hentry, hsecret, rfl⟩
  | none =>
      have hnone := List.filterMap_eq_nil_iff.1 (List.getLast?_eq_none_iff.1 hlast)
      rw [hlast] at hc
      obtain ⟨entry, hentry, hask⟩ := List.exists_of_findSome?_eq_some hc
      have hmem := horder.helpers.mem_iff.1 hentry
      split at hask
      · rename_i hkey
        subst hkey
        exact .inr ⟨fun e he => hnone e (horder.auths.mem_iff.2 he),
          (asked_of_mem hkeys hmem).trans hask⟩
      · cases hask

/-! ## The lookup of one registry -/

theorem exists_mem_of_entryOf? (hr : '/' ∉ r.toList) {a : StoredAuth} (ha : s.entryOf? r = some a) :
    ∃ entry ∈ s.auths, canonical entry.1 = r ∧ entry.2 = a := by
  have hstands (key : String) (h : s.auth? key = some a) :
      ∃ entry ∈ s.auths, entry.1 = key ∧ entry.2 = a := by
    obtain ⟨entry, hfind, hentry⟩ := Option.map_eq_some_iff.1 h
    exact ⟨entry, List.mem_of_find?_eq_some hfind, by simpa using List.find?_some hfind, hentry⟩
  rw [entryOf?] at ha
  split at ha
  · rename_i held hheld
    cases ha
    obtain ⟨entry, hentry, hkey, hauth⟩ := hstands r hheld
    exact ⟨entry, hentry, by rw [hkey, canonical_of_slash hr], hauth⟩
  · split at ha
    · rename_i hhub
      obtain ⟨entry, hentry, hkey, hauth⟩ := hstands hubLegacyKey ha
      exact ⟨entry, hentry, by rw [hkey, hhub, canonical, if_pos rfl], hauth⟩
    · cases ha

/-- The lookup goes by the entry that it reads, and asks a helper without a secret there. -/
theorem lookup_eq (hr : '/' ∉ r.toList) :
    s.lookup helpers r =
      match (s.entryOf? r).map StoredAuth.secret with
      | some (.error f) => .error (.authFailed r f.message)
      | some (.ok (some secret)) => .ok (some ⟨secret, r⟩)
      | _ => .ok (s.asked helpers r) := by
  rw [lookup]
  cases s.entryOf? r with
  | none => rfl
  | some a =>
      rcases hsecret : a.secret with f | _ | secret <;>
        simp [StoredAuth.credentials, hsecret, canonical_of_slash hr, asked, bind, Except.bind,
          pure, Except.pure]

theorem lookup_eq_ok_iff (hr : '/' ∉ r.toList) (hkeys : (s.helpers.map Prod.fst).Nodup)
    (horder : order.Reorders s) (hc : (order.all helpers).get? r = some c) :
    s.lookup helpers r = .ok (some c) ↔
      (∃ a, s.entryOf? r = some a ∧ a.secret = .ok (some c.secret)) ∨
        (∀ a, s.entryOf? r = some a → a.secret = .ok none) ∧
          (s.asked helpers r = some c ∨ ∀ entry ∈ s.auths, secretFor? r entry = none) := by
  have hasked : s.asked helpers r = some c ↔
      s.asked helpers r = some c ∨ ∀ entry ∈ s.auths, secretFor? r entry = none := by
    refine ⟨.inl, ?_⟩
    rintro (hasked | hnone)
    · exact hasked
    · rcases source_of_get?_all hr hkeys horder hc with ⟨entry, hentry, hsecret, -⟩ | ⟨-, hasked⟩
      · rw [hnone entry hentry] at hsecret
        cases hsecret
      · exact hasked
  rw [lookup_eq hr]
  cases hentry : s.entryOf? r with
  | none => simpa using hasked
  | some a =>
      rcases hsecret : a.secret with f | _ | secret
      · simp [hsecret]
      · simpa [hsecret] using hasked
      · have haddress : c.address = r := by
          rcases source_of_get?_all hr hkeys horder hc with ⟨-, -, -, haddress⟩ | ⟨hnone, -⟩
          · exact haddress
          · obtain ⟨entry, hmem, hkey, rfl⟩ := exists_mem_of_entryOf? hr hentry
            have hheld := secretFor?_eq_some_iff.2 ⟨hkey, hsecret⟩
            cases (hnone entry hmem).symm.trans hheld
        obtain ⟨held, address⟩ := c
        cases haddress
        simp [hsecret]

/-- If every entry for the registry is the one that the lookup reads, and has no fault, the lookup
finds what the table holds. -/
theorem lookup_eq_ok_of_plain (hr : '/' ∉ r.toList) (hkeys : (s.helpers.map Prod.fst).Nodup)
    (horder : order.Reorders s) (hc : (order.all helpers).get? r = some c)
    (hplain : ∀ entry ∈ s.auths, canonical entry.1 = r →
      s.entryOf? r = some entry.2 ∧ entry.2.secret.isOk) :
    s.lookup helpers r = .ok (some c) := by
  rw [lookup_eq_ok_iff hr hkeys horder hc]
  rcases source_of_get?_all hr hkeys horder hc with ⟨entry, hentry, hsecret, -⟩ | ⟨hnone, hasked⟩
  · obtain ⟨hkey, hheld⟩ := secretFor?_eq_some_iff.1 hsecret
    exact .inl ⟨entry.2, (hplain entry hentry hkey).1, hheld⟩
  · refine .inr ⟨fun a ha => ?_, .inl hasked⟩
    obtain ⟨entry, hentry, hkey, rfl⟩ := exists_mem_of_entryOf? hr ha
    rcases hsecret : entry.2.secret with f | _ | secret
    · simpa [hsecret, Except.isOk, Except.toBool] using (hplain entry hentry hkey).2
    · rfl
    · have hheld := secretFor?_eq_some_iff.2 ⟨hkey, hsecret⟩
      cases (hnone entry hentry).symm.trans hheld

/-! ## The file -/

theorem reader_yields : reader.Yields fun s => (s.helpers.map Prod.fst).Nodup := by
  refine Json.Reader.record_yields List.nodup_nil fun f hf => ?_
  simp only [List.mem_cons, List.not_mem_nil, or_false] at hf
  rcases hf with rfl | rfl | rfl
  · exact Json.Field.defaulted_keeps (Json.Reader.table_yields _) fun auths _ s hs => hs
  · have hany : (Json.Reader.nullable .text).Yields fun _ => True := fun _ _ _ _ _ => trivial
    exact Json.Field.defaulted_keeps hany fun helper _ s hs => hs
  · exact Json.Field.defaulted_keeps (Json.Reader.table_yields _) fun named hkeys s _ => hkeys

variable {fs : FileSystem} {p : Path}

/-- A file that is read names one helper for a registry. -/
theorem nodup_helpers_of_load (hload : load fs p = .ok (some s)) :
    (s.helpers.map Prod.fst).Nodup := by
  rw [load] at hload
  split at hload
  · cases hload
  · split at hload
    · cases hload
    · split at hload
      · rename_i hread
        cases hload
        exact Json.Reader.readText_yields reader_yields hread
      · cases hload

end Store

variable {fs : FileSystem} {p : Path} {helpers : Helpers} {s order : Store} {c : Credentials}

theorem fileProvider_all (hload : Store.load fs p = .ok (some s)) :
    (fileProvider fs helpers p).all = .ok (s.all helpers) := by
  simp [fileProvider, hload, bind, Except.bind, pure, Except.pure]

theorem fileProvider_forImage (hload : Store.load fs p = .ok (some s)) (image : String) :
    (fileProvider fs helpers p).forImage image = s.lookup helpers (registryOf image) := by
  simp [fileProvider, hload, bind, Except.bind]

/-- The view of a build holds `c` for the registry of the image, whatever the order of the entries.  Then
the push finds the same just if the entry that its lookup reads has that secret, or if that entry is
missing or empty and the helper it asks has them or no other spelling holds a secret. -/
theorem views_agree_iff (hload : Store.load fs p = .ok (some s)) (horder : order.Reorders s)
    (image : String) (hc : (order.all helpers).get? (registryOf image) = some c) :
    (fileProvider fs helpers p).all = .ok (s.all helpers) ∧
      ((fileProvider fs helpers p).forImage image = .ok (some c) ↔
        (∃ a, s.entryOf? (registryOf image) = some a ∧ a.secret = .ok (some c.secret)) ∨
          (∀ a, s.entryOf? (registryOf image) = some a → a.secret = .ok none) ∧
            (s.asked helpers (registryOf image) = some c ∨
              ∀ entry ∈ s.auths, secretFor? (registryOf image) entry = none)) := by
  refine ⟨fileProvider_all hload, ?_⟩
  rw [fileProvider_forImage hload]
  exact Store.lookup_eq_ok_iff (slash_notMem_registryOf image) (Store.nodup_helpers_of_load hload)
    horder hc

/-- The views agree on a registry that has one entry, spelled as the lookup spells it and without a
fault, and on one that has none. -/
theorem views_agree_of_plain (hload : Store.load fs p = .ok (some s)) (horder : order.Reorders s)
    (image : String) (hc : (order.all helpers).get? (registryOf image) = some c)
    (hplain : ∀ entry ∈ s.auths, canonical entry.1 = registryOf image →
      s.entryOf? (registryOf image) = some entry.2 ∧ entry.2.secret.isOk) :
    (fileProvider fs helpers p).forImage image = .ok (some c) := by
  rw [fileProvider_forImage hload]
  exact Store.lookup_eq_ok_of_plain (slash_notMem_registryOf image)
    (Store.nodup_helpers_of_load hload) horder hc hplain

/-! ## A key with a scheme -/

def schemeText : String :=
  "\x7b\"auths\":\x7b\"https://ghcr.io/\":\x7b\"auth\":\"ZGVwbG95ZXI6czNjcmV0\"\x7d\x7d\x7d"

/-- A file `card` with this text, and nothing else. -/
def cardSystem (text : String) : FileSystem where
  root := .dir [([99, 97, 114, 100], .file ⟨(Text.Utf8.ofString text).toArray⟩)]

theorem cardSystem_find (text : String) :
    (cardSystem text).find ⟨"/card"⟩ = .ok (.file ⟨(Text.Utf8.ofString text).toArray⟩) := by
  rw [FileSystem.find_of_pieces [[], [99, 97, 114, 100]] (by decide) (by decide) (by decide)]
  simp [FileSystem.resolveFrom, cardSystem, FileTree.at?, FileTree.child?, FileTree.entryOf?,
    FileSystem.dot, FileSystem.nameLimit, Except.mapError, Except.bind]

theorem cardSystem_load {text : String} (hread : Store.reader.readText text = .ok s) :
    Store.load (cardSystem text) ⟨"/card"⟩ = .ok (some s) := by
  have htext : (cardSystem text).readText ⟨"/card"⟩ = .ok text :=
    FileSystem.readText_of_find (cardSystem_find text) rfl
  rw [Store.load, FileSystem.exists?, cardSystem_find, htext]
  simp only [hread]
  rfl

/-- A file `card` whose only key is spelled with a scheme and a slash. -/
def schemeSystem : FileSystem where
  root := .dir [([99, 97, 114, 100], .file ⟨(Text.Utf8.ofString schemeText).toArray⟩)]

def schemeStore : Store where
  auths := [("https://ghcr.io/", { auth := some "ZGVwbG95ZXI6czNjcmV0" })]

def schemeCredentials : Credentials := ⟨.password "deployer" "s3cret", "ghcr.io"⟩

theorem schemeSystem_load : Store.load schemeSystem ⟨"/card"⟩ = .ok (some schemeStore) :=
  cardSystem_load (by cbv)

theorem schemeStore_all (helpers : Helpers) :
    (schemeStore.all helpers).get? (registryOf "ghcr.io/org/app:v1") = some schemeCredentials := by
  have hall : schemeStore.all helpers = [("ghcr.io", schemeCredentials)] := by cbv
  rw [hall]
  decide

theorem views_agree_iff_scheme :
    Store.load schemeSystem ⟨"/card"⟩ = .ok (some schemeStore) ∧
      schemeStore.Reorders schemeStore ∧
      (schemeStore.all fun _ _ => .refused).get? (registryOf "ghcr.io/org/app:v1") =
        some schemeCredentials ∧
      (fileProvider schemeSystem (fun _ _ => .refused) ⟨"/card"⟩).all =
        .ok (schemeStore.all fun _ _ => .refused) ∧
      ((fileProvider schemeSystem (fun _ _ => .refused) ⟨"/card"⟩).forImage "ghcr.io/org/app:v1" =
          .ok (some schemeCredentials) ↔
        (∃ a, schemeStore.entryOf? (registryOf "ghcr.io/org/app:v1") = some a ∧
            a.secret = .ok (some schemeCredentials.secret)) ∨
          (∀ a, schemeStore.entryOf? (registryOf "ghcr.io/org/app:v1") = some a →
              a.secret = .ok none) ∧
            (schemeStore.asked (fun _ _ => .refused) (registryOf "ghcr.io/org/app:v1") =
                some schemeCredentials ∨
              ∀ entry ∈ schemeStore.auths,
                secretFor? (registryOf "ghcr.io/org/app:v1") entry = none)) :=
  ⟨schemeSystem_load, .refl schemeStore, schemeStore_all _,
    views_agree_iff schemeSystem_load (.refl schemeStore) "ghcr.io/org/app:v1" (schemeStore_all _)⟩

/-- A build gets the credentials that the file has for the registry, and a push of an image there gets
none. -/
theorem scheme_serves_build_only :
    ∃ t, (fileProvider schemeSystem (fun _ _ => .refused) ⟨"/card"⟩).all = .ok t ∧
      t.get? (registryOf "ghcr.io/org/app:v1") = some schemeCredentials ∧
      (fileProvider schemeSystem (fun _ _ => .refused) ⟨"/card"⟩).forImage "ghcr.io/org/app:v1" =
        .ok none := by
  refine ⟨_, fileProvider_all schemeSystem_load, schemeStore_all _, ?_⟩
  rw [fileProvider_forImage schemeSystem_load]
  cbv

end ImageBuild.Registry
