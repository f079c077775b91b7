import ImageBuild.Proofs.Registry.Table
/-!
# One registry under several spellings

The entries of a credential file have no order of their own, and those of one registry come into the table one over
the other.  So the order in which they are taken decides between them, and the table is the same in every order just
if no two spellings of a registry hold different secrets.  The helpers are named by key, and their order is of no
consequence.
-/

namespace ImageBuild.Registry

namespace Store

variable {helpers : Helpers} {s order order' : Store}

/-- Entries for the same registry hold the same secret, if any. -/
def Agrees (s : Store) : Prop :=
  ∀ e ∈ s.auths, ∀ f ∈ s.auths, canonical e.1 = canonical f.1 →
    ∀ x y, e.2.secret = .ok (some x) → f.2.secret = .ok (some y) → x = y

/-- Every entry is the last one in some order. -/
theorem exists_order_of_mem (helpers : Helpers) {entry : String × StoredAuth} {secret : Secret}
    (hentry : entry ∈ s.auths) (hsecret : entry.2.secret = .ok (some secret)) :
    ∃ order : Store, order.Reorders s ∧
      (order.all helpers).get? (canonical entry.1) = some ⟨secret, canonical entry.1⟩ := by
  obtain ⟨front, back, hsplit⟩ := List.append_of_mem hentry
  have hlast : secretFor? (canonical entry.1) entry = some secret :=
    secretFor?_eq_some_iff.2 ⟨rfl, hsecret⟩
  refine ⟨{ s with auths := front ++ back ++ [entry] }, ⟨?_, .refl _⟩, ?_⟩
  · rw [hsplit]
    exact (List.perm_append_singleton entry (front ++ back)).trans List.perm_middle.symm
  · rw [all, get?_addHelpers, get?_addEntries (canonical_ne_hubLegacyKey entry.1), List.filterMap_append,
      List.filterMap_cons_some hlast, List.filterMap_nil, List.getLast?_concat]
    rfl

theorem Agrees.filterMap_secretFor? (h : s.Agrees) (horder : order.Reorders s) (r : String) :
    order.auths.filterMap (secretFor? r) = s.auths.filterMap (secretFor? r) := by
  have hperm := horder.auths.filterMap (secretFor? r)
  have hsame : ∀ x ∈ s.auths.filterMap (secretFor? r), ∀ y ∈ s.auths.filterMap (secretFor? r), x = y := by
    intro x hx y hy
    obtain ⟨e, he, hex⟩ := List.mem_filterMap.1 hx
    obtain ⟨f, hf, hfy⟩ := List.mem_filterMap.1 hy
    obtain ⟨hekey, hesecret⟩ := secretFor?_eq_some_iff.1 hex
    obtain ⟨hfkey, hfsecret⟩ := secretFor?_eq_some_iff.1 hfy
    exact h e he f hf (hekey.trans hfkey.symm) x y hesecret hfsecret
  cases hsecrets : s.auths.filterMap (secretFor? r) with
  | nil =>
      rw [hsecrets] at hperm
      exact hperm.eq_nil
  | cons x rest =>
      have hreplicate : x :: rest = List.replicate (rest.length + 1) x :=
        List.eq_replicate_iff.2 ⟨rfl, fun y hy => hsame y (hsecrets ▸ hy) x (hsecrets ▸ List.mem_cons_self)⟩
      rw [hsecrets, hreplicate] at hperm
      rw [hreplicate, List.perm_replicate.1 hperm]

theorem Agrees.get?_addEntries (h : s.Agrees) (horder : order.Reorders s) (key : String) :
    (order.auths.foldl addEntry []).get? key = (s.auths.foldl addEntry []).get? key := by
  have hentries {r : String} (hr : r ≠ hubLegacyKey) :
      (order.auths.foldl addEntry []).get? r = (s.auths.foldl addEntry []).get? r := by
    rw [Store.get?_addEntries hr, Store.get?_addEntries hr, h.filterMap_secretFor? horder]
  by_cases hlegacy : key = hubLegacyKey
  · rw [hlegacy, addEntries_hub order.auths rfl, addEntries_hub s.auths rfl]
    exact hentries (by decide)
  · exact hentries hlegacy

theorem all_orders_iff (hkeys : (s.helpers.map Prod.fst).Nodup) :
    (∀ order order' : Store, order.Reorders s → order'.Reorders s →
      ∀ key, (order.all helpers).get? key = (order'.all helpers).get? key) ↔ s.Agrees := by
  constructor
  · intro halike e he f hf hkey x y hx hy
    obtain ⟨order, horder, hex⟩ := exists_order_of_mem helpers he hx
    obtain ⟨order', horder', hfy⟩ := exists_order_of_mem helpers hf hy
    have hboth := halike order order' horder horder' (canonical e.1)
    rw [hex, hkey, hfy] at hboth
    cases hboth
    rfl
  · intro hagrees order order' horder horder' key
    rw [get?_all hkeys horder, get?_all hkeys horder', hagrees.get?_addEntries horder,
      hagrees.get?_addEntries horder']

end Store

/-- Any two orders of the entries and of the helpers give the same table just if no two entries for one registry,
however its key is spelled, hold different secrets. -/
theorem orders_alike_iff {fs : FileSystem} {p : Path} {helpers : Helpers} {s : Store}
    (hload : Store.load fs p = .ok (some s)) :
    (fileProvider fs helpers p).all = .ok (s.all helpers) ∧
      ((∀ order order' : Store, order.Reorders s → order'.Reorders s →
        ∀ key, (order.all helpers).get? key = (order'.all helpers).get? key) ↔ s.Agrees) :=
  ⟨fileProvider_all hload, Store.all_orders_iff (Store.nodup_helpers_of_load hload)⟩

/-! ## Two spellings with different secrets -/

def clashText : String :=
  "\x7b\"auths\":\x7b\"ghcr.io\":\x7b\"auth\":\"YTpi\"\x7d,\"https://ghcr.io/\":\x7b\"auth\":\"Yzpk\"\x7d\x7d\x7d"

def clashStore : Store where
  auths := [("ghcr.io", { auth := some "YTpi" }), ("https://ghcr.io/", { auth := some "Yzpk" })]

def clashOrder : Store where
  auths := clashStore.auths.reverse

theorem clashStore_load : Store.load (cardSystem clashText) ⟨"/card"⟩ = .ok (some clashStore) :=
  cardSystem_load (by cbv)

theorem orders_alike_iff_clash :
    Store.load (cardSystem clashText) ⟨"/card"⟩ = .ok (some clashStore) ∧
      (fileProvider (cardSystem clashText) (fun _ _ => .refused) ⟨"/card"⟩).all =
        .ok (clashStore.all fun _ _ => .refused) ∧
      ((∀ order order' : Store, order.Reorders clashStore → order'.Reorders clashStore →
        ∀ key, (order.all fun _ _ => .refused).get? key = (order'.all fun _ _ => .refused).get? key) ↔
          clashStore.Agrees) :=
  ⟨clashStore_load, orders_alike_iff clashStore_load⟩

/-- The file gives one secret for the registry if its entries are taken in the one order, and another one if they are
taken in the other. -/
theorem spellings_clash :
    Store.load (cardSystem clashText) ⟨"/card"⟩ = .ok (some clashStore) ∧ clashOrder.Reorders clashStore ∧
      (clashStore.all fun _ _ => .refused).get? "ghcr.io" = some ⟨.password "c" "d", "ghcr.io"⟩ ∧
      (clashOrder.all fun _ _ => .refused).get? "ghcr.io" = some ⟨.password "a" "b", "ghcr.io"⟩ :=
  ⟨clashStore_load, ⟨List.reverse_perm _, .refl _⟩, by cbv, by cbv⟩

end ImageBuild.Registry
