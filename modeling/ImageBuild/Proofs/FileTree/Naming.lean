import ImageBuild.Proofs.FileTree.Listing
import ImageBuild.Proofs.Ignore.Reinclusion
import ImageBuild.Proofs.Text.Utf8

/-!
# Paths of locations

A location is written as the texts of its names with slashes between them.
Since names hold no slash and are not a single dot, ignore rules see such a path
just as it is written, and one location lies below another for the rules if it
does so in the tree.
-/

namespace ImageBuild.FileTree

def pathOf (location : List FileName) : String :=
  Text.joinWith "/" (location.map Text.Utf8.toStringLossy)

def stepsOf (location : List FileName) : List (List Char) :=
  location.map Text.Utf8.decodeLossy

theorem toList_pathOf (location : List FileName) :
    (pathOf location).toList = ['/'].intercalate (stepsOf location) := by
  rw [pathOf, Text.joinWith, String.toList_intercalate, List.map_map]
  congr 1
  exact List.map_congr_left fun name _ => String.toList_ofList

namespace IsName

variable {name : FileName}

theorem text_ne_nil (h : IsName name) : Text.Utf8.decodeLossy name ≠ [] :=
  fun heq => h.1 (Text.Utf8.eq_nil_of_decodeLossy heq)

theorem text_ne_dot (h : IsName name) : Text.Utf8.decodeLossy name ≠ ['.'] :=
  fun heq => h.2.1 (Text.Utf8.eq_singleton_of_decodeLossy rfl (by decide) (by decide) heq)

theorem slash_notMem_text (h : IsName name) : '/' ∉ Text.Utf8.decodeLossy name :=
  fun hmem => h.2.2 (Text.Utf8.mem_of_mem_decodeLossy rfl (by decide) (by decide) hmem)

end IsName

theorem IsProper.isName_of_at? {t : FileTree} (ht : t.IsProper) {location : List FileName}
    {node : FileTree} (h : t.at? location = some node) : ∀ name ∈ location, IsName name := by
  induction location generalizing t with
  | nil => simp
  | cons name rest ih =>
      obtain ⟨child, hchild, hrest⟩ := Option.bind_eq_some_iff.1 h
      obtain _ | _ | _ | ⟨entries, hnames, hnodup, hproper⟩ := ht
      · cases hchild
      · cases hchild
      · cases hchild
      · have he := (entryOf?_eq_some_iff hnodup).1 hchild
        intro other hother
        rcases List.mem_cons.1 hother with rfl | hother
        · exact hnames _ he
        · exact ih (hproper _ he) hrest other hother

end ImageBuild.FileTree

namespace ImageBuild.Ignore

/-- Steps without slashes, none of them empty or a single dot, make a path that
rules see as it is. -/
theorem trimPath_intercalate {steps : List (List Char)} (hne : steps ≠ [])
    (hslash : ∀ step ∈ steps, '/' ∉ step) (hempty : ∀ step ∈ steps, step ≠ [])
    (hdot : ∀ step ∈ steps, step ≠ ['.']) :
    trimPath (['/'].intercalate steps) = ['/'].intercalate steps := by
  have hsplit := List.splitOn_intercalate '/' hslash hne
  generalize ['/'].intercalate steps = path at hsplit ⊢
  have hfront : ['.', '/'].isPrefixOf path = false := by
    rw [← Bool.not_eq_true, List.isPrefixOf_iff_prefix]
    rintro ⟨rest, rfl⟩
    refine hdot ['.'] ?_ rfl
    rw [← hsplit, show ['.', '/'] ++ rest = ['.'] ++ '/' :: rest from rfl,
      List.splitOn_append_cons_self_of_not_mem (by decide)]
    exact List.mem_cons_self
  have hhead : path.dropWhile (· = '/') = path := by
    cases path with
    | nil => rfl
    | cons c rest =>
        refine List.dropWhile_cons_of_neg fun hc => ?_
        refine hempty [] ?_ rfl
        rw [← hsplit, of_decide_eq_true hc, ← List.nil_append ('/' :: rest),
          List.splitOn_append_cons_self]
        exact List.mem_append_left _ (by simp)
  have htail : Text.dropTailWhile (· = '/') path = path := by
    rcases List.eq_nil_or_concat path with rfl | ⟨front, c, rfl⟩
    · rfl
    · rw [List.concat_eq_append] at hsplit ⊢
      have hc : c ≠ '/' := by
        rintro rfl
        refine hempty [] ?_ rfl
        rw [← hsplit, List.splitOn_append_cons_self]
        exact List.mem_append_right _ (by simp)
      exact Text.dropTailWhile_append_of_neg _ front (decide_eq_false hc)
  rw [trimPath, Text.dropHeads]
  simp [hfront, hhead, htail]

end ImageBuild.Ignore

namespace ImageBuild.FileTree

variable {location rest : List FileName}

theorem trimPath_pathOf (hne : location ≠ []) (hnames : ∀ name ∈ location, IsName name) :
    Ignore.trimPath (pathOf location).toList = (pathOf location).toList := by
  rw [toList_pathOf]
  refine Ignore.trimPath_intercalate (by simpa [stepsOf] using hne) ?_ ?_ ?_
  all_goals
    intro step hstep
    obtain ⟨name, hname, rfl⟩ := List.mem_map.1 hstep
  · exact (hnames name hname).slash_notMem_text
  · exact (hnames name hname).text_ne_nil
  · exact (hnames name hname).text_ne_dot

theorem toList_pathOf_append (hne : location ≠ []) (hrest : rest ≠ []) :
    (pathOf (location ++ rest)).toList =
      (pathOf location).toList ++ '/' :: (pathOf rest).toList := by
  simp only [toList_pathOf, stepsOf, List.map_append]
  exact Text.intercalate_append '/' (by simpa using hne) (by simpa using hrest)

/-- What lies below a directory of a tree lies below it for the rules. -/
theorem isBelow_pathOf (hne : location ≠ []) (hrest : rest ≠ [])
    (hnames : ∀ name ∈ location ++ rest, IsName name) :
    Ignore.IsBelow (pathOf (location ++ rest)) (pathOf location) := by
  refine ⟨(pathOf rest).toList, ?_⟩
  rw [trimPath_pathOf (List.append_ne_nil_of_left_ne_nil hne rest) hnames,
    trimPath_pathOf hne fun name hname => hnames name (List.mem_append_left rest hname),
    toList_pathOf_append hne hrest]

theorem pathOf_eq_empty_iff (hnames : ∀ name ∈ location, IsName name) :
    pathOf location = "" ↔ location = [] := by
  constructor
  · intro h
    cases location with
    | nil => rfl
    | cons name rest =>
        have hlist : (pathOf (name :: rest)).toList = [] := by rw [h]; rfl
        have htext := (hnames name List.mem_cons_self).text_ne_nil
        rw [toList_pathOf, stepsOf, List.map_cons] at hlist
        cases hsteps : rest.map Text.Utf8.decodeLossy with
        | nil => simp [hsteps, htext] at hlist
        | cons step steps => simp [hsteps, List.intercalate_cons_cons] at hlist
  · rintro rfl
    rfl

end ImageBuild.FileTree
