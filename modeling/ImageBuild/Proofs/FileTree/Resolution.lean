import ImageBuild.FileTree.Lookup
import ImageBuild.Proofs.Path.Parent
import ImageBuild.Proofs.Text.Encode
import Mathlib.Tactic.ByContra
import Mathlib.Tactic.SplitIfs
/-!
# Finding a file by its directory and its name

A path is followed piece by piece, and where it leads after some pieces depends on no more than the
place reached and the links left.  So whatever can be said of the end of a path from every place can
be said of the whole: idle pieces make no difference in front of another piece, and a path that leads
to a file ends in a name.
-/

namespace ImageBuild.FileSystem

/-- A piece of a path that is no step. -/
def IsIdle (piece : FileName) : Prop := piece = [] ∨ piece = [dot]

variable {root : FileTree} {qs rs : List FileName}

/-- What holds of two ends of a path, from wherever they are followed, holds of them behind the same
pieces. -/
theorem resolveFrom_append
    {C : Except OsError (List FileName) → Except OsError (List FileName) → Prop}
    (herror : ∀ e, C (.error e) (.error e))
    (hends : ∀ links here,
      C (resolveFrom root true links here qs) (resolveFrom root true links here rs))
    (links : Nat) (here ps : List FileName) :
    C (resolveFrom root true links here (ps ++ qs))
      (resolveFrom root true links here (ps ++ rs)) := by
  induction links using Nat.strongRecOn generalizing here ps with
  | ind links ihlinks =>
      induction ps generalizing here with
      | nil => exact hends links here
      | cons piece ps ih =>
          simp only [List.cons_append]
          rw [resolveFrom, resolveFrom]
          rcases root.at? here with _ | _ | entries | _ | _ <;> try exact herror _
          simp only [Bool.not_true, Bool.false_eq_true, and_false, if_false]
          split_ifs
          · exact ih here
          · exact ih here.dropLast
          · exact herror _
          · rcases FileTree.entryOf? piece entries with _ | _ | _ | target | _
            · exact herror _
            · exact ih _
            · exact ih _
            · cases links with
              | zero => exact herror _
              | succ links =>
                  simpa using ihlinks links (Nat.lt_succ_self links) _ (target.splitOn slash ++ ps)
            · exact ih _

theorem resolveFrom_idle_append (hqs : qs ≠ []) {idle : List FileName}
    (hidle : ∀ piece ∈ idle, IsIdle piece) (links : Nat) (here : List FileName) :
    resolveFrom root true links here (idle ++ qs) = resolveFrom root true links here qs := by
  induction idle with
  | nil => rfl
  | cons piece idle ih =>
      have hpiece : IsIdle piece := hidle piece List.mem_cons_self
      have htail := ih fun p hp => hidle p (List.mem_cons_of_mem piece hp)
      obtain ⟨q, qs, rfl⟩ := List.exists_cons_of_ne_nil hqs
      rw [List.cons_append, resolveFrom]
      rw [IsIdle] at hpiece
      rcases hat : root.at? here with _ | _ | entries | _ | _
      · simp [resolveFrom, hat]
      · simp [resolveFrom, hat]
      · simpa [hpiece] using htail
      · simp [resolveFrom, hat]
      · simp [resolveFrom, hat]

theorem at?_dropLast {t : FileTree} {here : List FileName} {entries : List (FileName × FileTree)}
    (h : t.at? here = some (.dir entries)) : ∃ es, t.at? here.dropLast = some (.dir es) := by
  induction here generalizing t with
  | nil => exact ⟨entries, h⟩
  | cons name rest ih =>
      obtain _ | es | _ | _ := t <;> try cases h
      cases rest with
      | nil => exact ⟨es, rfl⟩
      | cons next rest =>
          obtain ⟨u, hu, hrest⟩ := Option.bind_eq_some_iff.1 h
          obtain ⟨below, hbelow⟩ := ih hrest
          exact ⟨below, by simpa [FileTree.at?, hu] using hbelow⟩

/-- What a path leads to that ends in no name is a directory. -/
theorem at?_of_resolveFrom_unnamed {last : FileName}
    (hlast : IsIdle last ∨ last = [dot, dot]) (links : Nat) (here ps : List FileName) :
    ∀ location, resolveFrom root true links here (ps ++ [last]) = .ok location →
      ∃ entries, root.at? location = some (.dir entries) := by
  have hends : ∀ links here location, resolveFrom root true links here [last] = .ok location →
      ∃ entries, root.at? location = some (.dir entries) := by
    intro links here location h
    rw [resolveFrom] at h
    rcases hat : root.at? here with _ | _ | entries | _ | _ <;> rw [hat] at h <;> try cases h
    simp only [IsIdle] at hlast
    rcases hlast with hidle | rfl
    · simp only [hidle, if_true, resolveFrom] at h
      cases h
      exact ⟨entries, hat⟩
    · simp only [dot, resolveFrom] at h
      cases h
      exact at?_dropLast hat
  have herror : ∀ (e : OsError) location, Except.error e = Except.ok location →
      ∃ entries, root.at? location = some (.dir entries) := by
    intro e location h
    cases h
  exact @resolveFrom_append root [last] [last] (fun r _ => ∀ location, r = .ok location →
    ∃ entries, root.at? location = some (.dir entries)) herror hends links here ps

theorem at?_append (a b : List FileName) (t : FileTree) :
    t.at? (a ++ b) = (t.at? a).bind (FileTree.at? b) := by
  induction a generalizing t with
  | nil => rfl
  | cons name rest ih =>
      rw [List.cons_append, FileTree.at?, FileTree.at?]
      cases t.child? name with
      | none => rfl
      | some child => exact ih child

/-- A name that is followed as it is. -/
def IsStep (name : FileName) : Prop :=
  name ≠ [] ∧ name ≠ [dot] ∧ name ≠ [dot, dot] ∧ name.length ≤ nameLimit

instance (name : FileName) : Decidable (IsStep name) := inferInstanceAs (Decidable (_ ∧ _))

/-- Names along real directories lead to what stands there, with no link to follow. -/
theorem resolveFrom_of_at? {t : FileTree} {follow : Bool} {links : Nat} {here names : List FileName}
    (hnames : ∀ name ∈ names, IsStep name) (hlink : ∀ target, t ≠ .link target)
    (hat : root.at? (here ++ names) = some t) :
    resolveFrom root follow links here names = .ok (here ++ names) := by
  induction names generalizing here with
  | nil => rw [resolveFrom, List.append_nil]
  | cons name rest ih =>
      obtain ⟨hempty, hdot, hup, hlimit⟩ := hnames name List.mem_cons_self
      have hahead := hat
      rw [at?_append] at hahead
      obtain ⟨node, hnode, hchild⟩ := Option.bind_eq_some_iff.1 hahead
      rw [FileTree.at?] at hchild
      obtain ⟨child, hchild, hrest⟩ := Option.bind_eq_some_iff.1 hchild
      cases node with
      | dir entries =>
          rw [FileTree.child?] at hchild
          rw [resolveFrom, hnode]
          simp only [hempty, hdot, hup, or_self, if_false, Nat.not_lt.2 hlimit, hchild]
          have hrestat : root.at? ((here ++ [name]) ++ rest) = some t := by simpa using hat
          have hnext := ih (fun n hn => hnames n (List.mem_cons_of_mem name hn)) hrestat
          rw [List.append_assoc, List.singleton_append] at hnext
          cases child with
          | link target =>
              -- A link holds nothing, so it would have to be what stands in the end.
              cases rest with
              | nil => exact absurd (Option.some.inj hrest).symm (hlink target)
              | cons _ _ => cases hrest
          | _ => exact hnext
      | _ => cases hchild

/-! ## Paths as bytes -/

def bytesOf (p : Path) : List UInt8 := Text.Utf8.ofString p.text

theorem encode_flatMap_slash (front : List (List Char)) :
    Text.Utf8.encode (front.flatMap (· ++ ['/'])) =
      (front.map Text.Utf8.encode).flatMap (· ++ [slash]) := by
  induction front with
  | nil => rfl
  | cons piece front ih =>
      have hslash : Text.Utf8.encode ['/'] = [slash] := by decide
      rw [Text.Utf8.encode] at ih hslash ⊢
      rw [List.flatMap_cons, List.flatMap_append, List.flatMap_append, ih, hslash]
      rfl

variable {p : Path} {front : List (List Char)} {name : List Char}

theorem bytesOf_eq (htext : p.text.toList = front.flatMap (· ++ ['/']) ++ name) :
    bytesOf p =
      (front.map Text.Utf8.encode).flatMap (· ++ [slash]) ++ Text.Utf8.encode name := by
  rw [bytesOf, Text.Utf8.ofString, htext, ← encode_flatMap_slash, Text.Utf8.encode,
    List.flatMap_append]
  rfl

theorem splitOn_bytesOf (htext : p.text.toList = front.flatMap (· ++ ['/']) ++ name) :
    (bytesOf p).splitOn slash =
      (front.map Text.Utf8.encode).flatMap (List.splitOn slash) ++
        (Text.Utf8.encode name).splitOn slash := by
  rw [bytesOf_eq htext, Text.splitOn_flatMap_append]

theorem toList_text_eq (hpieces : p.text.toList.splitOn '/' = front ++ [name]) :
    p.text.toList = front.flatMap (· ++ ['/']) ++ name := by
  rw [← Text.intercalate_append_singleton, ← hpieces, List.intercalate_splitOn]

/-! ## Files -/

variable {fs : FileSystem}

theorem exists_location_of_find {t : FileTree} (h : fs.find p = .ok t) :
    ∃ location, fs.resolve p true = .ok location ∧ fs.root.at? location = some t := by
  rw [find] at h
  cases hresolve : fs.resolve p true with
  | error e => simp [hresolve, bind, Except.bind] at h
  | ok location =>
      refine ⟨location, rfl, ?_⟩
      simp only [hresolve, bind, Except.bind] at h
      split at h
      · cases h
        assumption
      · cases h

theorem resolve_cases :
    fs.resolve p true =
      if (bytesOf p).contains 0 then .error .nulInPath
      else if bytesOf p = [] then .error (.os .notFound)
      else if pathLimit ≤ (bytesOf p).length then .error (.os .nameTooLong)
      else (resolveFrom fs.root true linkLimit
        (if (bytesOf p).head? = some slash then [] else fs.workDir)
        ((bytesOf p).splitOn slash)).mapError .os := rfl

/-- Where an absolute path leads to. -/
theorem find_of_pieces (pieces : List FileName)
    (hplain : (bytesOf p).contains 0 = false ∧ bytesOf p ≠ [] ∧ ¬pathLimit ≤ (bytesOf p).length)
    (hhead : (bytesOf p).head? = some slash) (hpieces : (bytesOf p).splitOn slash = pieces) :
    fs.find p =
      ((resolveFrom fs.root true linkLimit [] pieces).mapError .os).bind fun location =>
        (fs.root.at? location).elim (.error (.os .notFound)) .ok := by
  rw [find, resolve_cases, if_neg (Bool.not_eq_true _ ▸ hplain.1), if_neg hplain.2.1,
    if_neg hplain.2.2, if_pos hhead, hpieces]
  cases (resolveFrom fs.root true linkLimit [] pieces).mapError IoError.os with
  | error e => rfl
  | ok location => cases hnode : fs.root.at? location <;> simp [bind, Except.bind, hnode]

/-- What stands at a location that an absolute path spells out. -/
theorem find_of_at? {t : FileTree} (location : List FileName)
    (hplain : (bytesOf p).contains 0 = false ∧ bytesOf p ≠ [] ∧ ¬pathLimit ≤ (bytesOf p).length)
    (hhead : (bytesOf p).head? = some slash) (hpieces : (bytesOf p).splitOn slash = [] :: location)
    (hnames : ∀ name ∈ location, IsStep name) (hlink : ∀ target, t ≠ .link target)
    (hat : fs.root.at? location = some t) : fs.find p = .ok t := by
  have hne : location ≠ [] := by
    rintro rfl
    have htext : [slash].intercalate ((bytesOf p).splitOn slash) = bytesOf p :=
      List.intercalate_splitOn slash
    rw [hpieces] at htext
    exact hplain.2.1 htext.symm
  have hidle : ∀ piece ∈ ([[]] : List FileName), IsIdle piece := by simp [IsIdle]
  rw [find_of_pieces _ hplain hhead hpieces]
  have hskip : resolveFrom fs.root true linkLimit [] ([] :: location) =
      resolveFrom fs.root true linkLimit [] location :=
    resolveFrom_idle_append hne hidle linkLimit []
  have hstraight : resolveFrom fs.root true linkLimit [] location = .ok location :=
    resolveFrom_of_at? hnames hlink hat
  rw [hskip, hstraight]
  simp [Except.mapError, Except.bind, hat]

theorem resolve_eq_ok_iff {location : List FileName} :
    fs.resolve p true = .ok location ↔
      0 ∉ bytesOf p ∧ bytesOf p ≠ [] ∧ (bytesOf p).length < pathLimit ∧
        resolveFrom fs.root true linkLimit
          (if (bytesOf p).head? = some slash then [] else fs.workDir)
          ((bytesOf p).splitOn slash) = .ok location := by
  have hend : ∀ r : Except OsError (List FileName),
      r.mapError IoError.os = .ok location ↔ r = .ok location := by
    intro r
    cases r <;> simp [Except.mapError]
  rw [resolve_cases]
  generalize resolveFrom fs.root true linkLimit _ _ = reached
  split_ifs with hnul hne hlen
  · simp_all
  · simp_all
  · simp [Nat.not_lt.2 hlen]
  · rw [hend]
    simp_all

theorem exists_isNamePiece_of_isFile (h : fs.isFile p) :
    ∃ front name, p.text.toList.splitOn '/' = front ++ [name] ∧ Path.IsNamePiece name := by
  rcases List.eq_nil_or_concat (p.text.toList.splitOn '/') with hnil | ⟨front, name, hconcat⟩
  · exact absurd hnil (List.splitOn_ne_nil '/' p.text.toList)
  · rw [List.concat_eq_append] at hconcat
    refine ⟨front, name, hconcat, Path.isNamePiece_iff.2 ?_⟩
    by_contra hname
    have hcases : name = [] ∨ name = ['.'] ∨ name = ['.', '.'] := by
      by_cases hnil : name = []
      · exact .inl hnil
      · by_cases hdot : name = ['.']
        · exact .inr (.inl hdot)
        · exact .inr (.inr (by simpa [hnil, hdot] using hname))
    have hlast : ∃ last, (Text.Utf8.encode name).splitOn slash = [last] ∧
        (IsIdle last ∨ last = [dot, dot]) := by
      rcases hcases with rfl | rfl | rfl
      · exact ⟨[], by decide, .inl (.inl rfl)⟩
      · exact ⟨[dot], by decide, .inl (.inr rfl)⟩
      · exact ⟨[dot, dot], by decide, .inr rfl⟩
    obtain ⟨last, hsplit, hlast⟩ := hlast
    rw [isFile] at h
    cases hfind : fs.find p with
    | error e => simp [hfind] at h
    | ok t =>
        obtain ⟨location, hresolve, hat⟩ := exists_location_of_find hfind
        have hfrom := (resolve_eq_ok_iff.1 hresolve).2.2.2
        rw [splitOn_bytesOf (toList_text_eq hconcat), hsplit] at hfrom
        obtain ⟨entries, hdir⟩ := at?_of_resolveFrom_unnamed hlast _ _ _ location hfrom
        have ht : t = .dir entries := Option.some.inj (hat.symm.trans hdir)
        simp [hfind, ht, FileTree.isFile] at h

theorem isIdle_of_mem_encode {idle : List (List Char)}
    (hidle : ∀ piece ∈ idle, piece = [] ∨ piece = ['.']) :
    ∀ piece ∈ (idle.map Text.Utf8.encode).flatMap (List.splitOn slash), IsIdle piece := by
  intro piece hpiece
  obtain ⟨bytes, hbytes, hmem⟩ := List.mem_flatMap.1 hpiece
  obtain ⟨chars, hchars, rfl⟩ := List.mem_map.1 hbytes
  rcases hidle chars hchars with rfl | rfl
  · exact .inl (List.mem_singleton.1 hmem)
  · exact .inr (List.mem_singleton.1 hmem)

/-- Idle pieces in front of a name can be left out of a path, unless it begins with them. -/
theorem resolve_eq_of_idle {q : Path} {kept idle : List (List Char)} {location : List FileName}
    (hkept : kept = [] → idle = []) (hidle : ∀ piece ∈ idle, piece = [] ∨ piece = ['.'])
    (hp : p.text.toList = (kept ++ idle).flatMap (· ++ ['/']) ++ name)
    (hq : q.text.toList = kept.flatMap (· ++ ['/']) ++ name)
    (h : fs.resolve p true = .ok location) : fs.resolve q true = .ok location := by
  obtain ⟨hnul, hne, hlen, hfrom⟩ := resolve_eq_ok_iff.1 h
  have hpieces : (bytesOf p).splitOn slash =
      (kept.map Text.Utf8.encode).flatMap (List.splitOn slash) ++
        ((idle.map Text.Utf8.encode).flatMap (List.splitOn slash) ++
          (Text.Utf8.encode name).splitOn slash) := by
    rw [splitOn_bytesOf hp, List.map_append, List.flatMap_append, List.append_assoc]
  have hbytes : ∃ front back : List UInt8, bytesOf q = front ++ Text.Utf8.encode name ∧
      bytesOf p = front ++ (back ++ Text.Utf8.encode name) ∧ (front = [] → back = []) := by
    refine ⟨(kept.map Text.Utf8.encode).flatMap (· ++ [slash]),
      (idle.map Text.Utf8.encode).flatMap (· ++ [slash]), bytesOf_eq hq, ?_, fun hfront => ?_⟩
    · rw [bytesOf_eq hp, List.map_append, List.flatMap_append, List.append_assoc]
    · cases kept with
      | nil => rw [hkept rfl]; rfl
      | cons piece kept => simp at hfront
  obtain ⟨front, back, hbytesq, hbytesp, hfront⟩ := hbytes
  have hhead : (bytesOf q).head? = (bytesOf p).head? := by
    cases front with
    | nil => rw [hbytesq, hbytesp, hfront rfl]; rfl
    | cons byte front => rw [hbytesq, hbytesp]; rfl
  have hskip : ∀ links here, resolveFrom fs.root true links here
      ((idle.map Text.Utf8.encode).flatMap (List.splitOn slash) ++
        (Text.Utf8.encode name).splitOn slash) =
      resolveFrom fs.root true links here ((Text.Utf8.encode name).splitOn slash) :=
    resolveFrom_idle_append (List.splitOn_ne_nil slash _) (isIdle_of_mem_encode hidle)
  refine resolve_eq_ok_iff.2 ⟨?_, ?_, ?_, ?_⟩
  · intro hmem
    refine hnul ?_
    rw [hbytesq] at hmem
    rw [hbytesp]
    simp only [List.mem_append] at hmem ⊢
    exact hmem.imp_right .inr
  · intro hnil
    rw [hbytesq, List.append_eq_nil_iff] at hnil
    exact hne (by rw [hbytesp, hnil.1, hnil.2, hfront hnil.1]; rfl)
  · rw [hbytesp] at hlen
    rw [hbytesq]
    simp only [List.length_append] at hlen ⊢
    omega
  · rw [hhead, ← hfrom, splitOn_bytesOf hq, hpieces]
    exact (resolveFrom_append (C := Eq) (fun _ => rfl) hskip _ _ _).symm

/-- A file of encoded text is read as that text. -/
theorem readText_of_find {bytes : List UInt8} {text : String}
    (hfind : fs.find p = .ok (.file ⟨bytes.toArray⟩)) (htext : Text.Utf8.ofString text = bytes) :
    fs.readText p = .ok text := by
  have hread : fs.read p = .ok ⟨bytes.toArray⟩ := by
    rw [read, hfind]
    rfl
  rw [readText, hread]
  simp only [bind, Except.bind, Text.Utf8.toList_mk]
  rw [← htext, Text.Utf8.toString?_ofString]

/-- The directory of a file joined with the name of the file leads to the file. -/
theorem find_join_parent (h : fs.isFile p) (dir : Path) (other : String) :
    fs.find ((p.parent?.getD dir).join ⟨p.fileName?.getD other⟩) = fs.find p := by
  obtain ⟨front, name, hpieces, hname⟩ := exists_isNamePiece_of_isFile h
  obtain ⟨idle, happend, hidle⟩ := Path.exists_keptPieces_append front
  have hkept : Path.keptPieces front = [] → idle = [] := by
    intro hnil
    cases front with
    | nil => simpa [Path.keptPieces] using happend
    | cons first rest => cases hnil
  have hp := toList_text_eq hpieces
  rw [← happend] at hp
  have hq := Path.toList_join_parent hpieces hname dir other
  cases hresolve : fs.resolve p true with
  | error e => simp [isFile, find, hresolve, bind, Except.bind] at h
  | ok location =>
      have hsame := resolve_eq_of_idle hkept hidle hp hq hresolve
      rw [find, find, hsame, hresolve]

end ImageBuild.FileSystem
