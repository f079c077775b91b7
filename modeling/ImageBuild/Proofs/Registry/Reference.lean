import ImageBuild.Proofs.Stage.Leads
import ImageBuild.Proofs.Text.Pieces
import ImageBuild.Push
import Mathlib
/-!
# Names and tags of images

A reference is split before the last colon behind its last slash, and its registry ends at its first slash:
what is split off has no part in the registry.  The texts that can be a tag are a regular language, and a push
under any other tag is over before it begins.
-/

namespace ImageBuild.Registry

/-! ## Splitting a reference -/

section

variable {α : Type} [BEq α] [LawfulBEq α] {x : α} {xs front back : List α}

theorem splitAtLast_eq_some_iff :
    splitAtLast x xs = some (front, back) ↔ xs = front ++ x :: back ∧ x ∉ back := by
  rw [splitAtLast, Option.map_eq_some_iff]
  constructor
  · rintro ⟨⟨before, after⟩, hsplit, heq⟩
    obtain ⟨hxs, hbefore⟩ := Text.splitOnce_eq_some_iff.1 hsplit
    cases heq
    rw [← List.reverse_reverse xs, hxs]
    exact ⟨by simp, by simpa using hbefore⟩
  · rintro ⟨rfl, hback⟩
    have hsplit : Text.splitOnce x (front ++ x :: back).reverse = some (back.reverse, front.reverse) :=
      Text.splitOnce_eq_some_iff.2 ⟨by simp, by simpa using hback⟩
    exact ⟨_, hsplit, by simp⟩

theorem splitAtLast_eq_none_iff : splitAtLast x xs = none ↔ x ∉ xs := by
  rw [splitAtLast, Option.map_eq_none_iff, Text.splitOnce_eq_none_iff, List.mem_reverse]

end

/-- The last step of a path is all of it, or what comes after its last slash. -/
def IsLastStep (path last : List Char) : Prop :=
  '/' ∉ last ∧ ∃ front, path = front ++ last ∧ (front = [] ∨ ∃ dir, front = dir ++ ['/'])

/-- A reference names its tag after a colon in its last step, or it has no colon there and the default tag. -/
inductive Splits : List Char → List Char → List Char → Prop
  | tagged (name tag : List Char) (hslash : '/' ∉ tag) (hcolon : ':' ∉ tag) :
      Splits (name ++ ':' :: tag) name tag
  | bare (image last : List Char) (hlast : IsLastStep image last) (hcolon : ':' ∉ last) :
      Splits image image defaultTag

theorem exists_lastStep (path : List Char) : ∃ last, IsLastStep path last := by
  cases hsplit : splitAtLast '/' path with
  | none => exact ⟨path, splitAtLast_eq_none_iff.1 hsplit, [], rfl, .inl rfl⟩
  | some split =>
      obtain ⟨dir, last⟩ := split
      obtain ⟨rfl, hslash⟩ := splitAtLast_eq_some_iff.1 hsplit
      exact ⟨last, hslash, dir ++ ['/'], by simp, .inr ⟨dir, rfl⟩⟩

/-- The tag is split off in the last step. -/
theorem splitReference_eq {front last : List Char} (hslash : '/' ∉ last)
    (hfront : front = [] ∨ ∃ dir, front = dir ++ ['/']) :
    splitReference (front ++ last) =
      match splitAtLast ':' last with
      | some (name, tag) => (front ++ name, tag)
      | none => (front ++ last, defaultTag) := by
  rcases hfront with rfl | ⟨dir, rfl⟩
  · have hnone : splitAtLast '/' last = none := splitAtLast_eq_none_iff.2 hslash
    cases htag : splitAtLast ':' last <;> simp only [List.nil_append, splitReference, hnone, htag]
  · have hsplit : splitAtLast '/' (dir ++ ['/'] ++ last) = some (dir, last) :=
      splitAtLast_eq_some_iff.2 ⟨by simp, hslash⟩
    cases htag : splitAtLast ':' last <;> simp only [splitReference, hsplit, htag]

theorem splitReference_splits (image : List Char) :
    Splits image (splitReference image).1 (splitReference image).2 := by
  obtain ⟨last, hlast⟩ := exists_lastStep image
  obtain ⟨hslash, front, rfl, hfront⟩ := hlast
  rw [splitReference_eq hslash hfront]
  cases hsplit : splitAtLast ':' last with
  | none => exact .bare _ last ⟨hslash, front, rfl, hfront⟩ (splitAtLast_eq_none_iff.1 hsplit)
  | some split =>
      obtain ⟨name, tag⟩ := split
      obtain ⟨rfl, hcolon⟩ := splitAtLast_eq_some_iff.1 hsplit
      have htag : '/' ∉ tag := fun h => hslash (by simp [h])
      rw [← List.append_assoc]
      exact .tagged (front ++ name) tag htag hcolon

theorem splitReference_tagged (name : List Char) {tag : List Char} (hslash : '/' ∉ tag)
    (hcolon : ':' ∉ tag) : splitReference (name ++ ':' :: tag) = (name, tag) := by
  obtain ⟨last, hlast, front, rfl, hfront⟩ := exists_lastStep name
  have hstep : '/' ∉ last ++ ':' :: tag := by simp [hlast, hslash]
  rw [List.append_assoc, splitReference_eq hstep hfront, splitAtLast_eq_some_iff.2 ⟨rfl, hcolon⟩]

namespace Splits

variable {image name tag : List Char}

theorem slash_notMem (h : Splits image name tag) : '/' ∉ tag := by
  cases h with
  | tagged _ _ hslash _ => exact hslash
  | bare => decide

theorem colon_notMem (h : Splits image name tag) : ':' ∉ tag := by
  cases h with
  | tagged _ _ _ hcolon => exact hcolon
  | bare => decide

end Splits

/-! ## The registry of a name -/

/-- A tag has no part in the registry. -/
theorem registryOf_tagged (name : List Char) {tag : List Char} (hslash : '/' ∉ tag) :
    registryOf (String.ofList (name ++ ':' :: tag)) = registryOf (String.ofList name) := by
  rw [registryOf, registryOf, String.toList_ofList, String.toList_ofList]
  cases hsplit : Text.splitOnce '/' name with
  | none =>
      have hname := Text.splitOnce_eq_none_iff.1 hsplit
      have himage : Text.splitOnce '/' (name ++ ':' :: tag) = none :=
        Text.splitOnce_eq_none_iff.2 (by simp [hname, hslash])
      rw [himage]
  | some split =>
      obtain ⟨first, back⟩ := split
      obtain ⟨rfl, hfirst⟩ := Text.splitOnce_eq_some_iff.1 hsplit
      rw [List.append_assoc, List.cons_append, Text.splitOnce_append hfirst]

theorem Splits.registryOf_eq {image name tag : List Char} (h : Splits image name tag) :
    registryOf (String.ofList name) = registryOf (String.ofList image) := by
  cases h with
  | tagged _ _ hslash _ => exact (registryOf_tagged name hslash).symm
  | bare => rfl

/-! ## Tags -/

/-- The class `[A-Za-z0-9_]`. -/
def IsWordChar (c : Char) : Prop :=
  'A' ≤ c ∧ c ≤ 'Z' ∨ 'a' ≤ c ∧ c ≤ 'z' ∨ '0' ≤ c ∧ c ≤ '9' ∨ c = '_'

instance : DecidablePred IsWordChar := fun c =>
  inferInstanceAs (Decidable ('A' ≤ c ∧ c ≤ 'Z' ∨ 'a' ≤ c ∧ c ≤ 'z' ∨ '0' ≤ c ∧ c ≤ '9' ∨ c = '_'))

/-- The language `[A-Za-z0-9_][A-Za-z0-9_.-]{0,127}`. -/
def IsTag (tag : String) : Prop :=
  ∃ first rest, tag.toList = first :: rest ∧ IsWordChar first ∧ rest.length ≤ 127 ∧
    ∀ c ∈ rest, IsWordChar c ∨ c = '.' ∨ c = '-'

theorem isTagChar_iff {c : Char} : isTagChar c = true ↔ IsWordChar c ∨ c = '.' ∨ c = '-' := by
  simp only [isTagChar, IsWordChar, Char.isAlphanum, Char.isAlpha, Char.isUpper, Char.isLower,
    Char.isDigit, Bool.or_eq_true, Bool.and_eq_true, decide_eq_true_eq, Char.le_def, ge_iff_le]
  grind

theorem utf8Size_of_isTagChar {c : Char} (h : isTagChar c = true) : c.utf8Size = 1 := by
  rw [Char.utf8Size_eq_one_iff]
  rcases isTagChar_iff.1 h with (h | h | h | rfl) | rfl | rfl
  · exact UInt32.le_trans h.2 (by decide)
  · exact UInt32.le_trans h.2 (by decide)
  · exact UInt32.le_trans h.2 (by decide)
  all_goals decide

theorem utf8ByteSize_of_isTagChar {cs : List Char} (h : ∀ c ∈ cs, isTagChar c = true) :
    (String.ofList cs).utf8ByteSize = cs.length := by
  induction cs with
  | nil => rfl
  | cons c cs ih =>
      obtain ⟨hc, hcs⟩ := List.forall_mem_cons.1 h
      rw [String.ofList_cons, String.utf8ByteSize_append, String.utf8ByteSize_singleton,
        utf8Size_of_isTagChar hc, ih hcs, List.length_cons, Nat.add_comm]

theorem checkTag_eq_ok_iff_passes (tag : String) : checkTag tag = .ok () ↔
    tag.toList ≠ [] ∧ tag.utf8ByteSize ≤ 128 ∧
      (tag.toList.head? ≠ some '.' ∧ tag.toList.head? ≠ some '-') ∧
      ∀ c ∈ tag.toList, isTagChar c = true := by
  have hfind : tag.toList.find? (fun c => !isTagChar c) = none ↔
      ∀ c ∈ tag.toList, isTagChar c = true := by simp
  rw [checkTag, tagLimit, ← hfind]
  split_ifs with hempty hlong hstart
  · simp [String.isEmpty_iff.1 hempty]
  · simp [Nat.not_le.2 hlong]
  · rcases hstart with hdot | hdash
    · simp [hdot]
    · simp [hdash]
  · have hne : tag.toList ≠ [] := by simpa using hempty
    rw [not_or] at hstart
    cases tag.toList.find? fun c => !isTagChar c with
    | none => simp [hne, Nat.not_lt.1 hlong, hstart]
    | some c => simp

theorem checkTag_eq_ok_iff (tag : String) : checkTag tag = .ok () ↔ IsTag tag := by
  have hbytes : (∀ c ∈ tag.toList, isTagChar c = true) → tag.utf8ByteSize = tag.toList.length := by
    intro h
    rw [← utf8ByteSize_of_isTagChar h, String.ofList_toList]
  rw [checkTag_eq_ok_iff_passes]
  constructor
  · rintro ⟨hne, hshort, hstart, hall⟩
    obtain ⟨first, rest, htag⟩ := List.exists_cons_of_ne_nil hne
    rw [hbytes hall, htag, List.length_cons] at hshort
    rw [htag] at hstart hall
    obtain ⟨hfirst, hrest⟩ := List.forall_mem_cons.1 hall
    refine ⟨first, rest, htag, ?_, Nat.le_of_succ_le_succ hshort, fun c hc => isTagChar_iff.1 (hrest c hc)⟩
    rcases isTagChar_iff.1 hfirst with hword | rfl | rfl
    · exact hword
    · exact absurd rfl hstart.1
    · exact absurd rfl hstart.2
  · rintro ⟨first, rest, htag, hfirst, hshort, hrest⟩
    have hall : ∀ c ∈ tag.toList, isTagChar c = true := by
      rw [htag]
      exact List.forall_mem_cons.2 ⟨isTagChar_iff.2 (.inl hfirst), fun c hc => isTagChar_iff.2 (hrest c hc)⟩
    refine ⟨by simp [htag], ?_, ?_, hall⟩
    · rw [hbytes hall, htag, List.length_cons]
      exact Nat.succ_le_succ hshort
    · rw [htag]
      constructor
      all_goals
        rintro ⟨⟩
        revert hfirst
        decide

/-! ## Pushing -/

theorem push_of_isTag {σ : Type} (d : Daemon σ) (settings : Settings) (image : String)
    (credentials : Option Credentials) (hook : Push.RetryHook σ) (patience : Nat)
    (h : IsTag (nameAndTag image).2) :
    Push.push d settings image credentials hook patience =
      Push.tryFrom d settings image credentials hook patience 1 none := by
  simp only [Push.push, (checkTag_eq_ok_iff _).2 h]

theorem play_push_of_not_isTag {σ : Type} (d : Daemon σ) (settings : Settings) (image : String)
    (credentials : Option Credentials) (hook : Push.RetryHook σ) (patience : Nat) (s : Stage σ)
    (h : ¬IsTag (nameAndTag image).2) :
    ∃ fault, checkTag (nameAndTag image).2 = .error fault ∧
      Act.play (Push.push d settings image credentials hook patience) s =
        (.error (.failed (.invalidTag (fault.message (nameAndTag image).2))), s) := by
  cases hcheck : checkTag (nameAndTag image).2 with
  | ok u => exact absurd ((checkTag_eq_ok_iff _).1 hcheck) h
  | error fault =>
      refine ⟨fault, rfl, ?_⟩
      simp only [Push.push, hcheck]
      rfl

theorem nameAndTag_eq (image : String) : ∃ name tag, Splits image.toList name tag ∧
    nameAndTag image = (String.ofList name, String.ofList tag) :=
  ⟨_, _, splitReference_splits image.toList, rfl⟩

/-- The name and the tag of an image make up its reference again, and splitting that gives them back; the tag
has no part in the registry.  A tag passes the check just if it is in the language of tags, and a push under a
tag that is not leaves the stage as it was: nothing is asked of the daemon, and the hook hears of nothing. -/
theorem nameAndTag_splits (image : String) :
    (image = (nameAndTag image).1 ++ ":" ++ (nameAndTag image).2 ∨
      image = (nameAndTag image).1 ∧ (∃ last, IsLastStep image.toList last ∧ ':' ∉ last) ∧
        (nameAndTag image).2 = "latest") ∧
      '/' ∉ (nameAndTag image).2.toList ∧ ':' ∉ (nameAndTag image).2.toList ∧
      nameAndTag ((nameAndTag image).1 ++ ":" ++ (nameAndTag image).2) = nameAndTag image ∧
      registryOf (nameAndTag image).1 = registryOf image ∧
      (∀ text, checkTag text = .ok () ↔ IsTag text) ∧
      ∀ (σ : Type) (d : Daemon σ) settings credentials hook patience (s : Stage σ),
        (IsTag (nameAndTag image).2 →
          Push.push d settings image credentials hook patience =
            Push.tryFrom d settings image credentials hook patience 1 none) ∧
        (¬IsTag (nameAndTag image).2 → ∃ fault, checkTag (nameAndTag image).2 = .error fault ∧
          Act.play (Push.push d settings image credentials hook patience) s =
            (.error (.failed (.invalidTag (fault.message (nameAndTag image).2))), s)) := by
  have hpush := fun σ (d : Daemon σ) settings credentials hook patience (s : Stage σ) =>
    And.intro (push_of_isTag d settings image credentials hook patience)
      (play_push_of_not_isTag d settings image credentials hook patience s)
  obtain ⟨name, tag, hsplits, hparts⟩ := nameAndTag_eq image
  have hjoined : String.ofList name ++ ":" ++ String.ofList tag = String.ofList (name ++ ':' :: tag) := by
    refine String.toList_inj.1 ?_
    simp
  have hagain : nameAndTag (String.ofList (name ++ ':' :: tag)) = (String.ofList name, String.ofList tag) := by
    rw [nameAndTag, String.toList_ofList,
      splitReference_tagged name hsplits.slash_notMem hsplits.colon_notMem]
  have hregistry := hsplits.registryOf_eq
  rw [String.ofList_toList] at hregistry
  refine ⟨?_, ?_, ?_, ?_, ?_, checkTag_eq_ok_iff, hpush⟩
  all_goals simp only [hparts, hjoined]
  · have himage : image = String.ofList image.toList := String.ofList_toList.symm
    generalize image.toList = cs at hsplits himage
    cases hsplits with
    | tagged => exact .inl himage
    | bare _ last hlast hcolon => exact .inr ⟨himage, ⟨last, hlast, hcolon⟩, rfl⟩
  · rw [String.toList_ofList]
    exact hsplits.slash_notMem
  · rw [String.toList_ofList]
    exact hsplits.colon_notMem
  · exact hagain
  · exact hregistry

/-- The colon of a port is no colon of a tag. -/
example : nameAndTag "localhost:5000/app" = ("localhost:5000/app", "latest") := by cbv

end ImageBuild.Registry
