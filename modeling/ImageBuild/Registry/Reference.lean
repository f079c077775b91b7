import ImageBuild.Text.Pieces
/-!
# Image references

The name, the tag and the registry of an image.  A reference is read as text: only the last step of
its path can carry a tag, and only its first step can be a registry.
-/

namespace ImageBuild.Registry

/-- The tag of an image that names none. -/
def defaultTag : List Char := "latest".toList

/-- The front of a list up to its last `x`, and what comes after it. -/
def splitAtLast {α : Type} [BEq α] (x : α) (xs : List α) : Option (List α × List α) :=
  (Text.splitOnce x xs.reverse).map fun (back, front) => (front.reverse, back.reverse)

/-- Splits a reference into name and tag.  A colon before the last slash is part of an address. -/
def splitReference (image : List Char) : List Char × List Char :=
  let (path, last) :=
    match splitAtLast '/' image with
    | some (front, back) => (front ++ ['/'], back)
    | none => ([], image)
  match splitAtLast ':' last with
  | some (name, tag) => (path ++ name, tag)
  | none => (image, defaultTag)

/-- The name and the tag of an image. -/
def nameAndTag (image : String) : String × String :=
  let (name, tag) := splitReference image.toList
  (String.ofList name, String.ofList tag)

/-- Why a text cannot be a tag. -/
inductive TagFault where
  | empty
  | tooLong (bytes : Nat)
  | badStart
  | badCharacter (c : Char)
deriving Repr, DecidableEq

/-- The most bytes a tag may have. -/
def tagLimit : Nat := 128

def isTagChar (c : Char) : Bool :=
  c.isAlphanum || c = '.' || c = '-' || c = '_'

/-- Checks that a text can be a tag. -/
def checkTag (tag : String) : Except TagFault Unit :=
  if tag.isEmpty then .error .empty
  else if tagLimit < tag.utf8ByteSize then .error (.tooLong tag.utf8ByteSize)
  else if tag.toList.head? = some '.' ∨ tag.toList.head? = some '-' then .error .badStart
  else
    match tag.toList.find? fun c => !isTagChar c with
    | some c => .error (.badCharacter c)
    | none => .ok ()

/-- The wording of what is wrong with `tag`. -/
def TagFault.message (tag : String) : TagFault → String
  | .empty => "(empty)"
  | .tooLong bytes =>
    "Tag too long (" ++ Nat.repr bytes ++ " characters, max " ++ Nat.repr tagLimit ++ ")"
  | .badStart => tag
  | .badCharacter c => "Invalid character '" ++ String.singleton c ++ "' in tag: " ++ tag

/-- The registry of an image that names none. -/
def hub : String := "docker.io"

/-- The key that the same registry has in credential files of old. -/
def hubLegacyKey : String := "https://index.docker.io/v1/"

/-- Whether the first step of a reference names a registry. -/
def isRegistry (step : List Char) : Bool :=
  step.contains '.' || step.contains ':' || step = "localhost".toList

/-- The registry of an image. -/
def registryOf (image : String) : String :=
  match Text.splitOnce '/' image.toList with
  | some (first, _) => if isRegistry first then String.ofList first else hub
  | none => hub

/-- The registry that a key of a credential file means. -/
def canonical (key : String) : String :=
  if key = hubLegacyKey then hub
  else
    let address := Text.dropHeads "http://".toList (Text.dropHeads "https://".toList key.toList)
    String.ofList (Text.dropTailWhile (· = '/') address)

end ImageBuild.Registry
