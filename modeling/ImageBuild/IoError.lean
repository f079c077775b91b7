/-!
# Input and output errors

What can go wrong between the library and a file, a directory or a terminal.
-/

namespace ImageBuild

/-- The reasons for which the operating system refuses a path. -/
inductive OsError where
  | notFound
  | noDevice
  | notDirectory
  | isDirectory
  | nameTooLong
  | tooManyLinks
deriving Repr, DecidableEq

def OsError.code : OsError → Nat
  | .notFound => 2
  | .noDevice => 6
  | .notDirectory => 20
  | .isDirectory => 21
  | .nameTooLong => 36
  | .tooManyLinks => 40

def OsError.reason : OsError → String
  | .notFound => "No such file or directory"
  | .noDevice => "No such device or address"
  | .notDirectory => "Not a directory"
  | .isDirectory => "Is a directory"
  | .nameTooLong => "File name too long"
  | .tooManyLinks => "Too many levels of symbolic links"

def OsError.message (e : OsError) : String :=
  e.reason ++ " (os error " ++ Nat.repr e.code ++ ")"

inductive IoError where
  | os (e : OsError)
  /-- A path with a NUL character, which no file can have. -/
  | nulInPath
  /-- The bytes of a file that was read as text are no UTF-8. -/
  | notText
  /-- A directory tree could not be entered at `path`. -/
  | walk (path : String) (e : IoError)
  /-- A socket at `path`, which no archive can hold. -/
  | socketEntry (path : String)
  /-- An error that another program, or the terminal, words itself. -/
  | reported (message : String)
deriving Repr, DecidableEq

def IoError.message : IoError → String
  | .os e => e.message
  | .nulInPath => "file name contained an unexpected NUL byte"
  | .notText => "stream did not contain valid UTF-8"
  | .walk path e => "IO error for operation on " ++ path ++ ": " ++ e.message
  | .socketEntry path => path ++ ": socket can not be archived"
  | .reported message => message

def IoError.isNotFound : IoError → Bool
  | .os .notFound => true
  | _ => false

end ImageBuild
