import CritterScript.Text.Basic

/-!
# Files

What a command sees of the file system: the text behind a path, or why there
is none (`Files`). A `FileTree` is a working directory with everything in it;
reading from it follows a path step by step, so a path leads through
directories that exist and may go up as well as down.

A name has at most 255 bytes and a path at most 4095. A name that is too long
is found when the path gets there, so a missing directory before it is
reported first; a path that is too long is refused as a whole.
-/

namespace CritterScript

/-- Why a file has no text. -/
inductive ReadError where
  | missing
  | directory
  /-- The path leads through something that is not a directory. -/
  | notDirectory
  /-- The path, or a name on it, has too many bytes. -/
  | tooLong
  /-- The path has a zero byte in it. -/
  | zeroByte
  | notUtf8
  | other (text : String)
deriving DecidableEq, Repr

def ReadError.message : ReadError → String
  | missing => "No such file or directory (os error 2)"
  | directory => "Is a directory (os error 21)"
  | notDirectory => "Not a directory (os error 20)"
  | tooLong => "File name too long (os error 36)"
  | zeroByte => "file name contained an unexpected NUL byte"
  | notUtf8 => "stream did not contain valid UTF-8"
  | other text => text

/-- The texts of files by their paths. -/
abbrev Files := String → Except ReadError String

/-- Whether there is a file behind a path, readable or not. -/
def Files.isFile (files : Files) (path : String) : Bool :=
  match files path with
  | .ok _ | .error .notUtf8 | .error (.other _) => true
  | .error _ => false

/-! ## Paths -/

/-- The greatest number of bytes of a name. -/
def maxNameBytes : Nat := 255

/-- The greatest number of bytes of a path. -/
def maxPathBytes : Nat := 4095

/-- What is wrong with a path, whatever files there are. -/
def pathFlaw? (path : String) : Option ReadError :=
  if path.toList.contains '\x00' then some .zeroByte
  else if path.isEmpty then some .missing
  else if maxPathBytes < Text.byteSize path.toList then some .tooLong
  else none

/-- The path, in reverse, without the slashes and single dots at its end that
do not matter. -/
def trimPath : List Char → List Char
  | ['/'] => ['/']
  | '/' :: cs => trimPath cs
  | '.' :: '/' :: cs => trimPath ('/' :: cs)
  | cs => cs
termination_by cs => cs.length

/-- The directory of a file: the path without its last name, or `.` if nothing
is left. A root has no last name, which comes to the same. -/
def parentPath (path : String) : String :=
  match trimPath path.toList.reverse with
  | ['/'] => "."
  | cs =>
    match cs.dropWhile (· != '/') with
    | [] => "."
    | cs => String.ofList (trimPath cs).reverse

/-- The path of a file in a directory. -/
def joinPath (directory name : String) : String :=
  if directory.toList.getLast? = some '/' then directory ++ name else directory ++ "/" ++ name

/-! ## Trees -/

/-- The files below a directory, by the names on the way to them. -/
structure FileTree where
  files : List (List String × ByteArray)
  /-- Directories besides those on the way to a file. -/
  directories : List (List String)
  /-- There is nothing above: going up from the top leads back to it. -/
  isRoot : Bool

namespace FileTree

/-- The names that a path is made of. -/
def steps (path : String) : List String :=
  (path.toList.splitOn '/').map String.ofList

/-- A working directory with the files at some paths. -/
def ofList (files : List (String × ByteArray)) : FileTree where
  files := files.map fun (path, content) =>
    ((steps path).filter (fun s => s != "" && s != "."), content)
  directories := []
  isRoot := false

/-- What every system has: the usual directories below its root, and the null
device, which reads as an empty file. -/
def system : FileTree where
  files := [(["dev", "null"], .empty)]
  directories :=
    [["bin"], ["boot"], ["etc"], ["home"], ["lib"], ["media"], ["mnt"], ["opt"], ["proc"],
      ["root"], ["run"], ["sbin"], ["srv"], ["sys"], ["tmp"], ["usr"], ["var"]]
  isRoot := true

/-- What is at the end of a list of names. -/
inductive Node where
  | directory
  | file (content : ByteArray)
  | missing

def node (t : FileTree) (way : List String) : Node :=
  match t.files.find? fun (path, _) => path = way with
  | some (_, content) => .file content
  | none =>
    if way.isEmpty || t.directories.contains way ||
        t.files.any fun (path, _) => way.isPrefixOf path then .directory
    else .missing

/-- Whether a step has more bytes than a name may have. -/
def isLong (step : String) : Bool :=
  maxNameBytes < Text.byteSize step.toList

/-- Whether a step names nothing: it stays, or goes up. -/
def isDots (step : String) : Bool :=
  step = "" || step = "." || step = ".."

/-- What is at the end of steps above the working directory, where nothing
but directories on the way up is known. -/
def above (steps : List String) : ReadError :=
  match steps.find? fun step => !isDots step with
  | none => .directory
  | some name => if isLong name then .tooLong else .missing

/-- Follows steps from the directory `here`. -/
def walk (t : FileTree) (here : List String) : List String → Except ReadError String
  | [] => .error .directory
  | step :: rest =>
    if step = "" || step = "." then t.walk here rest
    else if step = ".." then
      if here.isEmpty && !t.isRoot then .error (above rest) else t.walk here.dropLast rest
    else if isLong step then .error .tooLong
    else
      match t.node (here ++ [step]) with
      | .directory => t.walk (here ++ [step]) rest
      | .missing => .error .missing
      | .file content =>
        if rest.isEmpty then
          match String.fromUTF8? content with
          | some text => .ok text
          | none => .error .notUtf8
        else .error .notDirectory

/-- The files of a working directory. A path that starts with a slash leads
from the root of the system. -/
def read (t : FileTree) : Files := fun path =>
  match pathFlaw? path with
  | some e => .error e
  | none => (if path.toList.head? = some '/' then system else t).walk [] (steps path)

end FileTree

end CritterScript
