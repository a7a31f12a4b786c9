/-!
# Files

The command line reads one file and writes at most one. It does so through a `Disk`,
of which the files of a directory held in memory are one.

The files in memory know two reasons to fail, a missing file and bytes that are no text. A
directory in the place of the file counts as a missing file, where an operating system has a
reason of its own to give. Paths start at the directory, so that one that begins with a slash
leads nowhere.
-/

namespace TwoScript

inductive DiskError where
  | missing
  | notText
  | other (reason : String)
deriving DecidableEq, Repr

def DiskError.message : DiskError → String
  | missing => "No such file or directory (os error 2)"
  | notText => "stream did not contain valid UTF-8"
  | other reason => reason

def decodeText (bytes : ByteArray) : Except DiskError String :=
  match String.fromUTF8? bytes with
  | some text => .ok text
  | none => .error .notText

structure Disk (m : Type → Type) where
  read : String → m (Except DiskError String)
  write : String → String → m (Except DiskError Unit)

/-! ## Paths -/

/-- The name of the file that a path leads to, which follows its last slash. -/
def fileName (path : String) : List Char :=
  (path.toList.reverse.takeWhile (· != '/')).reverse

def folder (path : String) : List Char :=
  (path.toList.reverse.dropWhile (· != '/')).reverse

/-- The name of a file with its extension replaced. The extension is what follows the
last dot; a dot in front of the name does not begin one. -/
def replaceExtension (extension : List Char) (name : List Char) : List Char :=
  let stem := ((name.reverse.dropWhile (· != '.')).drop 1).reverse
  (if stem.isEmpty then name else stem) ++ '.' :: extension

def withExtension (path extension : String) : String :=
  String.ofList (folder path ++ replaceExtension extension.toList (fileName path))

/-! ## Files in memory -/

/-- The files of a directory and its subdirectories, by their paths in it. -/
structure Files where
  entries : List (String × ByteArray)

namespace Files

/-- The path of a directory, with a slash behind each of its parts. -/
def directoryPath (parts : List String) : String :=
  String.join (parts.map (· ++ "/"))

def hasBelow (f : Files) (path : String) : Bool :=
  f.entries.any fun entry => path.toList.isPrefixOf entry.1.toList

/-- Whether a directory exists: the topmost one, or one that holds a file. -/
def hasDirectory (f : Files) (parts : List String) : Bool :=
  parts.isEmpty || f.hasBelow (directoryPath parts)

/-- The directory to which steps lead from another one. A step down needs a directory to
go into, two dots lead up but not out of the topmost directory, and a dot or nothing
stays. -/
def enter? (f : Files) (parts : List String) : List String → Option (List String)
  | [] => some parts
  | step :: steps =>
    if step = "" ∨ step = "." then f.enter? parts steps
    else if step = ".." then
      if parts.isEmpty then none else f.enter? parts.dropLast steps
    else if f.hasDirectory (parts ++ [step]) then f.enter? (parts ++ [step]) steps
    else none

/-- The plain form of a path, for a file that exists or could be made. There is none for a
path that leaves the directory, passes through a missing one or names no file. -/
def resolve? (f : Files) (path : String) : Option String :=
  let name := String.ofList (fileName path)
  if (folder path).head? = some '/' ∨ name = "" ∨ name = "." ∨ name = ".." then none
  else
    (f.enter? [] (((folder path).splitOn '/').map String.ofList)).map (directoryPath · ++ name)

def get? (f : Files) (path : String) : Option ByteArray :=
  (f.resolve? path).bind fun name => f.entries.lookup name

/-- Writes a file, unless a directory stands in its place. -/
def put? (f : Files) (path : String) (bytes : ByteArray) : Option Files :=
  match f.resolve? path with
  | none => none
  | some name =>
    if f.hasBelow (name ++ "/") then none
    else some ⟨(name, bytes) :: f.entries.filter (·.1 != name)⟩

def read (f : Files) (path : String) : Except DiskError String :=
  match f.get? path with
  | some bytes => decodeText bytes
  | none => .error .missing

def write (f : Files) (path text : String) : Except DiskError Files :=
  match f.put? path text.toUTF8 with
  | some f => .ok f
  | none => .error .missing

def disk : Disk (StateM Files) where
  read path := fun f => (f.read path, f)
  write path text := fun f =>
    match f.write path text with
    | .ok f' => (.ok (), f')
    | .error e => (.error e, f)

def changedSince (f before : Files) : List (String × ByteArray) :=
  f.entries.filter fun entry =>
    match before.entries.lookup entry.1 with
    | some bytes => bytes != entry.2
    | none => true

end Files

end TwoScript
