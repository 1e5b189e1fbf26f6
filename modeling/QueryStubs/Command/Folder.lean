import QueryStubs.Entries

/-!
# Folders: reading and writing files by their paths

A folder holds files and folders, each under a path of names. A path is looked up name by name from the folder itself: every name
but the last has to lead to a folder, a dot stays, and two dots lead to the folder above. What lies outside of the folder is not
known: it is taken for folders without files.
-/

namespace QueryStubs.Command

/-- Why a file could not be read or written. -/
inductive FileFault where
  | notFound
  | notPermitted
  | notFolder
  | isFolder
  /-- The bytes of the file are no text. -/
  | notText
  | other (message : String)
  deriving DecidableEq, Repr

/-- The written form of a fault. -/
def FileFault.message : FileFault → String
  | notFound => "No such file or directory (os error 2)"
  | notPermitted => "Permission denied (os error 13)"
  | notFolder => "Not a directory (os error 20)"
  | isFolder => "Is a directory (os error 21)"
  | notText => "stream did not contain valid UTF-8"
  | other message => message

/-- The files of a folder with their texts and the folders in it, by their paths. -/
structure Folder where
  files : List (List String × String) := []
  folders : List (List String) := []
  deriving DecidableEq, Repr

/-- A place that a path leads to: below the folder, or outside of it. -/
inductive Place where
  | below (path : List String)
  | outside
  deriving DecidableEq, Repr

/-- The names of a path. -/
def pathNames (path : String) : List String :=
  let rec names : List Char → List (List Char)
    | [] => [[]]
    | c :: cs =>
      if c = '/' then [] :: names cs
      else
        match names cs with
        | [] => [[c]]
        | n :: ns => (c :: n) :: ns
  (names path.toList).map String.ofList

namespace Folder

/-- Whether a place is a folder. -/
def hasFolder (f : Folder) : Place → Bool
  | .below path => path.isEmpty || f.folders.contains path
  | .outside => true

/-- The text of the file at a place. -/
def textAt? (f : Folder) : Place → Option String
  | .below path => f.files.lookup path
  | .outside => none

/-- Whether names can be looked up at a place. -/
def enter (f : Folder) (p : Place) : Except FileFault Unit :=
  if f.hasFolder p then .ok ()
  else if (f.textAt? p).isSome then .error .notFolder
  else .error .notFound

/-- The place that a name leads to. It need not exist, unless it is outside. -/
def step (f : Folder) (p : Place) (name : String) : Except FileFault Place := do
  f.enter p
  match p with
  | .below path =>
    if name = "" ∨ name = "." then return .below path
    else if name = ".." then return if path.isEmpty then .outside else .below path.dropLast
    else return .below (path ++ [name])
  | .outside => if name ∈ ["", ".", ".."] then return .outside else throw .notFound

/-- The place that some names lead to. -/
def walk (f : Folder) : Place → List String → Except FileFault Place
  | p, [] => .ok p
  | p, name :: names => do f.walk (← f.step p name) names

/-- Where looking up names starts: a path that starts with a slash is not below the folder. -/
def startOf : List String → Place
  | "" :: _ => .outside
  | _ => .below []

/-- The text of the file at a path. -/
def read (f : Folder) (path : String) : Except FileFault String := do
  let names := pathNames path
  let p ← f.walk (startOf names) names
  match f.textAt? p with
  | some text => return text
  | none => throw (if f.hasFolder p then .isFolder else .notFound)

/-- The folder after a file is written at a path, which makes the file or replaces it. A path with a slash at its end is the path
of a folder. -/
def write (f : Folder) (path text : String) : Except FileFault Folder := do
  let names := pathNames path
  let proper := (names.reverse.dropWhile (· = "")).reverse
  let p ← f.walk (startOf names) proper.dropLast
  f.enter p
  match p, proper.getLast? with
  | .below folder, some name =>
    if name = "." ∨ name = ".." ∨ proper.length < names.length ∨ f.hasFolder (.below (folder ++ [name])) then throw .isFolder
    else return { f with files := Entries.insert (folder ++ [name]) text f.files }
  | .below _, none => throw .isFolder
  | .outside, some name => throw (if name = "." ∨ name = ".." then .isFolder else .notFound)
  | .outside, none => throw .isFolder

end Folder

end QueryStubs.Command
