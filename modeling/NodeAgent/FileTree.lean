import NodeAgent.Table

/-!
A tree of directories and text files, and the ways in which an operation on it fails. A path is
walked part by part, from the root or from the working directory: an empty or dotted part stays
where it is, two dots go to the directory above, and each part starts out from a directory that has
to be there. So a path that ends in a slash can only name a directory.
-/

namespace NodeAgent

inductive OsError
  | notFound
  | exists_
  | notDirectory
  | isDirectory
  | nameTooLong
  | permissionDenied
  | readOnlyFileSystem
  | noSpace
  /-- A path with a character of number zero. -/
  | nulInPath
  /-- A command with a character of number zero. -/
  | nulInCommand
  deriving DecidableEq, Repr

def OsError.message : OsError → String
  | notFound => "No such file or directory (os error 2)"
  | exists_ => "File exists (os error 17)"
  | notDirectory => "Not a directory (os error 20)"
  | isDirectory => "Is a directory (os error 21)"
  | nameTooLong => "File name too long (os error 36)"
  | permissionDenied => "Permission denied (os error 13)"
  | readOnlyFileSystem => "Read-only file system (os error 30)"
  | noSpace => "No space left on device (os error 28)"
  | nulInPath => "file name contained an unexpected NUL byte"
  | nulInCommand => "nul byte found in provided data"

/-- No path and no part of a command holds the character of number zero. -/
def hasNul (s : String) : Bool := s.toList.contains (Char.ofNat 0)

inductive FileNode
  | file (text : String)
  | directory
  deriving DecidableEq, Repr

/-- Where something lies in a tree: the names on the way to it from the root. -/
abbrev Location := List String

/-- What the system answers where it does not let everything be written. -/
structure Refusal where
  error : OsError
  /-- How many characters of a text there is room for. If this is left open, nothing is touched. -/
  room : Option Nat := none
  deriving DecidableEq, Repr

/-- Every entry but the root lies in a directory of the table, or else cannot be reached. -/
structure FileTree where
  nodes : Table Location FileNode := ∅
  workingDirectory : Location := []
  refusals : Table Location Refusal := ∅
  deriving Inhabited

namespace FileTree

/-- In bytes. -/
def longestName : Nat := 255

/-- In bytes. -/
def longestPath : Nat := 4095

def flaw? (path : String) : Option OsError :=
  if hasNul path then some .nulInPath
  else if path = "" then some .notFound
  else if longestPath < path.utf8ByteSize then some .nameTooLong
  else none

def node? (t : FileTree) (place : Location) : Option FileNode :=
  if place = [] then some .directory else t.nodes.find? place

def start (t : FileTree) (path : String) : Location :=
  if path.toList.head? = some '/' then [] else t.workingDirectory

/-- One part of a path further. Nothing need be at the place where it leads. -/
def step (t : FileTree) (place : Location) (part : String) : Except OsError Location :=
  match t.node? place with
  | none => .error .notFound
  | some (.file _) => .error .notDirectory
  | some .directory =>
    if part = "" ∨ part = "." then .ok place
    else if part = ".." then .ok place.dropLast
    else if longestName < part.utf8ByteSize then .error .nameTooLong
    else .ok (place ++ [part])

def walk (t : FileTree) (place : Location) (parts : List String) : Except OsError Location :=
  parts.foldlM t.step place

def at? (t : FileTree) (path : String) : Except OsError FileNode :=
  match flaw? path with
  | some e => .error e
  | none => do
    let place ← t.walk (t.start path) (path.splitOn "/")
    match t.node? place with
    | some node => .ok node
    | none => .error .notFound

def exists? (t : FileTree) (path : String) : Bool := (t.at? path).toBool

def isDirectory (t : FileTree) (path : String) : Bool :=
  match t.at? path with
  | .ok .directory => true
  | _ => false

def read (t : FileTree) (path : String) : Except OsError String := do
  match ← t.at? path with
  | .file text => .ok text
  | .directory => .error .isDirectory

/-- What the last part of a path stands for, seen from the directory that the others lead to. -/
inductive LastPart
  /-- A name, and whether slashes follow. -/
  | name (directory : Location) (name : String) (slashed : Bool)
  /-- The root, the directory itself or the one above it. -/
  | dotted

def lastPart (t : FileTree) (path : String) : Except OsError LastPart :=
  match flaw? path with
  | some e => .error e
  | none =>
    let parts := (path.splitOn "/").reverse
    match parts.dropWhile (· = "") with
    | [] => .ok .dotted
    | last :: above => do
      let place ← t.walk (t.start path) above.reverse
      let directory ← t.step place "."
      if last = "." ∨ last = ".." then return .dotted
      else return .name directory last (parts.head? = some "")

/-- A text that is too long breaks off, and what was in the file before is gone with the rest. -/
def setText (t : FileTree) (place : Location) (text : String) : FileTree × Except OsError Unit :=
  let written (text : String) := { t with nodes := t.nodes.insert place (.file text) }
  match t.refusals.find? place with
  | none => (written text, .ok ())
  | some ⟨e, none⟩ => (t, .error e)
  | some ⟨e, some room⟩ =>
    if text.length ≤ room then (written text, .ok ())
    else (written (String.ofList (text.toList.take room)), .error e)

/-- Where the file of a path is or can be; its directory has to be there. -/
def filePlace (t : FileTree) (path : String) : Except OsError Location := do
  match ← t.lastPart path with
  | .dotted => .error .isDirectory
  | .name _ _ true => .error .isDirectory
  | .name directory name false =>
    let place ← t.step directory name
    match t.node? place with
    | some .directory => .error .isDirectory
    | _ => .ok place

/-- Creates the file or replaces its text. -/
def write (t : FileTree) (path text : String) : FileTree × Except OsError Unit :=
  match t.filePlace path with
  | .error e => (t, .error e)
  | .ok place => t.setText place text

def createDirectory (t : FileTree) (path : String) : Except OsError FileTree := do
  match ← t.lastPart path with
  | .dotted => .error .exists_
  | .name directory name _ =>
    let place ← t.step directory name
    match t.node? place, t.refusals.find? place with
    | some _, _ => .error .exists_
    | none, some refusal => .error refusal.error
    | none, none => .ok { t with nodes := t.nodes.insert place .directory }

/-- A directory that is there already need not be created. -/
def ensureDirectory (t : FileTree) (path : String) : FileTree × Except OsError Unit :=
  match t.createDirectory path with
  | .ok t => (t, .ok ())
  | .error e => (t, if t.isDirectory path then .ok () else .error e)

/-- Creates the directory whose path has the parts `parts`, the last of them first. -/
def createWay (t : FileTree) : List String → FileTree × Except OsError Unit
  | [] => (t, .ok ())
  | part :: above =>
    let path := "/".intercalate (part :: above).reverse
    if path = "" then (t, .ok ())
    else
      match t.ensureDirectory path with
      | (_, .error .notFound) =>
        match t.createWay above with
        | (t, .ok ()) => t.ensureDirectory path
        | r => r
      | r => r

/-- Creates the directory, and those above it as long as they are missing. Those that have been
created stay, whatever becomes of the others. -/
def makeWay (t : FileTree) (path : String) : FileTree × Except OsError Unit :=
  t.createWay (path.splitOn "/").reverse

def createDirectories (t : FileTree) (path : String) : Except OsError FileTree :=
  match t.makeWay path with
  | (t, .ok ()) => .ok t
  | (_, .error e) => .error e

/-- Only files are removed. -/
def remove (t : FileTree) (path : String) : Except OsError FileTree := do
  match ← t.lastPart path with
  | .dotted => .error .isDirectory
  | .name directory name slashed =>
    let place ← t.step directory name
    match t.node? place with
    | none => .error .notFound
    | some .directory => .error .isDirectory
    | some (.file _) =>
      if slashed then .error .notDirectory
      else
        match t.refusals.find? place with
        | some ⟨e, none⟩ => .error e
        | _ => .ok { t with nodes := t.nodes.erase place }

def ofWorkingDirectory (path : String) : FileTree :=
  match ({} : FileTree).createDirectories path with
  | .error _ => {}
  | .ok t => { t with workingDirectory := (t.walk [] (path.splitOn "/")).toOption.getD [] }

def parentPath (path : String) : String :=
  let isEmptyStep (part : String) : Bool := part = "" ∨ part = "."
  let parts := ((path.splitOn "/").reverse.dropWhile isEmptyStep).drop 1
  let parent := "/".intercalate (parts.dropWhile isEmptyStep).reverse
  if parent = "" ∧ path.toList.head? = some '/' then "/" else parent

end FileTree

end NodeAgent
