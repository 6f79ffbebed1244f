import TableApi.Path

/-! Access to files, and trees of files that are held in memory. -/
namespace TableApi

/-- What a program may do with files. A failure gives its reason. -/
structure FileAccess (m : Type → Type) where
  isThere : String → m Bool
  read : String → m (Except String String)
  /-- Makes a folder and all folders on the way to it. -/
  createFolder : String → m (Except String Unit)
  write : String → String → m (Except String Unit)

inductive FileContent where
  | text (content : String)
  /-- Bytes that are no text. -/
  | bytes
  deriving DecidableEq, Repr

/-- Folders and files by the names that lead to them. The folders above the tree are there too; the
names that lead out of it are pairs of points. -/
structure FileTree where
  folders : List (List String)
  files : List (List String × FileContent)
  deriving DecidableEq, Repr

namespace FileTree

def empty : FileTree := ⟨[], []⟩

/-- Where a path leads. -/
inductive Place where
  | folder (place : List String)
  | file (place : List String) (content : FileContent)
  /-- Nothing is there, but the folder around it is. -/
  | free (place : List String)
  /-- A file stands in the way. -/
  | blocked
  | nowhere
  deriving DecidableEq, Repr

def isAbove (place : List String) : Bool :=
  place.all (· = "..")

def isFolder (tree : FileTree) (place : List String) : Bool :=
  isAbove place || tree.folders.contains place

/-- The folder around a folder. -/
def parent (folder : List String) : List String :=
  if isAbove folder then folder ++ [".."] else folder.dropLast

/-- Follows names from a folder on. -/
def walk (tree : FileTree) (folder : List String) : List String → Place
  | [] => .folder folder
  | ".." :: rest => walk tree (parent folder) rest
  | name :: rest =>
    let place := folder ++ [name]
    if tree.isFolder place then walk tree place rest
    else
      match tree.files.lookup place with
      | some content => if rest.isEmpty then .file place content else .blocked
      | none => if rest.isEmpty then .free place else .nowhere

def locate (tree : FileTree) (path : String) : Place :=
  if path = "" then .nowhere
  else
    match tree.walk [] (Path.parts path) with
    | .file place content => if Path.endsAsFolder path then .blocked else .file place content
    | place => place

def notFound : String := "No such file or directory (os error 2)"
def alreadyThere : String := "File exists (os error 17)"
def noFolder : String := "Not a directory (os error 20)"
def isAFolder : String := "Is a directory (os error 21)"
def notText : String := "stream did not contain valid UTF-8"

def isThere (tree : FileTree) (path : String) : Bool :=
  match tree.locate path with
  | .folder _ | .file _ _ => true
  | _ => false

def read (tree : FileTree) (path : String) : Except String String :=
  match tree.locate path with
  | .folder _ => .error isAFolder
  | .file _ (.text content) => .ok content
  | .file _ .bytes => .error notText
  | .blocked => .error noFolder
  | .free _ | .nowhere => .error notFound

/-- Makes the folders that are missing; those made before a failure stay. -/
def createFrom (tree : FileTree) (folder : List String) : List String → Except String Unit × FileTree
  | [] => (.ok (), tree)
  | ".." :: rest => createFrom tree (parent folder) rest
  | name :: rest =>
    let place := folder ++ [name]
    if tree.isFolder place then createFrom tree place rest
    else if (tree.files.lookup place).isSome then
      (.error (if rest.isEmpty then alreadyThere else noFolder), tree)
    else createFrom { tree with folders := tree.folders ++ [place] } place rest

/-- A path that ends in a point leads into a folder, which is not made for that. -/
def createFolder (tree : FileTree) (path : String) : Except String Unit × FileTree :=
  if Path.endsInPoint path then
    match tree.locate path with
    | .folder _ => (.ok (), tree)
    | .file _ _ | .blocked => (.error noFolder, tree)
    | .free _ | .nowhere =>
      match tree.createFrom [] (Path.parts path).dropLast with
      | (.ok (), tree) => (.error notFound, tree)
      | failed => failed
  else tree.createFrom [] (Path.parts path)

def putFile (tree : FileTree) (place : List String) (content : FileContent) : FileTree :=
  { tree with files := tree.files.filter (·.1 ≠ place) ++ [(place, content)] }

def write (tree : FileTree) (path content : String) : Except String Unit × FileTree :=
  match tree.locate path with
  | .folder _ => (.error isAFolder, tree)
  | .file place _ => (.ok (), tree.putFile place (.text content))
  | .free place =>
    if Path.endsAsFolder path then (.error isAFolder, tree)
    else (.ok (), tree.putFile place (.text content))
  | .blocked => (.error noFolder, tree)
  | .nowhere => (.error notFound, tree)

def access : FileAccess (StateM FileTree) where
  isThere path := do return (← get).isThere path
  read path := do return (← get).read path
  createFolder path := modifyGet (·.createFolder path)
  write path content := modifyGet (·.write path content)

end FileTree

end TableApi
