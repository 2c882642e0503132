import CloudTemplate.Error
import CloudTemplate.Text.Path

/-!
# Files

What commands need of a file system, and a file system in memory that offers it. The directories of
the file system in memory are those on the way to its files. Around its working directory, there is
what every system has.

Main definitions: `FileAccess` is what commands use, and `FileStore.access` is the file system in
memory.
-/

namespace CloudTemplate

/-- Ways to read and write files. -/
structure FileAccess (m : Type → Type) where
  read : FilePath → m (Except FileFault Bytes)
  write : FilePath → Bytes → m (Except FileFault Unit)
  /-- Whether there is a file or a directory. -/
  isThere : FilePath → m Bool

/-- The text that a file holds. -/
def textOf (bytes : Bytes) : Except FileFault String :=
  match Text.ofBytes? bytes with
  | some text => .ok text
  | none => .error .notText

/-- The files in and below the working directory. The names that lead to a file from there are none
of `.`, `..` and the empty name. -/
structure FileStore where
  files : List (List Bytes × Bytes)
  nodup : (files.map Prod.fst).Nodup
deriving DecidableEq

/-- A place that a path can lead to. -/
inductive Place where
  /-- The names lead from the working directory to it. -/
  | inside (names : List Bytes)
  /-- The names lead from the root to it, and not into the working directory. -/
  | outside (names : List Bytes)
deriving DecidableEq

namespace Place

/-- The directory that holds a place. The working directory is among the temporary files, and the
root holds itself. -/
def above : Place → Place
  | .inside [] => .outside ["tmp".toUTF8.toList]
  | .inside names => .inside names.dropLast
  | .outside names => .outside names.dropLast

/-- The place with a name in a directory. -/
def below (name : Bytes) : Place → Place
  | .inside names => .inside (names ++ [name])
  | .outside names => .outside (names ++ [name])

end Place

/-- Whether a name says no more than that a directory is meant. -/
def isSelf (name : Bytes) : Bool :=
  name = [] || name = FilePath.here

/-- How many bytes a path may have. -/
def pathLimit : Nat := 4095

/-- How many bytes a name may have. -/
def nameLimit : Nat := 255

/-- The fault of a path that leads nowhere in any file system. -/
def pathFault? (path : FilePath) : Option FileFault :=
  if path.bytes.contains 0 then some .zeroInPath
  else if path.bytes.isEmpty then some .notFound
  else if pathLimit < path.bytes.length then some .nameTooLong
  else none

namespace FileStore

/-- What stands at a place. -/
inductive Node where
  | file (content : Bytes)
  | directory
  | nothing
deriving DecidableEq

/-- The content of the file under some names. -/
def content? (store : FileStore) (names : List Bytes) : Option Bytes :=
  store.files.lookup names

/-- A store without files. -/
def empty : FileStore := ⟨[], List.nodup_nil⟩

/-- A store with a file under some names, in place of what was there. -/
def insert (store : FileStore) (names : List Bytes) (content : Bytes) : FileStore where
  files := (names, content) :: store.files.filter fun file => file.1 ≠ names
  nodup := by
    refine List.nodup_cons.2 ⟨?_, store.nodup.sublist (List.filter_sublist.map _)⟩
    simp

/-- A store with some files. Their paths are relative and do not lead upwards. -/
def ofFiles (files : List (FilePath × Bytes)) : FileStore :=
  files.foldl
    (fun store file => store.insert (file.1.names.filter fun name => !isSelf name) file.2) empty

/-- The directories in the root of every system. -/
def systemDirectories : List String :=
  ["bin", "dev", "etc", "home", "lib", "opt", "proc", "root", "run", "sbin", "sys", "tmp", "usr",
    "var"]

/-- What stands outside of the working directory, as far as all systems have it: the directories in
the root, and a device that holds nothing. -/
def outsideNode (names : List Bytes) : Node :=
  match names.mapM Text.ofBytes? with
  | some [] => .directory
  | some [name] => if systemDirectories.contains name then .directory else .nothing
  | some ["dev", "null"] => .file []
  | _ => .nothing

/-- What stands in or below the working directory. -/
def insideNode (store : FileStore) (names : List Bytes) : Node :=
  match store.content? names with
  | some content => .file content
  | none =>
    let isBelow (file : List Bytes × Bytes) : Bool := names.isPrefixOf file.1
    if names.isEmpty || store.files.any isBelow then .directory else .nothing

/-- What stands at a place. -/
def node (store : FileStore) : Place → Node
  | .inside names => store.insideNode names
  | .outside names => outsideNode names

/-- Look a name up in a directory. -/
def enter (store : FileStore) (here : Place) (name : Bytes) : Except FileFault Place :=
  match store.node here with
  | .file _ => .error .notDirectory
  | .nothing => .error .notFound
  | .directory =>
    if isSelf name then .ok here
    else if name = FilePath.above then .ok here.above
    else if nameLimit < name.length then .error .nameTooLong
    else .ok (here.below name)

/-- Where a path starts. -/
def origin (path : FilePath) : Place :=
  if path.bytes.head? = some 0x2F then .outside [] else .inside []

/-- Follow a path. -/
def locate (store : FileStore) (path : FilePath) : Except FileFault Place :=
  match pathFault? path with
  | some fault => .error fault
  | none => path.names.foldlM store.enter (origin path)

/-- Read a file. -/
def read (store : FileStore) (path : FilePath) : Except FileFault Bytes := do
  match store.node (← store.locate path) with
  | .file content => .ok content
  | .directory => .error .isDirectory
  | .nothing => .error .notFound

/-- Whether a path leads to a file or a directory. -/
def isThere (store : FileStore) (path : FilePath) : Bool :=
  match store.locate path with
  | .ok place => store.node place ≠ .nothing
  | .error _ => false

/-- A store with a file at a place. What is written outside of the working directory is not
kept. -/
def put (store : FileStore) (place : Place) (content : Bytes) : FileStore :=
  match place with
  | .inside names => store.insert names content
  | .outside _ => store

/-- Write a file, which may be new, into a directory. A path that ends in a slash or in a name for
a directory names no file. -/
def write (store : FileStore) (path : FilePath) (content : Bytes) : Except FileFault FileStore :=
  match pathFault? path with
  | some fault => .error fault
  | none => do
    let names := path.names
    let kept := (names.reverse.dropWhile List.isEmpty).reverse
    let directory ← kept.dropLast.foldlM store.enter (origin path)
    let _ ← store.enter directory FilePath.here
    let name := kept.getLastD FilePath.here
    if kept.length < names.length || isSelf name || name = FilePath.above then .error .isDirectory
    else
      let place ← store.enter directory name
      match store.node place with
      | .directory => .error .isDirectory
      | _ => .ok (store.put place content)

/-- Ways to read and write the files of a store. -/
def access : FileAccess (StateM FileStore) where
  read path := do return (← get).read path
  write path content := do
    match (← get).write path content with
    | .ok store => set store; return .ok ()
    | .error fault => return .error fault
  isThere path := do return (← get).isThere path

end FileStore

end CloudTemplate
