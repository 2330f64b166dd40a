import Warden.Policy.Load

namespace Warden

/-!
# File trees

A working directory as a value: which files and directories it holds, and what reading a path
in it gives.

* `FileTree.place` — where a path leads, given by the names on the way from the working
  directory.
* `FileTree.add` — the tree with one more entry, and with the directories on the way to it.
* `FileTree.read` — the content found at a path.  Every part of a path but the last must name a
  directory, and so must the last one in front of a slash.
-/

/-- What a path can lead to. -/
inductive Node where
  | file (content : ByteArray)
  | directory

/-- The entries of a working directory, each with its place. -/
structure FileTree where
  entries : List (List String × Node)

namespace FileTree

/-! ### Places -/

/-- The names in a path; empty ones and single dots lead nowhere and are left out. -/
def names (path : String) : List String :=
  ((path.toList.splitOn '/').map String.ofList).filter fun name => name != "" && name != "."

/-- Whether a place is the working directory or a directory above it. -/
def isOnTop (place : List String) : Bool :=
  place.all (· == "..")

/-- The place that a name leads to from another place. -/
def step (place : List String) (name : String) : List String :=
  if name = ".." && !isOnTop place then place.dropLast else place ++ [name]

/-- The place that names lead to from the working directory. -/
def place (names : List String) : List String :=
  names.foldl step []

/-! ### Entries -/

/-- The working directory with nothing in it. -/
def empty : FileTree :=
  ⟨[]⟩

/-- The tree with one more entry, at the end of directories that are made where they are missing;
    a later entry at the same place hides an earlier one. -/
def add (t : FileTree) (path : String) (node : Node) : FileTree :=
  let route := names path
  let made := (List.range route.length).map fun n => (place (route.take n), Node.directory)
  ⟨(place route, node) :: made ++ t.entries⟩

/-- What is found at a place.  Of the directories above the working directory nothing is known
    but that they are directories. -/
def node? (t : FileTree) (place : List String) : Option Node :=
  if isOnTop place then some .directory else t.entries.lookup place

/-! ### Reading -/

/-- Follows names from a place to which a path has led so far. -/
def follow (t : FileTree) (place : List String) : List String → Except ReadFailure Node
  | [] =>
      match t.node? place with
      | some node => .ok node
      | none => .error .notFound
  | name :: rest =>
      match t.node? place with
      | none => .error .notFound
      | some (.file _) => .error .notDirectory
      | some .directory => follow t (step place name) rest

/-- What is found from the root, of which nothing is known but that it is a directory, and the
    one above itself. -/
def followRoot (names : List String) : Except ReadFailure Node :=
  if names.all (· == "..") then .ok .directory else .error .notFound

/-- Whether a path says that it leads to a directory. -/
def wantsDirectory (path : String) : Bool :=
  ['/'].isSuffixOf path.toList || ['/', '.'].isSuffixOf path.toList

/-- The content found at a path. -/
def read (t : FileTree) : Files := fun path =>
  if path.isEmpty then .error .notFound
  else
    let found :=
      if ['/'].isPrefixOf path.toList then followRoot (names path) else t.follow [] (names path)
    match found with
    | .error failure => .error failure
    | .ok .directory => .error .isDirectory
    | .ok (.file content) =>
        if wantsDirectory path then .error .notDirectory else .ok content

/-! ### Reading, tried out -/

example : ((empty.add "d/p" (.file ⟨#[65]⟩)).read "./d//p").toOption = some ⟨#[65]⟩ := by
  decide +kernel

example : ((empty.add "d/../x" (.file ⟨#[65]⟩)).read "d/../d/../x").toOption = some ⟨#[65]⟩ := by
  decide +kernel

example :
    let tree := empty.add "d/p" (.file ⟨#[65]⟩)
    (["", "p", "d", "d/", ".", "..", "d/p/", "d/p/q", "d/q"].map fun path =>
        match tree.read path with
        | .ok _ => none
        | .error failure => some failure) =
      [some .notFound, some .notFound, some .isDirectory, some .isDirectory, some .isDirectory,
        some .isDirectory, some .notDirectory, some .notDirectory, some .notFound] := by
  decide +kernel

end FileTree

end Warden
