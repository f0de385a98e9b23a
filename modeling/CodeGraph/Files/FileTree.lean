import CodeGraph.Path

/-!
# Trees of files

A tree of files, directories and symbolic links, and how a path is followed in it: a name needs a
directory that holds it, `..` leads to the directory above, a link leads to its target, seen from
the directory that holds the link. The root of the tree is the root of all absolute paths, and
relative paths start there too. Following a path gives a *place*: the names on the way from the
root, without links.
-/

namespace CodeGraph

/-- A tree of files. -/
inductive FileTree where
  | file (content : ByteArray)
  | link (target : String)
  | directory (entries : List (String × FileTree))

/-- Why a file cannot be reached, read or written. -/
inductive FileError where
  | notFound
  | notADirectory
  | isADirectory
  /-- The content is no text. -/
  | notText
  /-- Links lead around in a circle. -/
  | linkLoop
deriving DecidableEq, Repr, Inhabited

namespace FileTree

instance : Inhabited FileTree := ⟨directory []⟩

/-- The tree without files. -/
def empty : FileTree := directory []

/-- The entries of a tree, if it is a directory. -/
def entries? : FileTree → Option (List (String × FileTree))
  | directory entries => some entries
  | _ => none

/-- The tree at a place. -/
def get? (tree : FileTree) : List String → Option FileTree
  | [] => some tree
  | name :: rest => (tree.entries?.bind (List.lookup name)).bind fun child => child.get? rest

/-- Put a tree under a name. -/
def putEntry (name : String) (value : FileTree) :
    List (String × FileTree) → List (String × FileTree)
  | [] => [(name, value)]
  | entry :: rest =>
    if entry.1 = name then (name, value) :: rest else entry :: putEntry name value rest

/-- Put a tree at a place; directories that are missing on the way are made. -/
def put (tree : FileTree) (value : FileTree) : List String → FileTree
  | [] => value
  | name :: rest =>
    let entries := tree.entries?.getD []
    directory (putEntry name (((entries.lookup name).getD empty).put value rest) entries)

/-! ## Following paths -/

/-- How many links a path may lead over. -/
def maxLinks : Nat := 40

/-- Follow the pieces of a path from a place, over at most `links` links. The last piece may name
what is not there yet if `fresh`. -/
def follow (tree : FileTree) (fresh : Bool) (links : Nat) (place : List String) :
    List String → Except FileError (List String)
  | [] => .ok place
  | piece :: rest =>
    match tree.get? place with
    | some (directory entries) =>
      if piece = "" ∨ piece = "." then tree.follow fresh links place rest
      else if piece = ".." then tree.follow fresh links place.dropLast rest
      else
        match entries.lookup piece with
        | some (link target) =>
          match links with
          | 0 => .error .linkLoop
          | links + 1 =>
            let start := if target.toList.head? = some '/' then [] else place
            tree.follow fresh links start (Path.pieces target ++ rest)
        | some _ => tree.follow fresh links (place ++ [piece]) rest
        | none =>
          if !fresh then .error .notFound
          else if rest.isEmpty then .ok (place ++ [piece])
          else if rest.all (· == "") then .error .isADirectory
          else .error .notFound
    | some _ => .error .notADirectory
    | none => .error .notFound
termination_by pieces => (links, pieces.length)

/-- The place that a path leads to. -/
def locate (tree : FileTree) (path : Path) : Except FileError (List String) :=
  tree.follow false maxLinks [] (Path.pieces path.text)

/-- Whether a path leads anywhere. -/
def holds (tree : FileTree) (path : Path) : Bool := (tree.locate path).isOk

/-- The content of the file that a path leads to. -/
def readBytes (tree : FileTree) (path : Path) : Except FileError ByteArray := do
  match tree.get? (← tree.locate path) with
  | some (file content) => return content
  | some _ => .error .isADirectory
  | none => .error .notFound

/-- The content of a file as a text. -/
def readText (tree : FileTree) (path : Path) : Except FileError String := do
  match String.fromUTF8? (← tree.readBytes path) with
  | some text => return text
  | none => .error .notText

/-- The tree in which a file has a given content. The directory of the file has to be there. -/
def write (tree : FileTree) (path : Path) (content : String) : Except FileError FileTree := do
  let place ← tree.follow true maxLinks [] (Path.pieces path.text)
  match tree.get? place with
  | some (directory _) => .error .isADirectory
  | _ => return tree.put (file content.toUTF8) place

/-- The absolute path of a place. -/
def pathOf (place : List String) : Path :=
  ⟨"/" ++ String.intercalate "/" place⟩

end FileTree

end CodeGraph
