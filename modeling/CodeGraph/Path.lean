/-!
# Paths

A path is a text whose meaning is its list of components. Repeated and trailing slashes and `.`
inside a path have no component, so `a//b`, `a/./b` and `a/b/` have the same components; a leading
`.` is a component of its own. Paths are ordered by components, and a list of paths kept strictly
sorted (`Path.insert`) holds one spelling of each: the first that was inserted.
-/

namespace CodeGraph

/-- A path, as it is spelled. -/
structure Path where
  text : String
deriving DecidableEq, Repr, Inhabited

namespace Path

/-- One step of a path. -/
inductive Component where
  /-- The root of an absolute path. -/
  | root
  /-- A leading `.`. -/
  | here
  /-- A `..`. -/
  | up
  /-- Any other name. -/
  | named (name : String)
deriving DecidableEq, Repr, Inhabited

namespace Component

/-- The sort key of a component: the root first, then `.`, then `..`, then the names. -/
def key : Component → Nat × String
  | root => (0, "")
  | here => (1, "")
  | up => (2, "")
  | named name => (3, name)

/-- The text of a component. -/
def text : Component → String
  | root => "/"
  | here => "."
  | up => ".."
  | named name => name

/-- Whether a component comes before another. -/
def before (a b : Component) : Bool :=
  a.key.1 < b.key.1 || (a.key.1 == b.key.1 && a.key.2 < b.key.2)

end Component

/-- The component of a piece between slashes, if it has one. A `.` counts only when `leading`. -/
def component? (leading : Bool) (piece : String) : Option Component :=
  if piece = "" then none
  else if piece = "." then if leading then some .here else none
  else if piece = ".." then some .up
  else some (.named piece)

/-- The pieces of a text between its slashes. -/
def pieces (text : String) : List String :=
  (text.toList.splitOn '/').map String.ofList

/-- Whether a path starts at the root. -/
def isAbsolute (path : Path) : Bool :=
  path.text.toList.head? == some '/'

/-- The components of a path. -/
def components (path : Path) : List Component :=
  match pieces path.text with
  | [] => []
  | first :: rest =>
    let start := if path.isAbsolute then [Component.root] else (component? true first).toList
    start ++ rest.filterMap (component? false)

/-- Whether a list of components comes before another: the order of words. -/
def lexBefore : List Component → List Component → Bool
  | [], [] => false
  | [], _ :: _ => true
  | _ :: _, [] => false
  | a :: as, b :: bs => a.before b || (a == b && lexBefore as bs)

/-- Two paths are the same when their components are. -/
def same (a b : Path) : Bool :=
  a.components == b.components

/-- Whether a path comes before another in the order by components. -/
def before (a b : Path) : Bool :=
  lexBefore a.components b.components

/-- Halve a stretch of `size` paths from `base` on until one is left: the last one, in a sorted
list, that does not come after the path sought. -/
def probe (path : Path) (list : List Path) (base size : Nat) : Nat :=
  if 1 < size then
    let middle := base + size / 2
    if path.before (list.getD middle path) then path.probe list base (size - size / 2)
    else path.probe list middle (size - size / 2)
  else base
termination_by size
decreasing_by all_goals omega

/-- Where a path goes in a sorted list, if the list does not hold it yet. -/
def slot? (path : Path) (list : List Path) : Option Nat :=
  match list with
  | [] => some 0
  | _ :: _ =>
    let base := path.probe list 0 list.length
    let found := list.getD base path
    -- Neither before nor behind: the list holds the path, perhaps spelled in another way.
    if found.before path then some (base + 1)
    else if path.before found then some base
    else none

/-- Insert a path into a sorted list by binary search; a path with the same components stays as it
is spelled. -/
def insert (path : Path) (list : List Path) : List Path :=
  match path.slot? list with
  | none => list
  | some slot => list.take slot ++ path :: list.drop slot

/-- The last component of a path when that is a name. -/
def fileName? (path : Path) : Option String :=
  match path.components.getLast? with
  | some (.named name) => some name
  | _ => none

/-- The part of a file name after its last dot. A name whose only dot is its first character has
no extension. -/
def extension? (path : Path) : Option String :=
  match path.fileName? with
  | none => none
  | some name =>
    let back := name.toList.reverse
    let after := back.takeWhile (· ≠ '.')
    match back.drop after.length with
    | _ :: _ :: _ => some (String.ofList after.reverse)
    | _ => none

end Path

end CodeGraph
