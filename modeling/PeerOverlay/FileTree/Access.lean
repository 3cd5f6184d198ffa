/-
Access to a file tree by path.

`FileTree.resolve` walks a route from the root or the working directory, through
symbolic links, to what stands at its end.  On it rest the operations of a file system:
create, list, read, write, move and remove.  Each has its own `IoError`s and, unless it
says otherwise, leaves the tree alone when it fails.

Design notes: a walk may pass at most `linkLimit` links, which bounds it together with
the number of steps left; the walk always stands in a directory.
-/
import PeerOverlay.FileTree.Basic

namespace PeerOverlay

/-- Why a file operation failed. -/
inductive IoError
  | notFound
  | alreadyExists
  | notADirectory
  | isADirectory
  | directoryNotEmpty
  | filesystemLoop
  | invalidFilename
  | invalidInput
  | permissionDenied
deriving DecidableEq, Repr

/-- The name of the kind of error. -/
def IoError.name : IoError → String
  | .notFound => "NotFound"
  | .alreadyExists => "AlreadyExists"
  | .notADirectory => "NotADirectory"
  | .isADirectory => "IsADirectory"
  | .directoryNotEmpty => "DirectoryNotEmpty"
  | .filesystemLoop => "FilesystemLoop"
  | .invalidFilename => "InvalidFilename"
  | .invalidInput => "InvalidInput"
  | .permissionDenied => "PermissionDenied"

/-- What a walk ends at. -/
inductive Target
  /-- An entry at a location. -/
  | present (loc : Location) (entry : Entry)
  /-- Nothing, inside an existing directory; the flag says that only a directory may be
  made there. -/
  | absent (loc : Location) (directoryOnly : Bool)
deriving DecidableEq, Repr

/-- How many links one walk may pass. -/
def linkLimit : Nat := 40

/-- The greatest length of a name in bytes. -/
def nameLimit : Nat := 255

/-- The greatest length of a path in bytes. -/
def pathLimit : Nat := 4095

namespace Route

/-- Whether some name on the route holds a zero byte, which ends a path. -/
def holdsZero (r : Route) : Bool :=
  r.steps.any fun
    | .down name => name.bytes.contains 0
    | _ => false

/-- The route of the empty path leads nowhere. -/
def isEmpty (r : Route) : Bool :=
  !r.absolute && r.steps.isEmpty

end Route

namespace FileTree

/-- Walks the steps of a route from a directory.  The last entry is followed if it is a link
and `follow` is set or a slash comes after it. -/
def walk (t : FileTree) (follow : Bool) (links : Nat) (cur : Location) (steps : List Step)
    (trailing : Bool) : Except IoError Target :=
  match steps with
  | [] => .ok (.present cur .directory)
  | .here :: rest => t.walk follow links cur rest trailing
  | .up :: rest => t.walk follow links cur.dropLast rest trailing
  | .down name :: rest =>
    let loc := cur ++ [name]
    if nameLimit < name.bytes.length then .error .invalidFilename
    else
      match t.get? loc with
      | none => if rest = [] then .ok (.absent loc trailing) else .error .notFound
      | some .directory => t.walk follow links loc rest trailing
      | some (.file content) =>
        if rest = [] ∧ trailing = false then .ok (.present loc (.file content))
        else .error .notADirectory
      | some (.link target) =>
        if rest = [] ∧ trailing = false ∧ follow = false then .ok (.present loc (.link target))
        else
          match links with
          | 0 => .error .filesystemLoop
          | links + 1 =>
            let route := target.route
            if route.isEmpty then .error .notFound
            else
              t.walk follow links (if route.absolute then [] else cur) (route.steps ++ rest)
                (trailing || (route.trailing && rest.isEmpty))
termination_by (links, steps.length)

/-- What stands at the end of a route. -/
def resolve (t : FileTree) (follow : Bool) (r : Route) : Except IoError Target :=
  if r.holdsZero then .error .invalidInput
  else if r.isEmpty then .error .notFound
  else if pathLimit < r.length then .error .invalidFilename
  else
    let start := if r.absolute then [] else t.workdir
    match t.get? start with
    | some .directory => t.walk follow linkLimit start r.steps r.trailing
    | _ => .error .notFound

/-- Whether a directory stands at the end of a route, links followed. -/
def isDirectory (t : FileTree) (r : Route) : Bool :=
  match t.resolve true r with
  | .ok (.present _ .directory) => true
  | _ => false

/-- Whether a file stands at the end of a route, links followed. -/
def isFile (t : FileTree) (r : Route) : Bool :=
  match t.resolve true r with
  | .ok (.present _ (.file _)) => true
  | _ => false

/-- Makes a directory inside an existing one. -/
def createDir (t : FileTree) (r : Route) : Except IoError FileTree :=
  match t.resolve false { r with trailing := false } with
  | .error e => .error e
  | .ok (.present _ _) => .error .alreadyExists
  | .ok (.absent loc _) => .ok (t.put loc .directory)

/-- Makes a directory; if its parent is missing, the parent is made first.  A directory that
is already there is no error. -/
def createWith (t : FileTree) (r : Route)
    (createParent : FileTree → Except IoError Unit × FileTree) :
    Except IoError Unit × FileTree :=
  match t.createDir r with
  | .ok made => (.ok (), made)
  | .error .notFound =>
    match createParent t with
    | (.error e, t) => (.error e, t)
    | (.ok (), t) =>
      match t.createDir r with
      | .ok made => (.ok (), made)
      | .error e => (if t.isDirectory r then .ok () else .error e, t)
  | .error e => (if t.isDirectory r then .ok () else .error e, t)

/-- Makes the directory with the given components, last one first, and missing ones above. -/
def createComponents (t : FileTree) (absolute : Bool) :
    (reversed : List Step) → Except IoError Unit × FileTree
  | [] => (.ok (), t)
  | step :: above =>
    t.createWith (.ofComponents absolute (step :: above).reverse) fun t =>
      t.createComponents absolute above

/-- Makes a directory and all missing directories above it; those made before a failure
stay. -/
def createDirAll (t : FileTree) (r : Route) : Except IoError Unit × FileTree :=
  if r.isEmpty then (.ok (), t)
  else t.createWith r fun t => t.createComponents r.absolute r.components.reverse.tail

/-- The names in a directory, in ascending order. -/
def readDir (t : FileTree) (r : Route) : Except IoError (List Name) :=
  match t.resolve true r with
  | .error e => .error e
  | .ok (.present loc .directory) => .ok (t.children loc)
  | .ok (.present _ _) => .error .notADirectory
  | .ok (.absent _ _) => .error .notFound

/-- The content of a file. -/
def readFile (t : FileTree) (r : Route) : Except IoError String :=
  match t.resolve true r with
  | .error e => .error e
  | .ok (.present _ (.file content)) => .ok content
  | .ok (.present _ _) => .error .isADirectory
  | .ok (.absent _ _) => .error .notFound

/-- Replaces the content of a file, or makes the file inside an existing directory. -/
def writeFile (t : FileTree) (r : Route) (content : String) : Except IoError FileTree :=
  match t.resolve true r with
  | .error e => .error e
  | .ok (.present loc (.file _)) => .ok (t.put loc (.file content))
  | .ok (.present _ _) => .error .isADirectory
  | .ok (.absent loc directoryOnly) =>
    if directoryOnly then .error .isADirectory else .ok (t.put loc (.file content))

/-- Makes a symbolic link where nothing is. -/
def createLink (t : FileTree) (r : Route) (target : Path) : Except IoError FileTree :=
  match t.resolve false r with
  | .error e => .error e
  | .ok (.present _ _) => .error .alreadyExists
  | .ok (.absent loc directoryOnly) =>
    if pathLimit < target.bytes.length then .error .invalidFilename
    else if directoryOnly || target.route.isEmpty then .error .notFound
    else .ok (t.put loc (.link target))

/-- Removes a file or a link. -/
def removeFile (t : FileTree) (r : Route) : Except IoError FileTree :=
  match t.resolve false r with
  | .error e => .error e
  | .ok (.present _ .directory) => .error .isADirectory
  | .ok (.present loc _) => .ok (t.prune loc)
  | .ok (.absent _ _) => .error .notFound

/-- Removes everything below a location. -/
def emptyDir (t : FileTree) (loc : Location) : FileTree :=
  (t.prune loc).put loc .directory

/-- Where the last step of a route is taken from. -/
def resolveParent (t : FileTree) (r : Route) : Except IoError Location :=
  if r.beforeLast.isEmpty then
    if t.get? t.workdir = some .directory then .ok t.workdir else .error .notFound
  else
    match t.resolve true r.beforeLast with
    | .error e => .error e
    | .ok (.present loc .directory) => .ok loc
    | .ok (.present _ _) => .error .notADirectory
    | .ok (.absent _ _) => .error .notFound

/-- Removes an empty directory, by the name that the last step of a route gives it. -/
def removeDir (t : FileTree) (r : Route) : Except IoError FileTree :=
  match t.resolveParent r, r.steps.getLast? with
  | .error e, _ => .error e
  | .ok _, none | .ok _, some .here => .error .invalidInput
  | .ok _, some .up => .error .directoryNotEmpty
  | .ok parent, some (.down name) =>
    let loc := parent ++ [name]
    match t.get? loc with
    | none => .error .notFound
    | some .directory =>
      if t.children loc = [] then .ok (t.prune loc) else .error .directoryNotEmpty
    | some _ => .error .notADirectory

/-- Removes what stands at the end of a route, with everything below it; a link is removed
and not followed.  The answer says whether anything was there.  A directory is emptied
first, and then removed unless it cannot be found by its route any more. -/
def removeTree (t : FileTree) (r : Route) : Except IoError Bool × FileTree :=
  match t.resolve false r with
  | .error .notFound => (.ok false, t)
  | .error e => (.error e, t)
  | .ok (.absent _ _) => (.ok false, t)
  | .ok (.present loc .directory) =>
    let emptied := t.emptyDir loc
    match emptied.removeDir r with
    | .ok removed => (.ok true, removed)
    | .error .notFound => (.ok true, emptied)
    | .error e => (.error e, emptied)
  | .ok (.present loc _) => (.ok true, t.prune loc)

/-- Moves a file or a link; a file or link at the new place is replaced. -/
def moveFile (t : FileTree) (source target : Route) : Except IoError FileTree :=
  match t.resolve false source, t.resolve false target with
  | .error e, _ => .error e
  | .ok (.absent _ _), _ => .error .notFound
  | .ok (.present _ .directory), _ => .error .isADirectory
  | .ok (.present _ _), .error e => .error e
  | .ok (.present _ _), .ok (.present _ .directory) => .error .isADirectory
  | .ok (.present loc entry), .ok (.present new _) => .ok ((t.prune loc).put new entry)
  | .ok (.present loc entry), .ok (.absent new directoryOnly) =>
    if directoryOnly then .error .notADirectory else .ok ((t.prune loc).put new entry)

end FileTree

end PeerOverlay
