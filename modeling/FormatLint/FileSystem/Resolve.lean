import FormatLint.FileSystem.Basic
import FormatLint.Error

/-!
From paths to places. Names are looked up one after the other, links are replaced by their
targets, `.` stays and `..` goes up. Whatever stands before another part of the path has to be a
directory.
-/

namespace FormatLint

/-- Where a path leads. -/
inductive Target where
  | found (place : Place) (node : Node)
  /-- To a name that the directory at `dir` does not have. -/
  | absent (dir : Place) (name : Bytes)

/-- The links that one path may lead through. -/
def linkLimit : Nat := 40

/-- The bytes that a name may have. -/
def nameLimit : Nat := 255

/-- The bytes that a path may have. -/
def pathLimit : Nat := 4095

namespace FileSystem

/-- Follows the parts of a path from `here`, through at most `hops` links. A link as the very last
    part is followed only if `final` says so. -/
def follow (fs : FileSystem) (final : Bool) (hops : Nat) (here : Place) (parts : List Bytes) :
    Except SystemFault Target :=
  match parts with
  | [] =>
    match fs.get? here with
    | some node => .ok (.found here node)
    | none => .error .notFound
  | part :: rest =>
    match fs.get? here with
    | some (.dir entries) =>
      if part = [] ∨ part = [Path.dot] then follow fs final hops here rest
      else if part = [Path.dot, Path.dot] then follow fs final hops here.dropLast rest
      else if nameLimit < part.length then .error .nameTooLong
      else
        match entries.lookup part with
        | none => if rest.all (·.isEmpty) then .ok (.absent here part) else .error .notFound
        | some (.link target) =>
          if rest.isEmpty && !final then .ok (.found (here ++ [part]) (.link target))
          else
            match hops with
            | 0 => .error .linkLoop
            | hops + 1 =>
              if target.isEmpty then .error .notFound
              else
                follow fs final hops (if target.isAbsolute then [] else here)
                  (Path.split target.bytes ++ rest)
        | some _ => follow fs final hops (here ++ [part]) rest
    | some _ => .error .notDirectory
    | none => .error .notFound
termination_by (hops, parts.length)

/-- Where a path leads from the working directory. -/
def resolve (fs : FileSystem) (final : Bool) (p : Path) : Except SystemFault Target :=
  if p.bytes.contains 0 then .error .nulInPath
  else if p.isEmpty then .error .notFound
  else if pathLimit < p.bytes.length then .error .nameTooLong
  else follow fs final linkLimit [] (Path.split (fs.cwd.join p).bytes)

/-- The node that a path leads to. -/
def stat (fs : FileSystem) (p : Path) : Except SystemFault (Place × Node) := do
  match ← fs.resolve true p with
  | .found place node => return (place, node)
  | .absent .. => throw .notFound

def «exists» (fs : FileSystem) (p : Path) : Bool := (fs.stat p).isOk

def isFile (fs : FileSystem) (p : Path) : Bool :=
  match fs.stat p with
  | .ok (_, node) => node.isFile
  | .error _ => false

def isDirectory (fs : FileSystem) (p : Path) : Bool :=
  match fs.stat p with
  | .ok (_, node) => node.isDir
  | .error _ => false

def readBytes (fs : FileSystem) (p : Path) : Except SystemFault ByteArray := do
  match (← fs.stat p).2 with
  | .file data => return data.content
  | _ => throw .isDirectory

def readText (fs : FileSystem) (p : Path) : Except SystemFault String := do
  match Utf8.read? (← fs.readBytes p) with
  | some text => return text
  | none => throw .notUtf8

end FileSystem

end FormatLint
