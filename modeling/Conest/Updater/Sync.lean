import Conest.Lib.Dart
import Conest.Lib.Stoppable

/-!
# The updater's copy of a tree

`sync_directories` makes the bundle's directory what the staged one is: it copies every entry, each
file under a temporary name first, and then removes what is not staged. A tree is of regular files
and directories; the program works on the entries of one directory and goes `inDirectory` for those
below. The staged tree does not change, and nothing but the program changes the other, so listings
are taken where they are needed. Permissions are not modelled, but setting them is a step that may
fail, as every system call is. `to_string_lossy` is that of the library.
-/

namespace Conest
namespace Updater

open Lib Lib.Program

/-- A file name. -/
abbrev Name := List UInt8

/-- A regular file or a directory. -/
inductive Node where
  | file (content : Bytes)
  | dir (entries : List (Name × Node))

/-- What a directory holds. -/
abbrev Entries := List (Name × Node)

namespace Node

def isFile : Node → Bool
  | file _ => true
  | dir _ => false

end Node

namespace Entries

def put (name : Name) (node : Node) (d : Entries) : Entries :=
  (name, node) :: d.filter fun entry => entry.1 != name

def remove (name : Name) (d : Entries) : Entries := d.filter fun entry => entry.1 != name

/-- The entries of a directory in it. -/
def subdirectory (name : Name) (d : Entries) : Option Entries :=
  match d.lookup name with
  | some (.dir entries) => some entries
  | _ => none

end Entries

/-- A program on the entries of a directory. -/
abbrev Prog (α : Type) := Program Entries α

/-! ### System calls

`is_dir`, `is_file` and `exists` say no where they fail. -/

def inDirectory {α : Type} (name : Name) (m : Prog α) : Prog α :=
  within (Entries.subdirectory name) (fun entries => Entries.put name (.dir entries)) m

def isDir (name : Name) : Prog Bool := test fun d => (Entries.subdirectory name d).isSome

def isFile (name : Name) : Prog Bool := test fun d => (d.lookup name).any Node.isFile

def pathExists (name : Name) : Prog Bool := test fun d => (d.lookup name).isSome

/-- A step on one entry: what is under the name, or nothing, becomes what `f` makes of it. -/
def change (name : Name) (f : Option Node → Option (Option Node)) : Prog Unit :=
  step fun d => (f (d.lookup name)).map fun entry =>
    match entry with
    | some node => Entries.put name node d
    | none => Entries.remove name d

def removeFile (name : Name) : Prog Unit :=
  change name fun
    | some (.file _) => some none
    | _ => none

/-- `rmdir`: the directory is empty. -/
def removeEmpty (name : Name) : Prog Unit :=
  change name fun
    | some (.dir []) => some none
    | _ => none

/-- `create_dir_all`, in a directory that is there. -/
def createDirAll (name : Name) : Prog Unit :=
  change name fun
    | none => some (some (.dir []))
    | some (.dir entries) => some (some (.dir entries))
    | some (.file _) => none

/-- An empty file in the place of what there was of it. -/
def truncate (name : Name) : Prog Unit :=
  change name fun
    | some (.dir _) => none
    | _ => some (some (.file []))

def append (name : Name) (byte : UInt8) : Prog Unit :=
  change name fun
    | some (.file content) => some (some (.file (content ++ [byte])))
    | _ => none

/-- `fs::copy`. A file can be left with any part of the content. -/
def copy (content : Bytes) (name : Name) : Prog Unit := do
  truncate name
  content.forM (append name)

def rename (source destination : Name) : Prog Unit :=
  step fun d =>
    match d.lookup source, d.lookup destination with
    | some (.file _), some (.dir _) => none
    | some node, _ => some (Entries.put destination node (Entries.remove source d))
    | none, _ => none

mutual

/-- What `remove_dir_all` does to one entry of a directory, and to all that is below it. -/
def removeTree (name : Name) : Node → Prog Unit
  | .file _ => removeFile name
  | .dir entries => do
    attempt
    inDirectory name (removeTrees entries)
    removeEmpty name

def removeTrees : List (Name × Node) → Prog Unit
  | [] => pure ()
  | (name, node) :: rest => do
    removeTree name node
    removeTrees rest

end

def removeDirAll (name : Name) : Prog Unit := do
  match ← look fun d => d.lookup name with
  | some (.dir entries) => removeTree name (.dir entries)
  | _ => fail

/-! ### The program -/

def removePath (name : Name) : Prog Unit := do
  if ← isDir name then removeDirAll name else removeFile name

variable (toStringLossy : Name → Name)

/-- `.{name}.updating` -/
def tempName (name : Name) : Name :=
  [46] ++ toStringLossy name ++ [46, 117, 112, 100, 97, 116, 105, 110, 103]

def copyFile (content : Bytes) (name : Name) : Prog Unit := do
  -- `create_dir_all` of the parent, which is there
  attempt
  if ← isDir name then removeDirAll name
  let temp := tempName toStringLossy name
  if ← pathExists temp then removePath temp
  copy content temp
  -- `preserve_permissions`
  attempt
  if ← pathExists name then removePath name
  rename temp name

mutual

/-- One entry of `copy_entries`. -/
def copyEntry (name : Name) : Node → Prog Unit
  | .file content => do
    attempt
    copyFile toStringLossy content name
  | .dir entries => do
    attempt
    if ← isFile name then removeFile name
    createDirAll name
    -- `copy_entries` there, which lists the source first
    inDirectory name do
      attempt
      copyAll entries

def copyAll : List (Name × Node) → Prog Unit
  | [] => pure ()
  | (name, node) :: rest => do
    copyEntry name node
    copyAll rest

end

def copyEntries (source : List (Name × Node)) : Prog Unit := do
  attempt
  copyAll toStringLossy source

/-- A directory's entries by name. -/
def byName (entries : List (Name × Node)) : List (Name × Node) :=
  entries.insertionSort fun a b => a.1 ≤ b.1

mutual

/-- `remove_stale_entries` -/
def removeStaleEntries : Node → Prog Unit
  | .file _ => fail
  | .dir source => do
    attempt
    attempt
    (← look fun d => (byName d).map Prod.fst).forM (removeStale source)

/-- One name of the destination's: is it among those of the source? -/
def removeStale : List (Name × Node) → Name → Prog Unit
  | [], name => removePath name
  | (sourceName, sourceNode) :: rest, name =>
    if sourceName = name then do
      -- the types of both
      attempt
      let directory ← look fun d => (Entries.subdirectory name d).isSome
      attempt
      if sourceNode.isFile = false ∧ directory then
        inDirectory name (removeStaleEntries sourceNode)
    else removeStale rest name

end

mutual

/-- The tree with its listings sorted. -/
def sorted : Node → Node
  | .file content => .file content
  | .dir entries => .dir (byName (sortedEntries entries))

def sortedEntries : List (Name × Node) → List (Name × Node)
  | [] => []
  | (name, node) :: rest => (name, sorted node) :: sortedEntries rest

end

def syncDirectories (source : Entries) : Prog Unit := do
  copyEntries toStringLossy (byName (sortedEntries source))
  removeStaleEntries (.dir source)

end Updater
end Conest
