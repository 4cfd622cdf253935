import BearLex.Command.Failure
import BearLex.Command.Path

/-! A folder with files and folders in it, and what is found on opening a path from there. What lies
outside the folder is not seen: every folder above it seems empty. -/

namespace BearLex

/-- The files and folders below a folder, by their parts. -/
structure FileTree where
  files : List (List Text × Bytes)
  folders : List (List Text)
  deriving DecidableEq

namespace FileTree

def partLimit : Nat := 255

def pathLimit : Nat := 4095

/-- Where a path has led so far. -/
inductive Place
  | folder (parts : List Text)
  | outside
  | file (content : Bytes)
  deriving DecidableEq

/-- There is a folder at `parts`: the folder of the tree, a folder in it, or one that holds a file
or folder. -/
def hasFolder (t : FileTree) (parts : List Text) : Bool :=
  parts.isEmpty || t.folders.any (parts.isPrefixOf ·)
    || t.files.any fun file => parts.isPrefixOf file.1 && decide (parts.length < file.1.length)

def enter (t : FileTree) (place : Place) (part : Text) : Except SystemFault Place :=
  match place with
  | .file _ => .error .notFolder
  | .outside =>
    if part = ['.', '.'] then .ok .outside
    else if partLimit < Text.byteCount part then .error .nameTooLong
    else .error .missing
  | .folder parts =>
    if part = ['.', '.'] then .ok (if parts.isEmpty then .outside else .folder parts.dropLast)
    else if partLimit < Text.byteCount part then .error .nameTooLong
    else
      match t.files.lookup (parts ++ [part]) with
      | some content => .ok (.file content)
      | none =>
        if t.hasFolder (parts ++ [part]) then .ok (.folder (parts ++ [part])) else .error .missing

def read (t : FileTree) (p : Path) : Except SystemFault Bytes :=
  if pathLimit < Text.byteCount p.render then .error .nameTooLong
  else
    let start := if p.slashes = 0 then Place.folder [] else Place.outside
    match p.parts.foldlM t.enter start with
    | .ok (.file content) => .ok content
    | .ok _ => .error .isFolder
    | .error fault => .error fault

end FileTree

end BearLex
