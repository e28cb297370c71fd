import Graft.Text.Cut

/-!
# Graft.File.Folder

A folder held in memory: files with their bytes, in directories that exist as far
as the names of the files go through them.

A name is followed component by component from the folder itself. A single dot
stays, two dots go up but not out of the folder, and nothing is below a file.
-/

namespace Graft

/-- Files by name. -/
structure Folder where
  /-- The names, relative to the folder, and the bytes. -/
  files : List (String × ByteArray)

namespace Folder

/-- The components of a name. -/
def components (name : String) : List String :=
  (Text.cut ['/'] name.toList).map String.ofList

/-- Where a name has led so far. -/
inductive Spot where
  /-- A directory; its components, innermost first. -/
  | directory (reversed : List String)
  /-- A file. -/
  | file (bytes : ByteArray)

/-- What is at some components, if anything. -/
def at? (f : Folder) (place : List String) : Option Spot :=
  match f.files.find? fun (name, _) => components name == place with
  | some (_, bytes) => some (.file bytes)
  | none =>
    if f.files.any fun (name, _) => place.isPrefixOf (components name) then
      some (.directory place.reverse)
    else none

/-- One component further. -/
def step? (f : Folder) (spot : Spot) (component : String) : Option Spot :=
  match spot with
  | .file _ => none
  | .directory reversed =>
    if component = "" ∨ component = "." then some (.directory reversed)
    else if component = ".." then
      match reversed with
      | [] => none
      | _ :: r => some (.directory r)
    else f.at? (reversed.reverse ++ [component])

/-- Where some components lead. -/
def walk? (f : Folder) (spot : Spot) : List String → Option Spot
  | [] => some spot
  | c :: r => (f.step? spot c).bind fun spot => walk? f spot r

/-- The text of a file; absent if there is no such file or it is not UTF-8. -/
def read? (f : Folder) (name : String) : Option String :=
  match components name with
  | "" :: _ => none
  | cs =>
    match f.walk? (.directory []) cs with
    | some (.file bytes) => String.fromUTF8? bytes
    | _ => none

end Folder
end Graft
