/-!
# Graft.File

Names of files, with slashes between their components.
-/

namespace Graft
namespace File

/-- A name as it is seen from a directory. An absolute name stands for itself. -/
def join (directory name : String) : String :=
  match name.toList, directory.toList.reverse with
  | '/' :: _, _ => name
  | _, [] => name
  | _, '/' :: _ => directory ++ name
  | _, _ => directory ++ "/" ++ name

/-- A reversed name without the slashes and the single dots at its end. -/
def dropIdle : List Char → List Char
  | '/' :: r => dropIdle r
  | '.' :: '/' :: r => dropIdle r
  | cs => cs

/-- A name without the slashes and the single dots at its end. -/
def trimmed (name : String) : String := String.ofList (dropIdle name.toList.reverse).reverse

/-- The slash that an absolute name starts with. -/
def root (name : String) : String := if name.startsWith "/" then "/" else ""

/-- The directory of a file: its name without the last component. The root
directory and the empty name have none. -/
def directory? (name : String) : Option String :=
  match dropIdle name.toList.reverse with
  | [] => none
  | cs =>
    match dropIdle (cs.dropWhile (· ≠ '/')) with
    | [] => some (root name)
    | cs => some (String.ofList cs.reverse)

end File
end Graft
