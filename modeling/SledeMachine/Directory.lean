import SledeMachine.Utf8

/-!
A directory of files as a value: each name has its bytes. Paths are read against it component by
component. The directory holds no others, so a path leads to a file of it, to the directory
itself, or nowhere; of what lies outside only the root and the null device are known. Each way to
fail has the error that a file system gives for it.
-/

namespace SledeMachine

inductive FileError
  | notFound
  | notDirectory
  | isDirectory
  | nameTooLong
  /-- Any other failure, with its text. -/
  | other (text : Text)
  deriving DecidableEq, Repr

namespace FileError

def message : FileError → Text
  | .notFound => "No such file or directory (os error 2)".toList
  | .notDirectory => "Not a directory (os error 20)".toList
  | .isDirectory => "Is a directory (os error 21)".toList
  | .nameTooLong => "File name too long (os error 36)".toList
  | .other text => text

end FileError

structure Directory where
  files : List (Text × List UInt8)
  deriving DecidableEq, Repr

namespace Directory

def find? (d : Directory) (name : Text) : Option (List UInt8) := d.files.lookup name

def put (d : Directory) (name : Text) (bytes : List UInt8) : Directory :=
  ⟨(name, bytes) :: d.files.filter fun file => file.1 ≠ name⟩

/-- Where a path leads. -/
inductive Place
  | directory
  /-- The device that holds no bytes and keeps none. -/
  | null
  /-- A name in the directory, whether there is such a file or not; a slash after it asks for a
  directory of that name. -/
  | entry (name : Text) (slash : Bool)
  deriving DecidableEq, Repr

def walk (d : Directory) : List Text → Except FileError Place
  | [] => .ok .directory
  | component :: rest =>
      if component = [] ∨ component = ['.'] then walk d rest
      else if component = ['.', '.'] then
        if rest.all fun c => c = [] ∨ c = ['.'] ∨ c = ['.', '.'] then .ok .directory
        else .error .notFound
      else if 255 < component.utf8.length then .error .nameTooLong
      else if rest.all (· = []) then .ok (.entry component (rest ≠ []))
      else if (d.find? component).isSome then .error .notDirectory
      else .error .notFound

/-- The walk from the root. `below` says whether it has come to the directory of devices. -/
def walkRoot (below : Bool) : List Text → Except FileError Place
  | [] => .ok .directory
  | component :: rest =>
      if component = [] ∨ component = ['.'] then walkRoot below rest
      else if component = ['.', '.'] then walkRoot false rest
      else if 255 < component.utf8.length then .error .nameTooLong
      else if below = true ∧ component = "null".toList then
        if rest = [] then .ok .null else .error .notDirectory
      else if below = false ∧ component = "dev".toList then walkRoot true rest
      else .error .notFound

def resolve (d : Directory) (path : Text) : Except FileError Place :=
  match path with
  | [] => .error .notFound
  | '/' :: _ => walkRoot false (path.splitOn '/')
  | _ => d.walk (path.splitOn '/')

def read (d : Directory) (path : Text) : Except FileError (List UInt8) := do
  match ← d.resolve path with
  | .directory => throw .isDirectory
  | .null => return []
  | .entry name slash =>
      match d.find? name with
      | some bytes => if slash then throw .notDirectory else return bytes
      | none => throw .notFound

def write (d : Directory) (path : Text) (bytes : List UInt8) : Except FileError Directory := do
  match ← d.resolve path with
  | .directory => throw .isDirectory
  | .null => return d
  | .entry name slash =>
      if slash then
        if (d.find? name).isSome then throw .notDirectory else throw .isDirectory
      else return d.put name bytes

end Directory

namespace Path

/-- The part of a file name before its last point. A point at the front is no last point. -/
def stem (name : Text) : Text :=
  let extension := (name.reverse.takeWhile (· ≠ '.')).length
  let before := name.take (name.length - extension - 1)
  if extension = name.length ∨ before = [] then name else before

/-- The components of a path up to its file name, last first. What stands behind the name and leads
nowhere else does not count: slashes, and points between them. -/
def components (path : Text) : List Text :=
  (path.splitOn '/').reverse.dropWhile fun c => c = [] ∨ c = ['.']

/-- A path with the extension of its file name replaced, or added where it has none. A path that
leads to no file name, or up from where it is, stays as it is. -/
def withExtension (path extension : Text) : Text :=
  match components path with
  | [] => path
  | name :: lead =>
      if name = ['.', '.'] then path
      else ['/'].intercalate ((stem name ++ '.' :: extension) :: lead).reverse

end Path
end SledeMachine
