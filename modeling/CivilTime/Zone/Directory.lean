import CivilTime.Tzif.Description
import CivilTime.Zone.Catalogue

/-!
# Directories of zone files

A directory holds files at paths, which are sequences of names. An identifier is a path written with
slashes. Those listed are the files that start as TZif files do, except below the top-level
directories that repeat the others. Files are decoded as TZif files unless a decoder is given.
-/
namespace CivilTime.Zone

structure DirectoryFile where
  /-- The names of the directories above the file, from the top, and its own. -/
  path : List String
  bytes : List UInt8

structure Directory where
  files : List DirectoryFile
  /-- There is one file at a path. -/
  distinct : files.Pairwise fun file other => file.path ≠ other.path := by simp

namespace Directory

/-- The top-level directories whose files are not listed. -/
def skipped : List String := ["posix", "right"]

/-- The names in a path written with slashes, as they stand. -/
def segments (path : String) : List String :=
  (path.toList.splitOn '/').map String.ofList

/-- Whether a name leads nowhere: it is empty or a single dot. -/
def staysPut (name : String) : Bool := name == "" || name == "."

/-- The names in a path written with slashes, except those that lead nowhere. -/
def names (path : String) : List String := (segments path).filter fun name => !staysPut name

def empty : Directory where
  files := []

/-- Puts a file at its path, in place of the one that is there. -/
def add (directory : Directory) (file : DirectoryFile) : Directory where
  files := file :: directory.files.filter (·.path ≠ file.path)
  distinct := by
    refine List.pairwise_cons.2 ⟨fun other present => ?_, directory.distinct.filter _⟩
    have differs := (List.mem_filter.1 present).2
    exact fun same => of_decide_eq_true differs same.symm

/-- A directory with files at paths written with slashes. The last of several at a path counts. -/
def ofFiles (files : List (String × List UInt8)) : Directory :=
  files.foldl (fun directory (path, bytes) => directory.add ⟨names path, bytes⟩) empty

/-- The identifier of a file: its path with slashes, as which backslashes count too. -/
def DirectoryFile.id (file : DirectoryFile) : String :=
  ("/".intercalate file.path).map fun c => if c = '\x5c' then '/' else c

def DirectoryFile.isListed (file : DirectoryFile) : Bool :=
  Tzif.magic.isPrefixOf file.bytes
    && !(1 < file.path.length && file.path.head?.any skipped.contains)

/-- The identifiers in order of their bytes. -/
def identifiers (directory : Directory) : List String :=
  ((directory.files.filter DirectoryFile.isListed).map DirectoryFile.id).mergeSort

/-- The path that an identifier names. Names that lead nowhere are passed over inside; in front or
at the end they name no file, and neither does a path that goes up. -/
def pathOf? (id : String) : Option (List String) :=
  let given := segments id
  if given.head?.any staysPut || given.getLast?.any staysPut || given.contains ".." then
    none
  else
    some (names id)

def find? (directory : Directory) (id : String) : Option DirectoryFile := do
  let path ← pathOf? id
  directory.files.find? (·.path = path)

def get (directory : Directory) (id : String)
    (decode : List UInt8 → Option Tzif.File := Tzif.File.ofBytes?) :
    Except SourceError Tzif.File :=
  match directory.find? id with
  | none => .error .notFound
  | some file =>
    match decode file.bytes with
    | some file => .ok file
    | none => .error (.malformed "Unable to read TZif file.")

def describe (directory : Directory) (id : String)
    (decode : List UInt8 → Option Tzif.File := Tzif.File.ofBytes?) :
    Except SourceError Description := do
  (← directory.get id decode).describe

/-- The source of zone data that a directory is, if there is one. -/
def source : Option Directory → Source
  | some directory => ⟨.ok directory.identifiers, fun id => directory.describe id⟩
  | none =>
    ⟨.error (.malformed "Unable to read zoneinfo directory."), fun _ => .error .notFound⟩

end Directory
end CivilTime.Zone
