import CivilTime.Proofs.Text.Order
import CivilTime.Zone.Directory

/-!
# Trees of zone files

The zone files of a tree are listed directory by directory, each one as the names on the way to it
with slashes between them. Taken apart at its slashes an identifier gives these names back, and the
file is found again. Only a backslash in a name is lost, for it is listed as a slash.

Whatever an identifier is, the path that it names does not leave the root of the tree.
-/
namespace CivilTime

namespace Text

variable {α : Type} {separator a : α}

theorem mem_intercalate_of_mem {piece : List α} {pieces : List (List α)} (present : piece ∈ pieces)
    (member : a ∈ piece) : a ∈ [separator].intercalate pieces := by
  induction pieces with
  | nil => cases present
  | cons first rest ih =>
    cases rest with
    | nil =>
      rw [List.mem_singleton] at present
      simpa [← present] using member
    | cons second rest =>
      rw [List.intercalate_cons_cons]
      rcases List.mem_cons.mp present with rfl | present
      · simp [member]
      · simp [ih present]

theorem mem_of_mem_intercalate {pieces : List (List α)}
    (member : a ∈ [separator].intercalate pieces) :
    a = separator ∨ ∃ piece ∈ pieces, a ∈ piece := by
  induction pieces with
  | nil => simp at member
  | cons first rest ih =>
    cases rest with
    | nil => exact .inr ⟨first, by simp, by simpa using member⟩
    | cons second rest =>
      rw [List.intercalate_cons_cons, List.append_assoc, List.mem_append, List.mem_append,
        List.mem_singleton] at member
      rcases member with here | same | behind
      · exact .inr ⟨first, by simp, here⟩
      · exact .inl same
      · refine (ih behind).imp_right ?_
        rintro ⟨piece, present, inside⟩
        exact ⟨piece, by simp [present], inside⟩

end Text

namespace Zone.Directory

/-! ### Trees -/

/-- The entries of a directory one after another: files, and directories with entries of their
own. -/
inductive Entries where
  | none
  | file (name : String) (bytes : List UInt8) (rest : Entries)
  | directory (name : String) (inside rest : Entries)

/-- What a file or a directory can be called. -/
structure IsName (name : String) : Prop where
  notEmpty : name ≠ ""
  notHere : name ≠ "."
  notUp : name ≠ ".."
  noSlash : '/' ∉ name.toList

namespace Entries

def names : Entries → List String
  | none => []
  | file name _ rest => name :: rest.names
  | directory name _ rest => name :: rest.names

/-- The names of every directory are names, and different. -/
def WellFormed : Entries → Prop
  | none => True
  | file name _ rest => IsName name ∧ name ∉ rest.names ∧ rest.WellFormed
  | directory name inside rest =>
    IsName name ∧ name ∉ rest.names ∧ inside.WellFormed ∧ rest.WellFormed

/-- All files, below the directories `above`. -/
def files (above : List String) : Entries → List DirectoryFile
  | none => []
  | file name bytes rest => ⟨above ++ [name], bytes⟩ :: rest.files above
  | directory name inside rest => inside.files (above ++ [name]) ++ rest.files above

/-- Goes through the entries below the directories `above` for zone files, into directories other
than those that repeat the others. -/
def listing (above : List String) : Entries → List String
  | none => []
  | file name bytes rest =>
    if Tzif.magic.isPrefixOf bytes then
      DirectoryFile.id ⟨above ++ [name], bytes⟩ :: rest.listing above
    else
      rest.listing above
  | directory name inside rest =>
    if "/".intercalate (above ++ [name]) ∈ Directory.skipped then
      rest.listing above
    else
      inside.listing (above ++ [name]) ++ rest.listing above

variable {entries : Entries} {above : List String} {file : DirectoryFile}

/-- The path of a file goes on with the name of an entry. -/
theorem path_of_mem_files (member : file ∈ entries.files above) :
    ∃ name ∈ entries.names, ∃ below, file.path = above ++ name :: below := by
  induction entries generalizing above with
  | none => cases member
  | file name bytes rest ih =>
    rcases List.mem_cons.mp member with rfl | member
    · exact ⟨name, by simp [names], [], rfl⟩
    · obtain ⟨other, present, path⟩ := ih member
      exact ⟨other, by simp [names, present], path⟩
  | directory name inside rest inner ih =>
    rcases List.mem_append.mp member with member | member
    · obtain ⟨other, -, below, path⟩ := inner member
      exact ⟨name, by simp [names], other :: below, by simp [path]⟩
    · obtain ⟨other, present, path⟩ := ih member
      exact ⟨other, by simp [names, present], path⟩

theorem isName_of_mem_files (wellFormed : entries.WellFormed) (valid : ∀ name ∈ above, IsName name)
    (member : file ∈ entries.files above) : ∀ name ∈ file.path, IsName name := by
  induction entries generalizing above with
  | none => cases member
  | file name bytes rest ih =>
    obtain ⟨isName, -, others⟩ := wellFormed
    rcases List.mem_cons.mp member with rfl | member
    · exact List.forall_mem_append.mpr ⟨valid, by simpa using isName⟩
    · exact ih others valid member
  | directory name inside rest inner ih =>
    obtain ⟨isName, -, within, others⟩ := wellFormed
    rcases List.mem_append.mp member with member | member
    · exact inner within (List.forall_mem_append.mpr ⟨valid, by simpa using isName⟩) member
    · exact ih others valid member

/-- The paths of different entries part at the name of the entry. -/
theorem ne_path_of_mem_files {name : String} (absent : name ∉ entries.names) (below : List String)
    (member : file ∈ entries.files above) : above ++ name :: below ≠ file.path := by
  intro same
  obtain ⟨other, present, after, path⟩ := path_of_mem_files member
  rw [path] at same
  cases List.append_cancel_left same
  exact absent present

theorem pairwise_files (wellFormed : entries.WellFormed) (above : List String) :
    (entries.files above).Pairwise fun file other => file.path ≠ other.path := by
  induction entries generalizing above with
  | none => exact List.Pairwise.nil
  | file name bytes rest ih =>
    obtain ⟨-, absent, others⟩ := wellFormed
    exact List.pairwise_cons.mpr
      ⟨fun other member => ne_path_of_mem_files absent [] member, ih others above⟩
  | directory name inside rest inner ih =>
    obtain ⟨-, absent, within, others⟩ := wellFormed
    refine List.pairwise_append.mpr ⟨inner within _, ih others above, ?_⟩
    intro file member other elsewhere
    obtain ⟨next, -, below, path⟩ := path_of_mem_files member
    rw [path, List.append_assoc]
    exact ne_path_of_mem_files absent (next :: below) elsewhere

end Entries

/-! ### Identifiers as paths -/

variable {path : List String}

theorem segments_intercalate (nonempty : path ≠ []) (apart : ∀ name ∈ path, '/' ∉ name.toList) :
    segments ("/".intercalate path) = path := by
  have split : (['/'].intercalate (path.map String.toList)).splitOn '/' = path.map String.toList :=
    List.splitOn_intercalate '/' (by simpa using apart) (by simpa using nonempty)
  rw [segments, String.toList_intercalate]
  change ((['/'].intercalate _).splitOn '/').map _ = _
  rw [split, List.map_map]
  exact List.map_id'' (fun _ => String.ofList_toList) path

theorem IsName.not_staysPut {name : String} (isName : IsName name) : staysPut name = false := by
  simp [staysPut, isName.notEmpty, isName.notHere]

/-- A path of names is what its names with slashes between them are read as. -/
theorem pathOf?_intercalate (nonempty : path ≠ []) (valid : ∀ name ∈ path, IsName name) :
    pathOf? ("/".intercalate path) = some path := by
  have goesOn : ∀ name ∈ path, staysPut name = false := fun name member =>
    (valid name member).not_staysPut
  have first : path.head?.any staysPut = false :=
    (Option.any_eq_false _ _).mpr fun name head => goesOn name (List.mem_of_mem_head? head)
  have last : path.getLast?.any staysPut = false :=
    (Option.any_eq_false _ _).mpr fun name final => goesOn name (List.mem_of_mem_getLast? final)
  have noUp : path.contains ".." = false := by
    simpa using fun member => (valid ".." member).notUp rfl
  have whole : path.filter (fun name => !staysPut name) = path :=
    List.filter_eq_self.mpr fun name member => by simp [goesOn name member]
  rw [pathOf?, names, segments_intercalate nonempty fun name member => (valid name member).noSlash]
  simp only [first, last, noUp, whole]
  rfl

theorem intercalate_mem_skipped_iff {above : List String} {name : String}
    (valid : ∀ other ∈ above ++ [name], IsName other) :
    "/".intercalate (above ++ [name]) ∈ skipped ↔ above = [] ∧ name ∈ skipped := by
  constructor
  · intro member
    have single := segments_intercalate (by simp) fun other present => (valid other present).noSlash
    have each : ∀ top ∈ skipped, segments top = [top] := by decide +kernel
    rw [each _ member] at single
    -- A name that is left out has no slashes, so it is not joined of several.
    obtain rfl : above = [] := by simpa using congrArg List.length single
    exact ⟨rfl, by simpa using member⟩
  · rintro ⟨rfl, member⟩
    rwa [List.nil_append, String.intercalate_singleton]

/-! ### Listings -/

/-- A file at this path is not below a directory that repeats the others. -/
def IsShown (path : List String) : Prop := ∀ top ∈ path.head?, path.tail ≠ [] → top ∉ skipped

/-- A file that starts as a zone file does and is shown. -/
def IsZone (file : DirectoryFile) : Prop := Tzif.magic <+: file.bytes ∧ IsShown file.path

theorem isListed_iff {file : DirectoryFile} : DirectoryFile.isListed file ↔ IsZone file := by
  rw [DirectoryFile.isListed, Bool.and_eq_true, List.isPrefixOf_iff_prefix]
  refine and_congr_right fun _ => ?_
  rcases file.path with _ | ⟨top, _ | ⟨next, below⟩⟩ <;> simp [IsShown]

theorem filter_files_of_skipped {name : String} (hidden : name ∈ skipped) (inside : Entries) :
    (inside.files [name]).filter DirectoryFile.isListed = [] := by
  apply List.filter_eq_nil_iff.mpr
  intro file member isListed
  obtain ⟨next, -, below, path⟩ := Entries.path_of_mem_files member
  have isShown := (isListed_iff.mp isListed).2
  rw [path] at isShown
  exact isShown name rfl (by simp) hidden

/-- Going through the entries finds the files that are listed. -/
theorem Entries.listing_eq {entries : Entries} {above : List String}
    (wellFormed : entries.WellFormed) (valid : ∀ name ∈ above, IsName name)
    (shown : ∀ top ∈ above.head?, top ∉ skipped) :
    entries.listing above
      = ((entries.files above).filter DirectoryFile.isListed).map DirectoryFile.id := by
  induction entries generalizing above with
  | none => rfl
  | file name bytes rest ih =>
    obtain ⟨-, -, others⟩ := wellFormed
    have isShown : IsShown (above ++ [name]) := by
      intro top head below
      cases above with
      | nil => exact absurd rfl below
      | cons first above => exact shown top head
    have isListed : DirectoryFile.isListed ⟨above ++ [name], bytes⟩
        = Tzif.magic.isPrefixOf bytes := by
      rw [Bool.eq_iff_iff, isListed_iff, IsZone, and_iff_left isShown, List.isPrefixOf_iff_prefix]
    rw [listing, files, List.filter_cons, isListed, ih others valid shown]
    split <;> rfl
  | directory name inside rest inner ih =>
    obtain ⟨isName, -, within, others⟩ := wellFormed
    have valid' : ∀ other ∈ above ++ [name], IsName other :=
      List.forall_mem_append.mpr ⟨valid, by simpa using isName⟩
    rw [listing, files, List.filter_append, List.map_append, ih others valid shown]
    split
    · next leftOut =>
      obtain ⟨rfl, hidden⟩ := (intercalate_mem_skipped_iff valid').mp leftOut
      rw [List.nil_append, filter_files_of_skipped hidden]
      rfl
    · next entered =>
      rw [inner within valid']
      intro top head
      cases above with
      | nil =>
        cases head
        exact fun hidden => entered ((intercalate_mem_skipped_iff valid').mpr ⟨rfl, hidden⟩)
      | cons first above => exact shown top head

/-! ### Reading back -/

/-- What the bytes of a file are decoded as. -/
def parse (decode : List UInt8 → Option Tzif.File) (file : DirectoryFile) :
    Except SourceError Tzif.File :=
  match decode file.bytes with
  | some file => .ok file
  | none => .error (.malformed "Unable to read TZif file.")

/-- No name on the way to a file has a backslash. -/
def IsPlain (file : DirectoryFile) : Prop := ∀ name ∈ file.path, '\x5c' ∉ name.toList

section Reading

variable {directory : Directory} {file : DirectoryFile} {id : String}
  {decode : List UInt8 → Option Tzif.File}

theorem backslash_not_mem_id (file : DirectoryFile) : '\x5c' ∉ (DirectoryFile.id file).toList := by
  rw [DirectoryFile.id, String.toList_map, List.mem_map]
  rintro ⟨c, -, same⟩
  split at same
  · cases same
  · next other => exact other same

theorem id_of_isPlain (plain : IsPlain file) :
    DirectoryFile.id file = "/".intercalate file.path := by
  have noBackslash : ∀ c ∈ ("/".intercalate file.path).toList, c ≠ '\x5c' := by
    rintro c member rfl
    rw [String.toList_intercalate] at member
    rcases Text.mem_of_mem_intercalate member with same | ⟨piece, present, inside⟩
    · cases same
    · obtain ⟨name, among, rfl⟩ := List.mem_map.mp present
      exact plain name among inside
  rw [DirectoryFile.id, ← String.toList_inj, String.toList_map]
  refine (List.map_congr_left fun c member => ?_).trans (List.map_id _)
  exact if_neg (noBackslash c member)

/-- The names in an identifier have no characters but its own. -/
theorem mem_of_mem_segments {name : String} {c : Char} (present : name ∈ segments id)
    (member : c ∈ name.toList) : c ∈ id.toList := by
  obtain ⟨piece, among, rfl⟩ := List.mem_map.mp present
  rw [String.toList_ofList] at member
  have joined : ['/'].intercalate (id.toList.splitOn '/') = id.toList :=
    List.intercalate_splitOn '/'
  rw [← joined]
  exact Text.mem_intercalate_of_mem among member

theorem pathOf?_eq_some (found : pathOf? id = some path) :
    path = names id ∧ (segments id).head?.any staysPut = false ∧ ".." ∉ segments id := by
  unfold pathOf? at found
  simp only at found
  split at found
  · cases found
  · next inside =>
    simp only [Bool.or_eq_true, not_or, Bool.not_eq_true] at inside
    cases found
    exact ⟨rfl, inside.1.1, by simpa using inside.2⟩

/-- There is one file at a path. -/
theorem eq_of_path_eq {other : DirectoryFile} (member : file ∈ directory.files)
    (present : other ∈ directory.files) (same : file.path = other.path) : file = other := by
  have distinct : (directory.files.map (·.path)).Nodup := List.pairwise_map.mpr directory.distinct
  exact List.inj_on_of_nodup_map distinct member present same

theorem find?_eq_some_iff :
    directory.find? id = some file ↔ pathOf? id = some file.path ∧ file ∈ directory.files := by
  rw [find?, Option.bind_eq_bind, Option.bind_eq_some_iff]
  constructor
  · rintro ⟨path, named, found⟩
    obtain rfl : file.path = path := by simpa using List.find?_some found
    exact ⟨named, List.mem_of_find?_eq_some found⟩
  · rintro ⟨named, member⟩
    refine ⟨file.path, named, ?_⟩
    cases found : directory.files.find? (·.path = file.path) with
    | none => simpa using List.find?_eq_none.mp found file member
    | some other =>
      have same : other.path = file.path := by simpa using List.find?_some found
      rw [eq_of_path_eq (List.mem_of_find?_eq_some found) member same]

theorem get_eq (directory : Directory) (id : String) (decode : List UInt8 → Option Tzif.File) :
    directory.get id decode = (directory.find? id).elim (.error .notFound) (parse decode) := by
  rw [get]
  cases directory.find? id <;> rfl

theorem mem_identifiers_iff :
    id ∈ directory.identifiers ↔
      ∃ file ∈ directory.files, IsZone file ∧ DirectoryFile.id file = id := by
  rw [identifiers, List.mem_mergeSort, List.mem_map]
  simp only [List.mem_filter, isListed_iff, and_assoc]

/-- An identifier for each zone file and a zone file for each identifier, which it is read from. -/
structure ReadsBack (directory : Directory) (decode : List UInt8 → Option Tzif.File) : Prop where
  ascending : (directory.identifiers.map Text.bytes).Pairwise (· < ·)
  once : ∀ file ∈ directory.files, IsZone file →
    ∃! id, id ∈ directory.identifiers ∧ directory.find? id = some file
  reads : ∀ id ∈ directory.identifiers, ∃ file ∈ directory.files, IsZone file ∧
    directory.find? id = some file ∧ directory.get id decode = parse decode file

section Plain

variable (valid : ∀ file ∈ directory.files, file.path ≠ [] ∧ ∀ name ∈ file.path, IsName name)
  (plain : ∀ file ∈ directory.files, IsZone file → IsPlain file)

include valid plain

theorem find?_id_of_isPlain (member : file ∈ directory.files) (isZone : IsZone file) :
    directory.find? (DirectoryFile.id file) = some file := by
  obtain ⟨nonempty, isName⟩ := valid file member
  rw [find?_eq_some_iff, id_of_isPlain (plain file member isZone)]
  exact ⟨pathOf?_intercalate nonempty isName, member⟩

theorem nodup_identifiers : directory.identifiers.Nodup := by
  rw [identifiers, (List.mergeSort_perm _ _).nodup_iff]
  refine List.pairwise_map.mpr ((directory.distinct.filter _).imp_of_mem ?_)
  intro file other member present apart same
  obtain ⟨member, isListed⟩ := List.mem_filter.mp member
  obtain ⟨present, isListed'⟩ := List.mem_filter.mp present
  have found := find?_id_of_isPlain valid plain member (isListed_iff.mp isListed)
  rw [same, find?_id_of_isPlain valid plain present (isListed_iff.mp isListed')] at found
  cases found
  exact apart rfl

theorem readsBack_of_isPlain (decode : List UInt8 → Option Tzif.File) :
    directory.ReadsBack decode where
  ascending := by
    -- Sorted, and nothing twice.
    have ordered : directory.identifiers.Pairwise (· ≤ ·) := List.pairwise_mergeSort' (· ≤ ·) _
    rw [List.pairwise_map]
    refine ordered.imp₂ ?_ (nodup_identifiers valid plain)
    intro left right le ne
    rw [Text.bytes_lt_bytes_iff, ← String.lt_iff]
    exact lt_of_le_of_ne le ne
  once file member isZone := by
    refine ⟨DirectoryFile.id file, ⟨mem_identifiers_iff.mpr ⟨file, member, isZone, rfl⟩,
      find?_id_of_isPlain valid plain member isZone⟩, ?_⟩
    rintro id ⟨listed, found⟩
    obtain ⟨other, present, isZone', rfl⟩ := mem_identifiers_iff.mp listed
    rw [find?_id_of_isPlain valid plain present isZone'] at found
    cases found
    rfl
  reads id listed := by
    obtain ⟨file, member, isZone, rfl⟩ := mem_identifiers_iff.mp listed
    have found := find?_id_of_isPlain valid plain member isZone
    exact ⟨file, member, isZone, found, by rw [get_eq, found, Option.elim_some]⟩

end Plain

/-- What no identifier of the listing has, no name that is read from one has. -/
theorem ReadsBack.isPlain (readsBack : directory.ReadsBack decode)
    (member : file ∈ directory.files) (isZone : IsZone file) : IsPlain file := by
  obtain ⟨id, ⟨listed, found⟩, -⟩ := readsBack.once file member isZone
  obtain ⟨other, -, -, rfl⟩ := mem_identifiers_iff.mp listed
  obtain ⟨path, -, -⟩ := pathOf?_eq_some (find?_eq_some_iff.mp found).1
  intro name among backslash
  rw [path] at among
  exact backslash_not_mem_id other (mem_of_mem_segments (List.mem_filter.mp among).1 backslash)

end Reading

/-! ### Places -/

/-- Where a name leads from a place: nowhere, up or down. -/
def placeBehind (place : List String) (name : String) : List String :=
  if staysPut name then place else if name = ".." then place.dropLast else place ++ [name]

/-- The place that a path written with slashes leads to from a root. With a slash in front it starts
at the top instead. -/
def placeOf (root : List String) (path : String) : List String :=
  (segments path).foldl placeBehind (if path.toList.head? = some '/' then [] else root)

theorem foldl_placeBehind {steps : List String} (noUp : ".." ∉ steps) (place : List String) :
    steps.foldl placeBehind place = place ++ steps.filter fun name => !staysPut name := by
  induction steps generalizing place with
  | nil => simp
  | cons name steps ih =>
    obtain ⟨down, noUp⟩ := not_or.mp (mt List.mem_cons.mpr noUp)
    rw [List.foldl_cons, ih noUp, placeBehind, if_neg (Ne.symm down), List.filter_cons]
    cases staysPut name <;> simp

theorem placeOf_of_pathOf? {id : String} (found : pathOf? id = some path) (root : List String) :
    placeOf root id = root ++ path := by
  obtain ⟨rfl, start, noUp⟩ := pathOf?_eq_some found
  have relative : id.toList.head? ≠ some '/' := by
    intro absolute
    -- The first name would be empty, and such a path names no file.
    obtain ⟨rest, split⟩ := List.head?_eq_some_iff.mp absolute
    rw [segments, split, List.splitOn_cons_eq_if_modifyHead, if_pos (beq_self_eq_true '/')] at start
    cases start
  rw [placeOf, if_neg relative, foldl_placeBehind noUp]
  rfl

/-- Whatever is read, it is a file below the root. -/
theorem get_reads_inside (directory : Directory) (decode : List UInt8 → Option Tzif.File)
    (id : String) :
    directory.get id decode = .error .notFound ∨ ∃ file ∈ directory.files,
      directory.get id decode = parse decode file ∧
        ∀ root, placeOf root id = root ++ file.path := by
  rw [get_eq]
  cases found : directory.find? id with
  | none => exact .inl rfl
  | some file =>
    obtain ⟨named, member⟩ := find?_eq_some_iff.mp found
    exact .inr ⟨file, member, rfl, placeOf_of_pathOf? named⟩

/-! ### Directories of trees -/

/-- What is below a root: a finite tree in which the names in every directory are different. -/
structure FileTree where
  entries : Entries
  wellFormed : entries.WellFormed

namespace FileTree

def directory (tree : FileTree) : Directory where
  files := tree.entries.files []
  distinct := Entries.pairwise_files tree.wellFormed []

theorem valid (tree : FileTree) :
    ∀ file ∈ tree.directory.files, file.path ≠ [] ∧ ∀ name ∈ file.path, IsName name := by
  intro file member
  refine ⟨?_, Entries.isName_of_mem_files tree.wellFormed (by simp) member⟩
  obtain ⟨name, -, below, path⟩ := Entries.path_of_mem_files member
  simp [path]

theorem identifiers_eq (tree : FileTree) :
    tree.directory.identifiers = (tree.entries.listing []).mergeSort := by
  rw [identifiers, Entries.listing_eq tree.wellFormed (by simp) (by simp)]
  rfl

/-- The listing of a tree, in order, is read back exactly if no name on the way to a zone file has a
backslash, whatever files are decoded as. No identifier at all, listed or not, is read from a place
outside. -/
theorem readsBack_iff (tree : FileTree) (decode : List UInt8 → Option Tzif.File) :
    tree.directory.identifiers = (tree.entries.listing []).mergeSort ∧
      (tree.directory.ReadsBack decode ↔
        ∀ file ∈ tree.directory.files, IsZone file → IsPlain file) ∧
      ∀ id, tree.directory.get id decode = .error .notFound ∨ ∃ file ∈ tree.directory.files,
        tree.directory.get id decode = parse decode file ∧
          ∀ root, placeOf root id = root ++ file.path := by
  refine ⟨tree.identifiers_eq, ⟨?_, fun plain => readsBack_of_isPlain tree.valid plain decode⟩,
    get_reads_inside _ decode⟩
  exact fun readsBack file member isZone => readsBack.isPlain member isZone

/-- A zone file, a repetition of it and a file that is no zone. -/
def nested : FileTree where
  entries :=
    .directory "Etc" (.file "UTC" Tzif.magic .none) (
      .directory "posix" (.directory "Etc" (.file "UTC" Tzif.magic .none) .none) (
        .file "zone.tab" [] .none))
  wellFormed := by
    have isName : ∀ name ∈ ["Etc", "UTC", "posix", "zone.tab"], IsName name := by
      intro name member
      constructor <;> revert name <;> decide
    simp only [List.forall_mem_cons] at isName
    simp [Entries.WellFormed, Entries.names, isName]

/-- Of the two files with the same name the one that is listed is read. -/
theorem readsBack_nested :
    nested.directory.identifiers = ["Etc/UTC"] ∧
      nested.directory.ReadsBack Tzif.File.ofBytes? := by
  have listed : nested.entries.listing [] = ["Etc/UTC"] := by decide +kernel
  have plain : ∀ file ∈ nested.directory.files, ∀ name ∈ file.path, '\x5c' ∉ name.toList := by
    decide +kernel
  obtain ⟨identifiers, readsBack, -⟩ := readsBack_iff nested Tzif.File.ofBytes?
  rw [listed, List.mergeSort_singleton] at identifiers
  exact ⟨identifiers, readsBack.mpr fun file member _ => plain file member⟩

/-- A tree of one zone file that has a backslash in its name. -/
def backslashed : FileTree where
  entries := .file "Etc\x5cUTC" Tzif.magic .none
  wellFormed := ⟨⟨by decide, by decide, by decide, by decide⟩, List.not_mem_nil, trivial⟩

/-- It is listed under an identifier that names no file. -/
theorem backslashed_not_found :
    backslashed.directory.identifiers = ["Etc/UTC"] ∧
      backslashed.directory.get "Etc/UTC" = .error .notFound := by
  have listed : backslashed.entries.listing [] = ["Etc/UTC"] := by decide +kernel
  refine ⟨?_, by decide +kernel⟩
  rw [identifiers_eq, listed, List.mergeSort_singleton]

end FileTree

end Zone.Directory
end CivilTime
