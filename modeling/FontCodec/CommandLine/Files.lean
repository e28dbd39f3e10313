import FontCodec.Bytes

/-!
# Files named on the command line

A path is compared and shown without its empty segments and without those that stay in place.
-/

namespace FontCodec.CommandLine

inductive Entry where
  | absent
  | folder
  | file (contents : Bytes)
  /-- Nothing, because the path is too long. -/
  | tooLong
  deriving DecidableEq, Repr

abbrev Files := String → Entry

def splitPath : List Char → List (List Char)
  | [] => [[]]
  | c :: rest =>
    match splitPath rest with
    | [] => [[c]]
    | s :: more => if c = '/' then [] :: s :: more else (c :: s) :: more

/-- The segments of a path that lead somewhere. -/
def segments (path : String) : List String :=
  ((splitPath path.toList).filter (fun s => s ≠ [] && s ≠ ['.'])).map String.ofList

/-- Slashes in front of an absolute path; exactly two of them are kept. -/
def rootOf (path : String) : String :=
  match path.toList with
  | '/' :: '/' :: '/' :: _ => "/"
  | '/' :: '/' :: _ => "//"
  | '/' :: _ => "/"
  | _ => ""

def normalized (path : String) : String :=
  let text := rootOf path ++ "/".intercalate (segments path)
  if text = "" then "." else text

def maxSegmentBytes : Nat := 255

def maxPathBytes : Nat := 4095

/-- Where a walk along a path stands: at some segments from the starting folder, or in a folder
outside it. -/
inductive Place where
  | inside (segments : List String)
  | outside
  deriving DecidableEq, Repr

def Place.parent : Place → Place
  | inside [] => outside
  | inside segments => inside segments.dropLast
  | outside => outside

/-- A folder with nothing but some files, as paths from that folder. -/
structure Folder where
  files : List (String × Bytes)

namespace Folder

def entryAt (folder : Folder) : Place → Entry
  | .outside => .folder
  | .inside segs =>
    match folder.files.find? (fun (name, _) => segments name = segs) with
    | some (_, contents) => .file contents
    | none =>
      if segs = [] || folder.files.any (fun (name, _) => segs.isPrefixOf (segments name)) then
        .folder
      else .absent

/-- What stands at the end of a walk. Nothing is known by name outside the folder. -/
def walk (folder : Folder) (place : Place) : List String → Entry
  | [] => folder.entryAt place
  | s :: rest =>
    match folder.entryAt place with
    | .folder =>
      if s = ".." then folder.walk place.parent rest
      else if maxSegmentBytes < s.utf8ByteSize then .tooLong
      else
        match place with
        | .inside segs => folder.walk (.inside (segs ++ [s])) rest
        | .outside => .absent
    | _ => .absent

/-- What stands under each path, seen from the folder. -/
def toFiles (folder : Folder) : Files := fun path =>
  if path.contains '\x00' then .absent
  else if maxPathBytes < path.utf8ByteSize then .tooLong
  else folder.walk (if rootOf path = "" then .inside [] else .outside) (segments path)

end Folder

end FontCodec.CommandLine
