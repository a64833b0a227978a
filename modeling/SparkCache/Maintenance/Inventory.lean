import Mathlib.Data.List.Sort
import SparkCache.Digest
import SparkCache.Lib.Dictionary
import SparkCache.Lib.References

/-!
# The inventory of a maintenance pass

The files of a store by path, with their metadata, and what a pass lists of
them: roots with the objects that they refer to, files that are no roots,
descriptor segments and chunks. What a root refers to is the outcome of an
authentication that the pass only carries along.
-/
namespace SparkCache.Maintenance

inductive RootKind where
  | manifest
  | prefixAlias
  deriving DecidableEq, Repr

/-- The files below `manifests`, `prefix-aliases`, `prefix-index` and `chunks`. -/
inductive Path where
  | root (kind : RootKind) (directory name : Str)
  | segment (directory name : Str)
  | chunk (name : Str)
  deriving DecidableEq, Repr

namespace Path

def name : Path → Str
  | root _ _ name | segment _ name | chunk name => name

/-- `path.parent.name` -/
def parentName : Path → Str
  | root _ directory _ | segment directory _ => directory
  | chunk _ => "chunks"

/-- `os.fspath(path)` below the root of the store -/
def text : Path → Str
  | root .manifest directory name =>
      ⟨(Str.ofString "manifests/").codes ++ directory.codes ++ [47] ++ name.codes⟩
  | root .prefixAlias directory name =>
      ⟨(Str.ofString "prefix-aliases/").codes ++ directory.codes ++ [47] ++ name.codes⟩
  | segment directory name =>
      ⟨(Str.ofString "prefix-index/").codes ++ directory.codes ++ [47] ++ name.codes⟩
  | chunk name => ⟨(Str.ofString "chunks/").codes ++ name.codes⟩

/-- The length of `path.suffix`: what starts at the last dot, unless the dot is the first or the last
character of the name. -/
def suffixLength (path : Path) : ℕ :=
  match path.name.codes.reverse.idxOf? 46 with
  | some trailing => if 0 < trailing ∧ trailing + 1 < path.name.codes.length then trailing + 1 else 0
  | none => 0

def suffix (path : Path) : Str :=
  ⟨path.name.codes.drop (path.name.codes.length - path.suffixLength)⟩

def stem (path : Path) : Str :=
  ⟨path.name.codes.take (path.name.codes.length - path.suffixLength)⟩

/-- The name matches `*.json`. -/
def isJson (path : Path) : Bool := (Str.ofString ".json").codes.isSuffixOf path.name.codes

end Path

structure StoredFile where
  content : Bytes
  blocks : ℕ
  mtimeNs : ℤ

abbrev Files := Dictionary Path StoredFile

/-- `_allocated_bytes` -/
def allocatedBytes (file : StoredFile) : ℕ :=
  if file.blocks = 0 then file.content.length else file.blocks * 512

/-- The allocated bytes of all files. -/
def totalBytes (files : Files) : ℕ := files.total allocatedBytes

/-- The files of a kind, sorted by path. -/
def listing (files : Files) (keep : Path → Bool) : List (Path × StoredFile) :=
  ((files.entries.map fun e => (e.1, e.2)).filter fun e => keep e.1).insertionSort
    fun a b => a.1.text ≤ b.1.text

/-! ## Roots -/

structure EntryKey where
  storageKey : Str
  contextDigest : Str
  rootKind : RootKind
  deriving DecidableEq, Repr

/-- What an authenticated root refers to: chunks with their declared sizes, and descriptor segments
of its namespace. -/
structure Graph where
  chunks : List (Str × ℕ)
  segments : List Str

/-- The outcome of reading a root, in the files that are there. -/
abbrev Reader := Files → Path → Option Graph

/-- `_CapacityEntry` -/
structure CapacityEntry where
  key : EntryKey
  path : Path
  manifestBytes : ℕ
  mtimeNs : ℤ
  chunks : List (Str × ℕ)
  valid : Bool
  segments : List Str
  deriving DecidableEq

/-- `_capacity_entry` and `_capacity_alias_entry` -/
def capacityEntry (read : Reader) (files : Files) (kind : RootKind) (path : Path)
    (file : StoredFile) : CapacityEntry :=
  let key : EntryKey := ⟨path.parentName, path.stem, kind⟩
  match read files path with
  | some graph =>
      ⟨key, path, allocatedBytes file, file.mtimeNs, graph.chunks, true, graph.segments⟩
  | none => ⟨key, path, allocatedBytes file, file.mtimeNs, [], false, []⟩

/-- The paths of a kind of roots. -/
def isRoot (kind : RootKind) : Path → Bool
  | .root kind' directory name => decide (kind' = kind) && (Path.root kind' directory name).isJson
  | _ => false

/-- Other files in the directories of a kind of roots. -/
def isDebris (kind : RootKind) : Path → Bool
  | .root kind' directory name => decide (kind' = kind) && !(Path.root kind' directory name).isJson
  | _ => false

def capacityEntries (read : Reader) (files : Files) : List CapacityEntry :=
  ((listing files (isRoot .manifest)).map fun e => capacityEntry read files .manifest e.1 e.2) ++
    (listing files (isRoot .prefixAlias)).map fun e => capacityEntry read files .prefixAlias e.1 e.2

namespace CapacityEntry

/-- The digests of the chunks. -/
def chunkReferences (entry : CapacityEntry) : List Str := entry.chunks.map Prod.fst

instance : LawfulBEq (Str × Str) := inferInstance

/-- The segments with the namespace that they are in. -/
def segmentReferences (entry : CapacityEntry) : List (Str × Str) :=
  entry.segments.map fun digest => (entry.key.storageKey, digest)

end CapacityEntry

def rootDebris (files : Files) : List (Path × ℕ) :=
  (listing files (isDebris .manifest) ++ listing files (isDebris .prefixAlias)).map
    fun e => (e.1, allocatedBytes e.2)

/-! ## Objects -/

/-- The sizes of a kind of objects, and the files among them that a reference means. -/
structure Objects (ν : Type) [DecidableEq ν] where
  sizes : List (Path × ℕ)
  reference : Path → ν
  canonical : Dictionary ν Path

namespace Objects
variable {ν : Type} [DecidableEq ν]

/-- Objects are listed, and entered by reference where they have a canonical name. -/
def ofListing (listed : List (Path × StoredFile)) (reference : Path → ν) (isCanonical : Path → Bool) :
    Objects ν :=
  ⟨listed.map fun e => (e.1, allocatedBytes e.2), reference,
    listed.foldl (fun d e => if isCanonical e.1 then d.insert (reference e.1) e.1 else d) ∅⟩

/-- The size of the object that a reference means. -/
def size (objects : Objects ν) (reference : ν) : ℕ :=
  match objects.canonical.lookup reference with
  | some path => (objects.sizes.lookup path).getD 0
  | none => 0

/-- No reference means the file. -/
def orphan (objects : Objects ν) (counts : ν → ℤ) (path : Path) : Bool :=
  decide (objects.canonical.lookup (objects.reference path) ≠ some path ∨
    counts (objects.reference path) = 0)

/-- Some reference means the file. -/
def retained (objects : Objects ν) (counts : ν → ℤ) (path : Path) : Bool :=
  decide (objects.canonical.lookup (objects.reference path) = some path ∧
    0 < counts (objects.reference path))

def bytes (objects : Objects ν) : ℕ := (objects.sizes.map Prod.snd).sum

def orphanBytes (objects : Objects ν) (counts : ν → ℤ) : ℕ :=
  ((objects.sizes.filter fun e => objects.orphan counts e.1).map Prod.snd).sum

end Objects

def isSegment : Path → Bool
  | .segment _ _ => true
  | _ => false

def isChunk : Path → Bool
  | .chunk _ => true
  | _ => false

def segmentReference (path : Path) : Str × Str := (path.parentName, path.stem)

def isCanonicalSegment (path : Path) : Bool :=
  isSegment path && decide (path.suffix = ".spix") && path.stem.isHex 64 && path.parentName.isHex 64

def isCanonicalChunk (path : Path) : Bool :=
  isChunk path && decide (path.suffix = ".spcc") && path.stem.isHex 64

def segmentObjects (files : Files) : Objects (Str × Str) :=
  .ofListing (listing files isSegment) segmentReference isCanonicalSegment

def chunkObjects (files : Files) : Objects Str :=
  .ofListing (listing files isChunk) Path.stem isCanonicalChunk

/-- `chunk_logical_sizes.get(digest)` -/
def chunkLogicalSize (files : Files) (digest : Str) : Option ℕ :=
  ((chunkObjects files).canonical.lookup digest).bind fun path =>
    (files.lookup path).map fun file => file.content.length

end SparkCache.Maintenance
