import SparkCache.Digest
import SparkCache.Json.Equality
import SparkCache.Lib.Checks

/-!
# Page layouts

Groups of layers with their page geometry, and the digest of a layout. The
checks of the constructors are fields, so an invalid layout cannot be built.
-/
namespace SparkCache.Pages

/-- What the page codec raises: `HybridCodecError` and its subclass, and what escapes from the
standard library. -/
inductive CodecError where
  | codec (message : String)
  /-- `hybrid page snapshot is truncated at {layer}` -/
  | truncatedAt (layer : Str)
  /-- `layer {layer} carries {found} bytes, expected {expected}` -/
  | layerLength (layer : Str) (found expected : ℕ)
  /-- `PageDeltaPayloadChecksumError` -/
  | payloadChecksum
  /-- The `ValueError` of an integer that is too long for its decimal form. -/
  | digits
  /-- The `struct.error` of a header length that takes more than four bytes. -/
  | headerLength
  /-- The `TypeError` of `tuple` on a value that cannot be iterated. -/
  | notIterable
  /-- The `ValueError` of an assignment to a slice of another length. -/
  | sliceLength
  /-- The `ValueError` of a strict `zip` of sequences of different lengths. -/
  | zipLength
  /-- `IndexError` -/
  | index
  deriving DecidableEq, Repr

@[simp] theorem bind_eq_ok {ε α β : Type} {x : Except ε α} {f : α → Except ε β} {b : β} :
    (x >>= f) = .ok b ↔ ∃ a, x = .ok a ∧ f a = .ok b := by
  cases x with
  | error e => simp [bind, Except.bind]
  | ok a => simp [bind, Except.bind]

/-- `data[start:stop]` -/
def slice (data : Bytes) (start stop : ℕ) : Bytes := (data.drop start).take (stop - start)

theorem slice_length {data : Bytes} {start stop : ℕ} (h : stop ≤ data.length) :
    (slice data start stop).length = stop - start := by
  rw [slice, List.length_take, List.length_drop]
  omega

theorem slice_prefix {data : Bytes} {start m n : ℕ} (h : n ≤ m) :
    slice data start (start + n) = (slice data start (start + m)).take n := by
  rw [slice, slice, List.take_take, Nat.add_sub_cancel_left, Nat.add_sub_cancel_left,
    Nat.min_eq_left h]

theorem slice_slice {data : Bytes} {start stop a b : ℕ} (h : start + b ≤ stop) :
    slice (slice data start stop) a b = slice data (start + a) (start + b) := by
  rw [slice, slice, slice, List.drop_take, List.drop_drop, List.take_take]
  congr 1
  omega

structure PageLayer where
  name : Str
  dtype : Str
  pageShape : List ℕ
  bytesPerPage : ℕ
  complete : name ≠ "" ∧ dtype ≠ "" ∧ pageShape ≠ []
  positive : 0 < bytesPerPage ∧ ∀ size ∈ pageShape, 0 < size

inductive ReusePolicy where
  | full
  | sliding
  | recurrentAlign
  deriving DecidableEq, Repr

def ReusePolicy.text : ReusePolicy → Str
  | full => "full"
  | sliding => "sliding"
  | recurrentAlign => "recurrent_align"

structure PageGroup where
  blockSize : ℕ
  layers : List PageLayer
  reusePolicy : ReusePolicy
  reuseWindowTokens : Option ℕ
  complete : 0 < blockSize ∧ layers ≠ []
  window : if reusePolicy = .sliding then reuseWindowTokens.any (1 < ·) = true
    else reuseWindowTokens = none
  sorted : (layers.map PageLayer.name).Pairwise (· < ·)

structure PageLayout where
  groups : List PageGroup
  nonempty : groups ≠ []
  disjoint : (groups.flatMap fun group => group.layers.map PageLayer.name).Nodup

def PageLayer.json (layer : PageLayer) : Json :=
  .object
    [("name", .str layer.name), ("dtype", .str layer.dtype),
      ("page_shape", .arr (Json.nats layer.pageShape)),
      ("bytes_per_page", .int layer.bytesPerPage)]

def PageGroup.json (group : PageGroup) : Json :=
  .object
    [("block_size", .int group.blockSize), ("layers", .arr (group.layers.map PageLayer.json)),
      ("reuse_policy", .str group.reusePolicy.text),
      ("reuse_window_tokens", match group.reuseWindowTokens with
        | none => .null
        | some tokens => .int tokens)]

namespace PageLayout

/-- `asdict(self)` -/
def json (layout : PageLayout) : Json :=
  .object [("groups", .arr (layout.groups.map PageGroup.json))]

def digest (layout : PageLayout) : Except CodecError Digest :=
  match canonicalJson? layout.json with
  | none => .error .digits
  | some encoded => .ok (sha256 encoded)

/-- The layers with the indices of their groups, in layout order. -/
def layers (layout : PageLayout) : List (ℕ × PageLayer) :=
  layout.groups.zipIdx.flatMap fun g => g.1.layers.map fun layer => (g.2, layer)

theorem layers_names (layout : PageLayout) :
    layout.layers.map (fun p => p.2.name) =
      layout.groups.flatMap fun group => group.layers.map PageLayer.name := by
  unfold layers
  rw [List.map_flatMap]
  conv_rhs => rw [← List.zipIdx_map_fst 0 layout.groups, List.flatMap_map]
  simp [List.map_map, Function.comp_def]

theorem layers_nodup (layout : PageLayout) :
    (layout.layers.map fun p => p.2.name).Nodup := by
  rw [layers_names]
  exact layout.disjoint

theorem layers_ne_nil (layout : PageLayout) : layout.layers ≠ [] := by
  obtain ⟨group, rest, hgroups⟩ := List.exists_cons_of_ne_nil layout.nonempty
  obtain ⟨layer, more, hlayers⟩ := List.exists_cons_of_ne_nil group.complete.2
  unfold layers
  rw [hgroups, List.zipIdx_cons, List.flatMap_cons, hlayers]
  simp

/-- A layer's group exists. -/
theorem layers_index_lt (layout : PageLayout) {p : ℕ × PageLayer} (h : p ∈ layout.layers) :
    p.1 < layout.groups.length := by
  unfold layers at h
  obtain ⟨g, hg, hp⟩ := List.mem_flatMap.mp h
  obtain ⟨layer, -, rfl⟩ := List.mem_map.mp hp
  have hget := List.mem_zipIdx_iff_getElem?.mp hg
  exact (List.getElem?_eq_some_iff.mp hget).1

end PageLayout
end SparkCache.Pages
