import SparkCache.Lib.Files
import SparkCache.Store.Chunk

/-!
# Immutable publication

The files of a store and the two ways in which they are written: one file that
must not exist with other bytes, and a batch of objects that replaces a
damaged file under a content address. Whatever a publication does, and wherever
it stops, a file that was there stays, except that a chunk or a segment may be
replaced by bytes that hash to its name.
-/
namespace SparkCache.Store

open Files Files.FileM Pages

inductive Directory where
  | manifests (storageKey : Digest)
  | prefixAliases (storageKey : Digest)
  | prefixIndex (storageKey : Digest)
  | chunks
  deriving DecidableEq

inductive Path where
  | manifest (storageKey contextDigest : Digest)
  | prefixAlias (storageKey contextDigest : Digest)
  | prefixSegment (storageKey segmentDigest : Digest)
  | chunk (digest : Digest)
  deriving DecidableEq

namespace Path

def parent : Path → Directory
  | manifest key _ => .manifests key
  | prefixAlias key _ => .prefixAliases key
  | prefixSegment key _ => .prefixIndex key
  | chunk _ => .chunks

/-- The name without the suffix. -/
def stem : Path → Digest
  | manifest _ name | prefixAlias _ name | prefixSegment _ name | chunk name => name

/-- Roots are named by their context, other files by their content. -/
def isRoot : Path → Bool
  | manifest _ _ | prefixAlias _ _ => true
  | prefixSegment _ _ | chunk _ => false

end Path

abbrev Disk := Tree Path Bytes

abbrev StoreM := FileM Path Bytes StoreError

/-- `path.read_bytes()` -/
def readBytes (files : Disk) (path : Path) : Except StoreError Bytes :=
  expect (files.lookup path) .absent

/-- `_durable_payload_matches` -/
def durablePayloadMatches (path : Path) (payload : Bytes) : StoreM Bool :=
  view fun files => decide (files.lookup path = some payload)

/-- Link complete bytes to a path; a file that is there must hold them. -/
def linkImmutable (path : Path) (payload : Bytes) : StoreM Unit := do
  barrier .os
  let linked ← link .os path payload
  skipIf linked do
    FileM.require (← durablePayloadMatches path payload)
      (.conflict "different immutable object already committed")

/-- `_publish_immutable` -/
def publishImmutable (path : Path) (payload : Bytes) : StoreM Unit := do
  barrier .os
  let held ← durablePayloadMatches path payload
  skipIf held (linkImmutable path payload)
  barrier .os

/-- The objects to write: one for each path whose file does not hold its payload. -/
def selectStaged (files : Disk) (seen : List (Path × Bytes)) :
    List (Path × Bytes) → Except StoreError (List (Path × Bytes))
  | [] => .ok []
  | (path, payload) :: rest =>
      match seen.lookup path with
      | some previous =>
          if previous = payload then selectStaged files seen rest
          else .error (.conflict "different immutable payloads in one batch")
      | none =>
          (selectStaged files ((path, payload) :: seen) rest).map fun staged =>
            if files.lookup path = some payload then staged else (path, payload) :: staged

/-- Link one staged object, or replace a damaged file under its content address. -/
def linkStaged (path : Path) (payload : Bytes) : StoreM Unit := do
  let linked ← link .os path payload
  skipIf linked do
    let held ← durablePayloadMatches path payload
    skipIf held do
      FileM.require (path.stem = sha256 payload)
        (.conflict "different immutable object already committed")
      replace .os path payload

def linkAllStaged : List (Path × Bytes) → StoreM Unit
  | [] => pure ()
  | (path, payload) :: rest => do
      linkStaged path payload
      linkAllStaged rest

/-- `_publish_immutable_batch` of at least one object. -/
def publishObjects (objects : List (Path × Bytes)) : StoreM Unit := do
  FileM.require (∀ o ∈ objects, ∀ o' ∈ objects, o.1.parent = o'.1.parent)
    (.value "immutable macro-batch must share one directory")
  barrier .os
  let selected ← view fun files => selectStaged files [] objects
  let staged ← lift selected
  barrier .os
  linkAllStaged staged
  barrier .os

/-- `_publish_immutable_batch` -/
def publishImmutableBatch (objects : List (Path × Bytes)) : StoreM Unit :=
  if objects = [] then pure () else publishObjects objects

/-! ## One file -/

/-- Two stores that differ at most in one file. -/
def SameExcept (path : Path) (before after : Disk) : Prop :=
  ∀ p ≠ path, after.lookup p = before.lookup p

theorem sameExcept_insert (path : Path) (payload : Bytes) (files : Disk) :
    SameExcept path files (files.insert path payload) :=
  fun _ hp => AList.lookup_insert_ne hp

theorem publishImmutable_eq_ok {path : Path} {payload : Bytes} {u : Unit} {w w' : World Path Bytes}
    (h : publishImmutable path payload w = (.ok u, w')) :
    w'.files.lookup path = some payload ∧ SameExcept path w.files w'.files ∧
      (w.files.lookup path = none ∨ w.files.lookup path = some payload) := by
  unfold publishImmutable linkImmutable durablePayloadMatches at h
  simp only [FileM.bind_eq_ok, view_apply, skipIf_eq_ok, FileM.require_eq_ok] at h
  obtain ⟨_, w₁, hfirst, held, w₂, hview, _, w₃, hbody, hlast⟩ := h
  cases hview
  rw [barrier_eq_ok hlast, ← barrier_eq_ok hfirst]
  rcases hbody with ⟨hheld, rfl⟩ | ⟨hheld, _, w₄, hstage, linked, w₅, hlink, hrest⟩
  · have hsome := of_decide_eq_true hheld
    exact ⟨hsome, fun _ _ => rfl, Or.inr hsome⟩
  · have heffect := link_eq_ok hlink
    rw [barrier_eq_ok hstage] at heffect
    rcases hrest with ⟨rfl, rfl⟩ | ⟨rfl, _, w₆, hview, hrequire⟩
    · rw [if_pos rfl] at heffect
      rw [heffect.2]
      exact ⟨AList.lookup_insert _, sameExcept_insert _ _ _, Or.inl heffect.1⟩
    · cases hview
      have hfiles : w₅.files = w₁.files := by
        rw [(heffect : _ ∧ w₅ = w₄).2]
        exact barrier_eq_ok hstage
      rw [hfiles] at hrequire
      exact absurd hrequire.1 (by simpa using hheld)

/-! ## Batches -/

/-- What the selection of a batch has found out about its objects. -/
structure Staging (files : Disk) (seen objects staged : List (Path × Bytes)) : Prop where
  agree : ∀ o ∈ objects, ∀ o' ∈ objects, o.1 = o'.1 → o.2 = o'.2
  repeated : ∀ o ∈ objects, ∀ payload, seen.lookup o.1 = some payload → o.2 = payload
  subset : ∀ o ∈ staged, o ∈ objects
  fresh : ∀ o ∈ staged, seen.lookup o.1 = none
  nodup : (staged.map Prod.fst).Nodup
  covered : ∀ o ∈ objects,
    o ∈ staged ∨ files.lookup o.1 = some o.2 ∨ seen.lookup o.1 = some o.2

theorem selectStaged_eq_ok {files : Disk} {objects : List (Path × Bytes)} :
    ∀ {seen staged : List (Path × Bytes)}, selectStaged files seen objects = .ok staged →
      Staging files seen objects staged := by
  induction objects with
  | nil =>
      intro seen staged h
      cases h
      exact ⟨by simp, by simp, by simp, by simp, by simp, by simp⟩
  | cons o rest ih =>
      intro seen staged h
      obtain ⟨path, payload⟩ := o
      rw [selectStaged] at h
      split at h
      · rename_i previous hprevious
        split at h
        · rename_i heq
          subst heq
          have hs := ih h
          refine ⟨?_, ?_, fun o ho => List.mem_cons_of_mem _ (hs.subset o ho), hs.fresh, hs.nodup, ?_⟩
          · intro o ho o' ho' hpath
            rcases List.mem_cons.mp ho with rfl | ho <;> rcases List.mem_cons.mp ho' with rfl | ho'
            · rfl
            · exact (hs.repeated o' ho' previous (by rwa [← hpath])).symm
            · exact hs.repeated o ho previous (by rwa [hpath])
            · exact hs.agree o ho o' ho' hpath
          · intro o ho
            rcases List.mem_cons.mp ho with rfl | ho
            · intro found hfound
              rw [hprevious] at hfound
              exact Option.some.inj hfound
            · exact hs.repeated o ho
          · intro o ho
            rcases List.mem_cons.mp ho with rfl | ho
            · exact Or.inr (Or.inr hprevious)
            · exact hs.covered o ho
        · cases h
      · rename_i hfresh
        obtain ⟨tail, htail, rfl⟩ : ∃ tail, selectStaged files ((path, payload) :: seen) rest =
            .ok tail ∧ (if files.lookup path = some payload then tail else (path, payload) :: tail) =
              staged := by
          cases hrest : selectStaged files ((path, payload) :: seen) rest with
          | error e => simp [hrest, Except.map] at h
          | ok tail => exact ⟨tail, rfl, by simpa [hrest, Except.map] using h⟩
        have hs := ih htail
        have hself : ∀ o ∈ rest, o.1 = path → o.2 = payload := by
          intro o ho hpath
          exact hs.repeated o ho payload (by simp [hpath])
        have hother : ∀ p, p ≠ path →
            ((path, payload) :: seen).lookup p = seen.lookup p := by
          intro p hp
          rw [List.lookup_cons, beq_eq_false_iff_ne.mpr hp]
        have hfreshTail : ∀ o ∈ tail, o.1 ≠ path ∧ seen.lookup o.1 = none := by
          intro o ho
          have hnone := hs.fresh o ho
          have hne : o.1 ≠ path := by
            rintro rfl
            simp at hnone
          exact ⟨hne, by rwa [hother _ hne] at hnone⟩
        refine ⟨?_, ?_, ?_, ?_, ?_, ?_⟩
        · intro o ho o' ho' hpath
          rcases List.mem_cons.mp ho with rfl | ho <;> rcases List.mem_cons.mp ho' with rfl | ho'
          · rfl
          · exact (hself o' ho' hpath.symm).symm
          · exact hself o ho hpath
          · exact hs.agree o ho o' ho' hpath
        · intro o ho found hfound
          rcases List.mem_cons.mp ho with rfl | ho
          · rw [hfresh] at hfound
            cases hfound
          · by_cases hpath : o.1 = path
            · rw [hpath, hfresh] at hfound
              cases hfound
            · exact hs.repeated o ho found (by rwa [hother _ hpath])
        · intro o ho
          split at ho
          · exact List.mem_cons_of_mem _ (hs.subset o ho)
          · rcases List.mem_cons.mp ho with rfl | ho
            · exact List.mem_cons_self
            · exact List.mem_cons_of_mem _ (hs.subset o ho)
        · intro o ho
          split at ho
          · exact (hfreshTail o ho).2
          · rcases List.mem_cons.mp ho with rfl | ho
            · exact hfresh
            · exact (hfreshTail o ho).2
        · split
          · exact hs.nodup
          · rw [List.map_cons, List.nodup_cons]
            refine ⟨?_, hs.nodup⟩
            intro hmem
            obtain ⟨o, ho, hpath⟩ := List.mem_map.mp hmem
            exact (hfreshTail o ho).1 hpath
        · intro o ho
          by_cases hheld : files.lookup path = some payload
          · rw [if_pos hheld]
            rcases List.mem_cons.mp ho with rfl | ho
            · exact Or.inr (Or.inl hheld)
            · by_cases hpath : o.1 = path
              · right
                left
                rw [hself o ho hpath, hpath]
                exact hheld
              · rcases hs.covered o ho with h | h | h
                · exact Or.inl h
                · exact Or.inr (Or.inl h)
                · exact Or.inr (Or.inr (by rwa [hother _ hpath] at h))
          · rw [if_neg hheld]
            rcases List.mem_cons.mp ho with rfl | ho
            · exact Or.inl List.mem_cons_self
            · by_cases hpath : o.1 = path
              · left
                have heq : o = (path, payload) := Prod.ext hpath (hself o ho hpath)
                rw [heq]
                exact List.mem_cons_self
              · rcases hs.covered o ho with h | h | h
                · exact Or.inl (List.mem_cons_of_mem _ h)
                · exact Or.inr (Or.inl h)
                · exact Or.inr (Or.inr (by rwa [hother _ hpath] at h))

theorem linkStaged_eq_ok {path : Path} {payload : Bytes} {u : Unit} {w w' : World Path Bytes}
    (h : linkStaged path payload w = (.ok u, w')) :
    w'.files.lookup path = some payload ∧ SameExcept path w.files w'.files := by
  unfold linkStaged durablePayloadMatches at h
  simp only [FileM.bind_eq_ok, view_apply, skipIf_eq_ok, FileM.require_eq_ok] at h
  obtain ⟨linked, w₁, hlink, hrest⟩ := h
  have heffect := link_eq_ok hlink
  rcases hrest with ⟨rfl, rfl⟩ | ⟨rfl, held, w₂, hview, hrest⟩
  · rw [if_pos rfl] at heffect
    rw [heffect.2]
    exact ⟨AList.lookup_insert _, sameExcept_insert _ _ _⟩
  · cases hview
    have hfiles : w₁ = w := (heffect : _ ∧ w₁ = w).2
    subst hfiles
    rcases hrest with ⟨hheld, rfl⟩ | ⟨-, _, w₃, ⟨-, rfl⟩, hreplace⟩
    · exact ⟨of_decide_eq_true hheld, fun _ _ => rfl⟩
    · rw [replace_eq_ok hreplace]
      exact ⟨AList.lookup_insert _, sameExcept_insert _ _ _⟩

theorem linkAllStaged_eq_ok {staged : List (Path × Bytes)} (hnodup : (staged.map Prod.fst).Nodup)
    {u : Unit} {w w' : World Path Bytes} (h : linkAllStaged staged w = (.ok u, w')) :
    (∀ o ∈ staged, w'.files.lookup o.1 = some o.2) ∧
      ∀ p, p ∉ staged.map Prod.fst → w'.files.lookup p = w.files.lookup p := by
  induction staged generalizing w with
  | nil =>
      cases h
      simp
  | cons o rest ih =>
      obtain ⟨path, payload⟩ := o
      rw [List.map_cons, List.nodup_cons] at hnodup
      rw [linkAllStaged, FileM.bind_eq_ok] at h
      obtain ⟨_, w₁, hfirst, hrest⟩ := h
      obtain ⟨hpayload, hsame⟩ := linkStaged_eq_ok hfirst
      obtain ⟨hall, hframe⟩ := ih hnodup.2 hrest
      constructor
      · intro o ho
        rcases List.mem_cons.mp ho with rfl | ho
        · rw [hframe path hnodup.1]
          exact hpayload
        · exact hall o ho
      · intro p hp
        rw [List.map_cons, List.mem_cons, not_or] at hp
        rw [hframe p hp.2, hsame p hp.1]

/-- After a batch every object is at its path, and no other file has changed. -/
theorem publishImmutableBatch_eq_ok {objects : List (Path × Bytes)} {u : Unit}
    {w w' : World Path Bytes} (h : publishImmutableBatch objects w = (.ok u, w')) :
    (∀ o ∈ objects, w'.files.lookup o.1 = some o.2) ∧
      ∀ p, p ∉ objects.map Prod.fst → w'.files.lookup p = w.files.lookup p := by
  unfold publishImmutableBatch at h
  split at h
  · rename_i hnil
    subst hnil
    cases h
    simp
  · unfold publishObjects at h
    simp only [FileM.bind_eq_ok, view_apply, FileM.require_eq_ok, lift_apply] at h
    obtain ⟨_, _, ⟨-, rfl⟩, _, w₁, hfirst, selected, w₂, hview, staged, w₃, hlift, _, w₄, hstage, _,
      w₅, hlink, hlast⟩ := h
    cases hview
    obtain ⟨hselect, rfl⟩ := Prod.mk.inj hlift
    have hs := selectStaged_eq_ok hselect
    obtain ⟨hall, hframe⟩ := linkAllStaged_eq_ok hs.nodup hlink
    rw [barrier_eq_ok hlast, ← barrier_eq_ok hfirst, ← barrier_eq_ok hstage]
    rw [← barrier_eq_ok hstage] at hs
    constructor
    · intro o ho
      rcases hs.covered o ho with h | h | h
      · exact hall o h
      · by_cases hmem : o.1 ∈ staged.map Prod.fst
        · obtain ⟨o', ho', hpath⟩ := List.mem_map.mp hmem
          rw [← hpath, hall o' ho', hs.agree o' (hs.subset o' ho') o ho hpath]
        · rw [hframe _ hmem]
          exact h
      · simp at h
    · intro p hp
      apply hframe
      intro hmem
      obtain ⟨o, ho, rfl⟩ := List.mem_map.mp hmem
      exact hp (List.mem_map_of_mem (hs.subset o ho))

/-! ## A file system that does not fail -/

theorem publishImmutable_sound {files : Disk} {path : Path} {payload : Bytes}
    (h : files.lookup path = none ∨ files.lookup path = some payload) :
    ∃ files', publishImmutable path payload ⟨files, none⟩ = (.ok (), ⟨files', none⟩) := by
  unfold publishImmutable linkImmutable durablePayloadMatches
  rcases h with h | h
  · refine ⟨files.insert path payload, ?_⟩
    simp [FileM.bind_apply, andThen, skipIf, h, link_sound]
  · refine ⟨files, ?_⟩
    simp [FileM.bind_apply, andThen, skipIf, h]

theorem selectStaged_of_agree {files : Disk} {objects : List (Path × Bytes)} :
    ∀ {seen : List (Path × Bytes)},
      (∀ o ∈ objects, ∀ payload, seen.lookup o.1 = some payload → o.2 = payload) →
      (∀ o ∈ objects, ∀ o' ∈ objects, o.1 = o'.1 → o.2 = o'.2) →
      ∃ staged, selectStaged files seen objects = .ok staged := by
  induction objects with
  | nil => exact fun _ _ => ⟨[], rfl⟩
  | cons o rest ih =>
      intro seen hseen hagree
      obtain ⟨path, payload⟩ := o
      have hrest : ∀ o ∈ rest, ∀ o' ∈ rest, o.1 = o'.1 → o.2 = o'.2 := fun o ho o' ho' =>
        hagree o (List.mem_cons_of_mem _ ho) o' (List.mem_cons_of_mem _ ho')
      rw [selectStaged]
      cases hprevious : seen.lookup path with
      | some previous =>
          have heq : previous = payload := (hseen _ List.mem_cons_self previous hprevious).symm
          subst heq
          simp only [if_true]
          exact ih (fun o ho => hseen o (List.mem_cons_of_mem _ ho)) hrest
      | none =>
          have hnext : ∀ o ∈ rest, ∀ found,
              ((path, payload) :: seen).lookup o.1 = some found → o.2 = found := by
            intro o ho found hfound
            by_cases hpath : o.1 = path
            · rw [List.lookup_cons, beq_iff_eq.mpr hpath] at hfound
              rw [← Option.some.inj hfound]
              exact hagree o (List.mem_cons_of_mem _ ho) _ List.mem_cons_self hpath
            · rw [List.lookup_cons, beq_eq_false_iff_ne.mpr hpath] at hfound
              exact hseen o (List.mem_cons_of_mem _ ho) found hfound
          obtain ⟨staged, hstaged⟩ := ih hnext hrest
          rw [hstaged]
          exact ⟨_, rfl⟩

theorem linkAllStaged_sound {staged : List (Path × Bytes)}
    (h : ∀ o ∈ staged, o.1.stem = sha256 o.2) (files : Disk) :
    ∃ files', linkAllStaged staged ⟨files, none⟩ = (.ok (), ⟨files', none⟩) := by
  induction staged generalizing files with
  | nil => exact ⟨files, rfl⟩
  | cons o rest ih =>
      obtain ⟨path, payload⟩ := o
      have hname : path.stem = sha256 payload := h _ List.mem_cons_self
      have hfirst : ∃ files', linkStaged path payload ⟨files, none⟩ = (.ok (), ⟨files', none⟩) := by
        unfold linkStaged durablePayloadMatches
        by_cases hsome : (files.lookup path).isSome = true
        · by_cases hheld : files.lookup path = some payload
          · exact ⟨files, by simp [FileM.bind_apply, andThen, skipIf, link_sound, hheld]⟩
          · exact ⟨files.insert path payload, by
              simp [FileM.bind_apply, andThen, skipIf, link_sound, hsome, hheld, FileM.require, hname]⟩
        · exact ⟨files.insert path payload, by
            simp [FileM.bind_apply, andThen, skipIf, link_sound, hsome]⟩
      obtain ⟨files', hfiles'⟩ := hfirst
      obtain ⟨files'', hfiles''⟩ := ih (fun o ho => h o (List.mem_cons_of_mem _ ho)) files'
      refine ⟨files'', ?_⟩
      rw [linkAllStaged, FileM.bind_apply, andThen, hfiles']
      exact hfiles''

/-- A batch of content-addressed objects in one directory is always published, if no two of them
have the same address. -/
theorem publishImmutableBatch_sound {objects : List (Path × Bytes)}
    (hparent : ∀ o ∈ objects, ∀ o' ∈ objects, o.1.parent = o'.1.parent)
    (hname : ∀ o ∈ objects, o.1.stem = sha256 o.2)
    (hagree : ∀ o ∈ objects, ∀ o' ∈ objects, o.1 = o'.1 → o.2 = o'.2) (files : Disk) :
    ∃ files', publishImmutableBatch objects ⟨files, none⟩ = (.ok (), ⟨files', none⟩) := by
  unfold publishImmutableBatch
  split
  · exact ⟨files, rfl⟩
  · obtain ⟨staged, hselect⟩ := @selectStaged_of_agree files objects [] (by simp) hagree
    have hs := selectStaged_eq_ok hselect
    obtain ⟨files', hlink⟩ := linkAllStaged_sound (fun o ho => hname o (hs.subset o ho)) files
    refine ⟨files', ?_⟩
    unfold publishObjects
    rw [bind_of_ok (FileM.require_of hparent _ _), bind_of_ok (barrier_sound _ _),
      bind_of_ok (view_apply _ _), hselect, bind_of_ok (lift_apply _ _),
      bind_of_ok (barrier_sound _ _), bind_of_ok hlink]
    rfl

/-- Payloads that are placed by their digests are published together, if the file system works. -/
theorem publishPlaced_sound {W : Set Bytes} (hinj : Set.InjOn sha256 W) (place : Bytes → Path)
    (hparent : ∀ e e', (place e).parent = (place e').parent) (hstem : ∀ e, (place e).stem = sha256 e)
    {objects : List (Path × Bytes)} (hobjects : ∀ o ∈ objects, ∃ e ∈ W, o = (place e, e)) (files : Disk) :
    ∃ files', publishImmutableBatch objects ⟨files, none⟩ = (.ok (), ⟨files', none⟩) := by
  apply publishImmutableBatch_sound
  · intro o ho o' ho'
    obtain ⟨e, -, rfl⟩ := hobjects o ho
    obtain ⟨e', -, rfl⟩ := hobjects o' ho'
    exact hparent e e'
  · intro o ho
    obtain ⟨e, -, rfl⟩ := hobjects o ho
    exact hstem e
  · intro o ho o' ho' hpath
    obtain ⟨e, he, rfl⟩ := hobjects o ho
    obtain ⟨e', he', rfl⟩ := hobjects o' ho'
    have hsame : (place e).stem = (place e').stem := congrArg Path.stem hpath
    rw [hstem, hstem] at hsame
    exact hinj he he' hsame

/-! ## Frames -/

section Moves
variable {R : Disk → Disk → Prop} (hrefl : ∀ f, R f f) (htrans : ∀ f g h, R f g → R g h → R f h)
include hrefl htrans

theorem publishImmutable_moves {path : Path} {payload : Bytes}
    (hlink : ∀ files : Disk, files.lookup path = none → R files (files.insert path payload)) :
    Moves R (publishImmutable path payload) := by
  refine Moves.bind htrans (Moves.barrier hrefl _) fun _ => ?_
  refine Moves.bind htrans (Moves.view hrefl _) fun _ => ?_
  refine Moves.bind htrans (Moves.skipIf hrefl _ ?_) fun _ => Moves.barrier hrefl _
  refine Moves.bind htrans (Moves.barrier hrefl _) fun _ => ?_
  refine Moves.bind htrans (Moves.link hrefl _ hlink) fun _ => Moves.skipIf hrefl _ ?_
  exact Moves.bind htrans (Moves.view hrefl _) fun _ => Moves.require hrefl _ _

theorem linkStaged_moves {path : Path} {payload : Bytes}
    (hlink : ∀ files : Disk, files.lookup path = none → R files (files.insert path payload))
    (hreplace : path.stem = sha256 payload → ∀ files : Disk, R files (files.insert path payload)) :
    Moves R (linkStaged path payload) := by
  refine Moves.bind htrans (Moves.link hrefl _ hlink) fun _ => Moves.skipIf hrefl _ ?_
  refine Moves.bind htrans (Moves.view hrefl _) fun _ => Moves.skipIf hrefl _ ?_
  by_cases hname : path.stem = sha256 payload
  · refine Moves.bind htrans (Moves.require hrefl _ _) fun _ => ?_
    exact Moves.change hrefl _ (hreplace hname)
  · intro w
    rw [FileM.bind_apply, FileM.andThen, FileM.require, if_neg hname]
    exact hrefl w.files

theorem linkAllStaged_moves {staged : List (Path × Bytes)}
    (hlink : ∀ o ∈ staged, ∀ files : Disk, files.lookup o.1 = none → R files (files.insert o.1 o.2))
    (hreplace : ∀ o ∈ staged, o.1.stem = sha256 o.2 → ∀ files : Disk, R files (files.insert o.1 o.2)) :
    Moves R (linkAllStaged staged) := by
  induction staged with
  | nil => exact Moves.pure hrefl ()
  | cons o rest ih =>
      refine Moves.bind htrans (linkStaged_moves hrefl htrans (hlink o List.mem_cons_self)
        (hreplace o List.mem_cons_self)) fun _ => ?_
      exact ih (fun o ho => hlink o (List.mem_cons_of_mem _ ho))
        fun o ho => hreplace o (List.mem_cons_of_mem _ ho)

/-- A batch only links objects where there is no file, or replaces a file under the content
address of the object. -/
theorem publishImmutableBatch_moves {objects : List (Path × Bytes)}
    (hlink : ∀ o ∈ objects, ∀ files : Disk, files.lookup o.1 = none → R files (files.insert o.1 o.2))
    (hreplace : ∀ o ∈ objects, o.1.stem = sha256 o.2 → ∀ files : Disk, R files (files.insert o.1 o.2)) :
    Moves R (publishImmutableBatch objects) := by
  unfold Store.publishImmutableBatch
  split
  · exact Moves.pure hrefl ()
  · refine Moves.bind htrans (Moves.require hrefl _ _) fun _ => ?_
    refine Moves.bind htrans (Moves.barrier hrefl _) fun _ => ?_
    apply Moves.view_bind
    intro w
    apply Moves.lift_bind hrefl
    intro staged hselect
    have hs := selectStaged_eq_ok hselect
    refine Moves.bind htrans (Moves.barrier hrefl _) fun _ => ?_
    refine Moves.bind htrans ?_ fun _ => Moves.barrier hrefl _
    exact linkAllStaged_moves hrefl htrans (fun o ho => hlink o (hs.subset o ho))
      fun o ho => hreplace o (hs.subset o ho)

end Moves

/-- A file that holds the bytes keeps them. -/
def Keeps (path : Path) (payload : Bytes) (before after : Disk) : Prop :=
  before.lookup path = some payload → after.lookup path = some payload

theorem Keeps.refl (path : Path) (payload : Bytes) (files : Disk) : Keeps path payload files files :=
  id

theorem Keeps.trans (path : Path) (payload : Bytes) (f g h : Disk) (hfg : Keeps path payload f g)
    (hgh : Keeps path payload g h) : Keeps path payload f h :=
  fun hf => hgh (hfg hf)

theorem keeps_insert_of_none {path p : Path} {payload b : Bytes} {files : Disk}
    (h : files.lookup p = none) : Keeps path payload files (files.insert p b) := by
  intro hf
  have hne : path ≠ p := by
    rintro rfl
    rw [hf] at h
    cases h
  rw [AList.lookup_insert_ne hne]
  exact hf

theorem publishImmutableBatch_keeps {path : Path} {payload : Bytes} {objects : List (Path × Bytes)}
    (h : ∀ o ∈ objects, o.1 = path → o.1.stem = sha256 o.2 → o.2 = payload) :
    Moves (Keeps path payload) (publishImmutableBatch objects) := by
  refine publishImmutableBatch_moves (Keeps.refl _ _) (Keeps.trans _ _)
    (fun o _ files hnone => keeps_insert_of_none hnone) ?_
  intro o ho hname files hf
  by_cases hpath : path = o.1
  · rw [← h o ho hpath.symm hname, hpath]
    exact AList.lookup_insert _
  · rw [AList.lookup_insert_ne hpath]
    exact hf

/-- The file at a path is not touched. -/
def Fixes (path : Path) (before after : Disk) : Prop := after.lookup path = before.lookup path

theorem Fixes.refl (path : Path) (files : Disk) : Fixes path files files := rfl

theorem Fixes.trans (path : Path) (f g h : Disk) (hfg : Fixes path f g) (hgh : Fixes path g h) :
    Fixes path f h :=
  Eq.trans hgh hfg

theorem publishImmutableBatch_fixes {path : Path} {objects : List (Path × Bytes)}
    (h : ∀ o ∈ objects, o.1 ≠ path) : Moves (Fixes path) (publishImmutableBatch objects) := by
  have hinsert : ∀ o ∈ objects, ∀ files : Disk, Fixes path files (files.insert o.1 o.2) :=
    fun o ho _ => AList.lookup_insert_ne (h o ho).symm
  exact publishImmutableBatch_moves (Fixes.refl path) (Fixes.trans path)
    (fun o ho files _ => hinsert o ho files) fun o ho _ => hinsert o ho

/-- A file that is there stays, except that a chunk or a segment may be replaced by bytes that
hash to its name. -/
def Grows (before after : Disk) : Prop :=
  ∀ p, after.lookup p = before.lookup p ∨ before.lookup p = none ∨
    (p.isRoot = false ∧ ∃ payload, after.lookup p = some payload ∧ p.stem = sha256 payload)

theorem Grows.refl (files : Disk) : Grows files files := fun _ => Or.inl rfl

theorem Grows.trans (f g h : Disk) (hfg : Grows f g) (hgh : Grows g h) : Grows f h := by
  intro p
  rcases hfg p with hsame | hnone | ⟨hroot, payload, hpayload, hname⟩
  · rcases hgh p with hsame' | hnone' | hcontent
    · exact Or.inl (hsame'.trans hsame)
    · exact Or.inr (Or.inl (hsame ▸ hnone'))
    · exact Or.inr (Or.inr hcontent)
  · exact Or.inr (Or.inl hnone)
  · rcases hgh p with hsame' | hnone' | hcontent
    · exact Or.inr (Or.inr ⟨hroot, payload, hsame'.trans hpayload, hname⟩)
    · rw [hpayload] at hnone'
      cases hnone'
    · exact Or.inr (Or.inr hcontent)

theorem Grows.root {before after : Disk} (h : Grows before after) {p : Path} {payload : Bytes}
    (hp : p.isRoot = true) (hfile : before.lookup p = some payload) :
    after.lookup p = some payload := by
  rcases h p with hsame | hnone | ⟨hroot, -⟩
  · exact hsame.trans hfile
  · rw [hfile] at hnone
    cases hnone
  · rw [hp] at hroot
    cases hroot

theorem grows_insert_of_none {files : Disk} {path : Path} {payload : Bytes}
    (h : files.lookup path = none) : Grows files (files.insert path payload) := by
  intro p
  by_cases hp : p = path
  · exact Or.inr (Or.inl (hp ▸ h))
  · exact Or.inl (AList.lookup_insert_ne hp)

theorem grows_insert_of_name {files : Disk} {path : Path} {payload : Bytes}
    (hroot : path.isRoot = false) (hname : path.stem = sha256 payload) :
    Grows files (files.insert path payload) := by
  intro p
  by_cases hp : p = path
  · subst hp
    exact Or.inr (Or.inr ⟨hroot, payload, AList.lookup_insert _, hname⟩)
  · exact Or.inl (AList.lookup_insert_ne hp)

theorem publishImmutable_grows (path : Path) (payload : Bytes) :
    Moves Grows (publishImmutable path payload) :=
  publishImmutable_moves Grows.refl Grows.trans fun _ h => grows_insert_of_none h

theorem publishImmutableBatch_grows {objects : List (Path × Bytes)}
    (h : ∀ o ∈ objects, o.1.isRoot = false) : Moves Grows (publishImmutableBatch objects) :=
  publishImmutableBatch_moves Grows.refl Grows.trans (fun _ _ _ hnone => grows_insert_of_none hnone)
    fun o ho hname _ => grows_insert_of_name (h o ho) hname

end SparkCache.Store
