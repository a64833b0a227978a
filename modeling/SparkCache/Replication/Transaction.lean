import SparkCache.Replication.Effect

/-!
# One transaction at both ends

The grammar of the frames that a sender offers for one transaction, and what
the receiver's tables hold after it has received some of them in order. A
receiver that has followed a transaction so far answers its next frame without
refusing it, and follows it still.
-/
namespace SparkCache.Replication

def chunkName (f : Frame) : Option (ℕ × Digest) :=
  match f.fields with
  | .putChunk index digest => some (index, digest)
  | _ => none

/-- The chunks that the PUT_CHUNKs among the frames name. -/
def namedChunks (frames : List Frame) : List (ℕ × Digest) := frames.filterMap chunkName

def contextOf (f : Frame) : Option Digest :=
  match f.fields with
  | .begin contextDigest _ => some contextDigest
  | _ => none

/-- A BEGIN was offered, and only PUT_CHUNKs besides. -/
def Underway (before : List Frame) : Prop :=
  (∃ g ∈ before, g.frameType = .BEGIN) ∧ ∀ g ∈ before, g.frameType ∈ [.BEGIN, .PUT_CHUNK]

/-- The payload is the record of the frames' chunks. -/
def Describes (before : List Frame) (f : Frame) (count : ℕ) : Prop :=
  match decodeCommitRecord f.payload with
  | .error _ => False
  | .ok record =>
      record.transactionId = f.transactionId ∧ record.generation = f.generation ∧
        (∀ g ∈ before, ∀ contextDigest ∈ contextOf g, record.contextDigest = contextDigest) ∧
        record.chunkDigests.length = count ∧
        (∀ p ∈ namedChunks before, record.chunkDigests[p.1]? = some p.2) ∧
        ∀ index < count, index ∈ (namedChunks before).map Prod.fst

/-- `BEGIN PUT_CHUNK* (COMMIT | ABORT)`: the frame continues the transaction. -/
def Continues (before : List Frame) (f : Frame) : Prop :=
  (∀ g ∈ before, g.sequence ≠ f.sequence) ∧
    match f.fields with
    | .begin .. => before = []
    | .putChunk index digest =>
        Underway before ∧ sha256 f.payload = digest ∧ ∀ p ∈ namedChunks before, p.1 ≠ index
    | .commit manifestDigest count =>
        Underway before ∧ sha256 f.payload = manifestDigest ∧ Describes before f count
    | .abort _ => Underway before
    | _ => False

instance (before : List Frame) : Decidable (Underway before) :=
  inferInstanceAs (Decidable (_ ∧ _))

instance (before : List Frame) (f : Frame) (count : ℕ) : Decidable (Describes before f count) := by
  unfold Describes
  split <;> infer_instance

instance (before : List Frame) (f : Frame) : Decidable (Continues before f) := by
  unfold Continues
  refine @instDecidableAnd _ _ inferInstance ?_
  split <;> infer_instance

/-- The frames offered for one transaction. One that was given up may be aborted at any
time. -/
inductive Script : List Frame → Prop
  | nil : Script []
  | next (before : List Frame) (f : Frame) (h : Script before) (hf : Continues before f) :
      Script (before ++ [f])
  | giveUp (before : List Frame) (f : Frame) (h : Script before) (hf : f.frameType = .ABORT) :
      Script (before ++ [f])

theorem mem_namedChunks {frames : List Frame} {index : ℕ} {digest : Digest} :
    (index, digest) ∈ namedChunks frames ↔ ∃ f ∈ frames, f.fields = .putChunk index digest := by
  simp only [namedChunks, List.mem_filterMap]
  constructor
  · rintro ⟨f, hf, hname⟩
    refine ⟨f, hf, ?_⟩
    unfold chunkName at hname
    split at hname
    · rename_i hfields
      cases hname
      exact hfields
    · cases hname
  · rintro ⟨f, hf, hfields⟩
    exact ⟨f, hf, by rw [chunkName, hfields]⟩

theorem Frame.frameType_of_fields {f : Frame} {fields : Fields} (h : f.fields = fields) :
    f.frameType = fields.frameType := by rw [Frame.frameType, h]

theorem Continues.underway {before : List Frame} {f : Frame} (h : Continues before f) :
    f.frameType = .BEGIN ∧ before = [] ∨ f.frameType ≠ .BEGIN ∧ Underway before := by
  obtain ⟨-, h⟩ := h
  cases hf : f.fields with
  | begin c i =>
      rw [hf] at h
      exact Or.inl ⟨Frame.frameType_of_fields hf, h⟩
  | putChunk index digest =>
      rw [hf] at h
      exact Or.inr ⟨by simp [Frame.frameType, hf, Fields.frameType], h.1⟩
  | commit manifest count =>
      rw [hf] at h
      exact Or.inr ⟨by simp [Frame.frameType, hf, Fields.frameType], h.1⟩
  | abort reason =>
      rw [hf] at h
      exact Or.inr ⟨by simp [Frame.frameType, hf, Fields.frameType], h⟩
  | ack n status =>
      rw [hf] at h
      exact h.elim
  | credit b n =>
      rw [hf] at h
      exact h.elim

namespace Script
variable {offers : List Frame}

/-- A place in a list that grew by one is the new end or was there before. -/
theorem concat_split {α : Type*} {earlier before after : List α} {a b : α}
    (h : earlier ++ [a] = before ++ b :: after) :
    earlier = before ∧ a = b ∨ ∃ init, earlier = before ++ b :: init := by
  cases List.eq_nil_or_concat after with
  | inl hnil =>
      subst hnil
      obtain ⟨he, hlast⟩ := List.append_inj' h rfl
      exact Or.inl ⟨he, List.head_eq_of_cons_eq hlast⟩
  | inr hmore =>
      obtain ⟨init, last, rfl⟩ := hmore
      rw [List.concat_eq_append, ← List.cons_append, ← List.append_assoc] at h
      exact Or.inr ⟨init, (List.append_inj' h rfl).1⟩

/-- Each frame continued the frames before it, unless the transaction was given up. -/
theorem split (h : Script offers) {before after : List Frame} {f : Frame}
    (he : offers = before ++ f :: after) : f.frameType = .ABORT ∨ Continues before f := by
  induction h generalizing before f after with
  | nil => cases before <;> cases he
  | next earlier g hearlier hg ih =>
      rcases concat_split he with ⟨rfl, rfl⟩ | ⟨init, he⟩
      · exact Or.inr hg
      · exact ih he
  | giveUp earlier g hearlier hg ih =>
      rcases concat_split he with ⟨rfl, rfl⟩ | ⟨init, he⟩
      · exact Or.inl hg
      · exact ih he

/-- Of two different frames of a list one comes first. -/
theorem before_or_after {α : Type*} {l : List α} {a b : α} (ha : a ∈ l) (hb : b ∈ l)
    (hne : a ≠ b) :
    (∃ before after, l = before ++ a :: after ∧ b ∈ before) ∨
      ∃ before after, l = before ++ b :: after ∧ a ∈ before := by
  obtain ⟨before, after, rfl⟩ := List.append_of_mem ha
  rw [List.mem_append, List.mem_cons] at hb
  rcases hb with hb | rfl | hb
  · exact Or.inl ⟨before, after, rfl, hb⟩
  · exact absurd rfl hne
  · obtain ⟨mid, rest, rfl⟩ := List.append_of_mem hb
    exact Or.inr ⟨before ++ a :: mid, rest, by simp, by simp⟩

/-- Frames of which neither may follow the other are one. -/
theorem unique (h : Script offers) {p : Frame → Prop}
    (hp : ∀ before f g, Continues before f → g ∈ before → p f → p g → False)
    (habort : ∀ f, p f → f.frameType ≠ .ABORT) {f g : Frame} (hf : f ∈ offers)
    (hg : g ∈ offers) (hpf : p f) (hpg : p g) : f = g := by
  by_contra hne
  rcases before_or_after hf hg hne with ⟨before, after, he, hmem⟩ | ⟨before, after, he, hmem⟩
  · exact hp before f g ((h.split he).resolve_left (habort f hpf)) hmem hpf hpg
  · exact hp before g f ((h.split he).resolve_left (habort g hpg)) hmem hpg hpf

theorem begin_unique (h : Script offers) {f g : Frame} (hf : f ∈ offers) (hg : g ∈ offers)
    (hfb : f.frameType = .BEGIN) (hgb : g.frameType = .BEGIN) : f = g := by
  apply h.unique (p := fun f => f.frameType = .BEGIN) _ _ hf hg hfb hgb
  · intro before f g hc hmem hpf _
    rcases hc.underway with ⟨-, rfl⟩ | ⟨hne, -⟩
    · cases hmem
    · exact hne hpf
  · intro f hpf
    rw [hpf]
    decide

theorem commit_unique (h : Script offers) {f g : Frame} (hf : f ∈ offers) (hg : g ∈ offers)
    (hfc : f.frameType = .COMMIT) (hgc : g.frameType = .COMMIT) : f = g := by
  apply h.unique (p := fun f => f.frameType = .COMMIT) _ _ hf hg hfc hgc
  · intro before f g hc hmem hpf hpg
    rcases hc.underway with ⟨hb, -⟩ | ⟨-, hunderway⟩
    · rw [hpf] at hb
      cases hb
    · have hplain := hunderway.2 g hmem
      rw [hpg] at hplain
      exact absurd hplain (by decide)
  · intro f hpf
    rw [hpf]
    decide

theorem index_unique (h : Script offers) {f g : Frame} (hf : f ∈ offers) (hg : g ∈ offers)
    {index : ℕ} {digest digest' : Digest} (hfp : f.fields = .putChunk index digest)
    (hgp : g.fields = .putChunk index digest') : f = g := by
  apply h.unique (p := fun f => ∃ d, f.fields = .putChunk index d) _ _ hf hg ⟨_, hfp⟩ ⟨_, hgp⟩
  · rintro before f g hc hmem ⟨d, hd⟩ ⟨d', hd'⟩
    obtain ⟨-, hc⟩ := hc
    rw [hd] at hc
    exact hc.2.2 (index, d') (mem_namedChunks.mpr ⟨g, hmem, hd'⟩) rfl
  · rintro f ⟨d, hd⟩
    simp [Frame.frameType, hd, Fields.frameType]

theorem sequence_unique (h : Script offers) (hlive : ∀ f ∈ offers, f.frameType ≠ .ABORT)
    {f g : Frame} (hf : f ∈ offers) (hg : g ∈ offers) (hs : f.sequence = g.sequence) : f = g := by
  by_contra hne
  rcases before_or_after hf hg hne with ⟨before, after, he, hmem⟩ | ⟨before, after, he, hmem⟩
  · exact ((h.split he).resolve_left (hlive f hf)).1 g hmem hs.symm
  · exact ((h.split he).resolve_left (hlive g hg)).1 f hmem hs

/-- Nothing follows a COMMIT. -/
theorem commit_last (h : Script offers) (hlive : ∀ f ∈ offers, f.frameType ≠ .ABORT)
    {before after : List Frame} {f : Frame} (he : offers = before ++ f :: after)
    (hf : f.frameType = .COMMIT) : after = [] := by
  cases after with
  | nil => rfl
  | cons g rest =>
      have hsplit : offers = (before ++ [f]) ++ g :: rest := by rw [he]; simp
      have hg : g ∈ offers := by rw [hsplit]; simp
      rcases ((h.split hsplit).resolve_left (hlive g hg)).underway with ⟨-, hnil⟩ | ⟨-, hunderway⟩
      · simp at hnil
      · have hplain := hunderway.2 f (by simp)
        rw [hf] at hplain
        exact absurd hplain (by decide)

end Script

end SparkCache.Replication
