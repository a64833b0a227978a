import SparkCache.Lib.Utf8
import SparkCache.Store.TokenDigest

/-!
# Digests of multimodal prefixes

A prompt's media fill ranges of its tokens. The digest of a prefix hashes the salt, the tokens of the
prefix and the identities of the media whose ranges begin in it; without media it is the digest of the
tokens alone.
-/
namespace SparkCache.Store.Media

open Pages

/-- `MultimodalFeatureIdentity` -/
structure MultimodalFeatureIdentity where
  modality : Str
  identifier : Str
  offset : ℤ
  length : ℤ
  deriving DecidableEq

structure Prompt where
  tokens : List ℤ
  features : List MultimodalFeatureIdentity

/-- `_MULTIMODAL_DIGEST_DOMAIN` -/
def digestDomain : Bytes := [0] ++ "sparkcache-multimodal-context-v1".toList.map (fun c => UInt8.ofNat c.toNat) ++ [0]

/-- The loop of `validate_multimodal_features`. -/
def checkFeatures (tokenCount : ℕ) : ℤ → List MultimodalFeatureIdentity → Except StoreError Unit
  | _, [] => .ok ()
  | previousEnd, feature :: rest => do
      require (feature.modality.codes ≠ []) (.value "multimodal feature modality must be a non-empty string")
      require (feature.identifier.codes ≠ []) (.value "multimodal feature identifier must be a non-empty string")
      require (0 ≤ feature.offset ∧ 0 < feature.length) (.value
        "multimodal feature range must contain non-negative integer offsets and positive integer lengths")
      require (previousEnd ≤ feature.offset) (.value "multimodal feature ranges must be ordered and disjoint")
      require (feature.offset + feature.length ≤ tokenCount)
        (.value "multimodal feature range exceeds the prompt tokens")
      require (feature.modality.encodable ∧ feature.identifier.encodable)
        (.value "multimodal feature identity is not valid UTF-8")
      require ((Utf8.encode feature.modality.codes).length ≤ 2 ^ 32 - 1 ∧
        (Utf8.encode feature.identifier.codes).length ≤ 2 ^ 32 - 1) (.value "multimodal feature identity is too large")
      require (feature.offset + feature.length ≤ 2 ^ 64 - 1) (.value "multimodal feature range is too large")
      checkFeatures tokenCount (feature.offset + feature.length) rest

/-- `validate_multimodal_features` -/
def validateMultimodalFeatures (features : List MultimodalFeatureIdentity) (tokenCount : ℕ) :
    Except StoreError Unit := do
  require (features.length ≤ 2 ^ 32 - 1) (.value "too many multimodal features")
  checkFeatures tokenCount 0 features

/-- The features that begin in a prefix. -/
def activeFeatures (features : List MultimodalFeatureIdentity) (tokenCount : ℕ) : List MultimodalFeatureIdentity :=
  features.filter fun feature => feature.offset < tokenCount

/-- What the hash is fed for a feature; the validation has bounded its four numbers. -/
def featureBytes (feature : MultimodalFeatureIdentity) : Bytes :=
  let modality := Utf8.encode feature.modality.codes
  let identifier := Utf8.encode feature.identifier.codes
  FixedWidth.little 8 feature.offset.toNat ++ FixedWidth.little 8 feature.length.toNat ++
    FixedWidth.little 4 modality.length ++ FixedWidth.little 4 identifier.length ++ modality ++ identifier

/-- What `_extend_with_multimodal_identity` feeds the hash. -/
def multimodalIdentity (features : List MultimodalFeatureIdentity) (tokenCount : ℕ) : Bytes :=
  let active := activeFeatures features tokenCount
  if active = [] then []
  else digestDomain ++ FixedWidth.little 4 active.length ++ active.flatMap featureBytes

/-- What `context_prefix_digest` hashes; without a count, the whole prompt. -/
def contextPrefixBytes (p : Prompt) (salt : String) (tokenCount : Option ℕ) : Except StoreError Bytes := do
  let packed ← packU32 p.tokens "token_ids"
  let count := tokenCount.getD p.tokens.length
  require (count ≤ p.tokens.length) (.value "token_count must identify a prefix of token_ids")
  validateMultimodalFeatures p.features p.tokens.length
  return (← asciiBytes salt) ++ [0] ++ packed.take (count * 4) ++ multimodalIdentity p.features count

/-- `context_prefix_digest` -/
def contextPrefixDigest (p : Prompt) (salt : String) (tokenCount : Option ℕ) : Except StoreError Digest := do
  return sha256 (← contextPrefixBytes p salt tokenCount)

/-- `context_digest` -/
def contextDigest (p : Prompt) (salt : String) : Except StoreError Digest := contextPrefixDigest p salt none

/-- The pass over the tokens; at each boundary a copy of the hash is fed the media. -/
def prefixPass (packed : Bytes) (features : List MultimodalFeatureIdentity) (hashed : Bytes) :
    ℕ → List ℕ → List (ℕ × Digest)
  | _, [] => []
  | previous, boundary :: rest =>
      let hashed := hashed ++ slice packed (previous * 4) (boundary * 4)
      (boundary, sha256 (hashed ++ multimodalIdentity features boundary)) ::
        prefixPass packed features hashed boundary rest

/-- `chunk_prefix_digests` -/
def chunkPrefixDigests (p : Prompt) (salt : String) (boundaries : List ℕ) (chunkTokens : ℕ) :
    Except StoreError (List (ℕ × Digest)) := do
  require (0 < chunkTokens) (.value "chunk_tokens must be a positive integer")
  let packed ← packU32 p.tokens "token_ids"
  checkBoundaries p.tokens.length chunkTokens 0 boundaries
  validateMultimodalFeatures p.features p.tokens.length
  if boundaries = [] then return []
  return prefixPass packed p.features ((← asciiBytes salt) ++ [0]) 0 boundaries

/-- The prompt up to a boundary, with the media that begin before it. -/
def Prompt.truncate (p : Prompt) (boundary : ℕ) : Prompt :=
  ⟨p.tokens.take boundary, activeFeatures p.features boundary⟩

/-! ## One pass -/

/-- What is hashed for the first tokens of a packed prompt. -/
def prefixBytes (packed salt : Bytes) (features : List MultimodalFeatureIdentity) (boundary : ℕ) : Bytes :=
  salt ++ [0] ++ packed.take (boundary * 4) ++ multimodalIdentity features boundary

theorem contextPrefixBytes_eq_ok {p : Prompt} {salt : String} {tokenCount : Option ℕ} {bytes : Bytes} :
    contextPrefixBytes p salt tokenCount = .ok bytes ↔
      ∃ packed ascii, packU32 p.tokens "token_ids" = .ok packed ∧
        tokenCount.getD p.tokens.length ≤ p.tokens.length ∧
        validateMultimodalFeatures p.features p.tokens.length = .ok () ∧ asciiBytes salt = .ok ascii ∧
        bytes = prefixBytes packed ascii p.features (tokenCount.getD p.tokens.length) := by
  unfold contextPrefixBytes
  simp only [bind_eq_ok, require_eq_ok]
  constructor
  · rintro ⟨packed, hpacked, _, hcount, _, hfeatures, ascii, hascii, h⟩
    cases h
    exact ⟨packed, ascii, hpacked, hcount, hfeatures, hascii, rfl⟩
  · rintro ⟨packed, ascii, hpacked, hcount, hfeatures, hascii, rfl⟩
    exact ⟨packed, hpacked, (), hcount, (), hfeatures, ascii, hascii, rfl⟩

theorem contextPrefixDigest_eq_ok {p : Prompt} {salt : String} {tokenCount : Option ℕ} {d : Digest} :
    contextPrefixDigest p salt tokenCount = .ok d ↔
      ∃ bytes, contextPrefixBytes p salt tokenCount = .ok bytes ∧ d = sha256 bytes := by
  unfold contextPrefixDigest
  simp only [bind_eq_ok]
  constructor
  · rintro ⟨bytes, hbytes, h⟩
    cases h
    exact ⟨bytes, hbytes, rfl⟩
  · rintro ⟨bytes, hbytes, rfl⟩
    exact ⟨bytes, hbytes, rfl⟩

/-- Each boundary has the digest of its prefix, whatever boundaries come before. -/
theorem prefixPass_eq {length chunkTokens : ℕ} (packed salt : Bytes) (features : List MultimodalFeatureIdentity)
    {boundaries : List ℕ} {previous : ℕ} (h : Accepted length chunkTokens previous boundaries) :
    prefixPass packed features (salt ++ [0] ++ packed.take (previous * 4)) previous boundaries =
      boundaries.map fun b => (b, sha256 (prefixBytes packed salt features b)) := by
  induction boundaries generalizing previous with
  | nil => rfl
  | cons boundary rest ih =>
      obtain ⟨-, hlt, -, hrest⟩ := h
      have hfed : salt ++ [0] ++ packed.take (previous * 4) ++ slice packed (previous * 4) (boundary * 4) =
          salt ++ [0] ++ packed.take (boundary * 4) := by
        rw [List.append_assoc, take_append_slice packed (by omega)]
      simp only [prefixPass, hfed, ih hrest, List.map_cons, prefixBytes]

theorem chunkPrefixDigests_eq_ok {p : Prompt} {salt : String} {boundaries : List ℕ} {chunkTokens : ℕ}
    {digests : List (ℕ × Digest)} (hne : boundaries ≠ []) :
    chunkPrefixDigests p salt boundaries chunkTokens = .ok digests ↔
      ∃ packed ascii, packU32 p.tokens "token_ids" = .ok packed ∧ 0 < chunkTokens ∧
        Accepted p.tokens.length chunkTokens 0 boundaries ∧
        validateMultimodalFeatures p.features p.tokens.length = .ok () ∧ asciiBytes salt = .ok ascii ∧
        digests = boundaries.map fun b => (b, sha256 (prefixBytes packed ascii p.features b)) := by
  unfold chunkPrefixDigests
  simp only [bind_eq_ok, require_eq_ok, checkBoundaries_eq_ok, if_neg hne]
  constructor
  · rintro ⟨_, hchunk, packed, hpacked, _, haccepted, _, hfeatures, ascii, hascii, h⟩
    cases h
    have hpass := prefixPass_eq packed ascii p.features haccepted
    rw [Nat.zero_mul, List.take_zero, List.append_nil] at hpass
    exact ⟨packed, ascii, hpacked, hchunk, haccepted, hfeatures, hascii, hpass⟩
  · rintro ⟨packed, ascii, hpacked, hchunk, haccepted, hfeatures, hascii, rfl⟩
    have hpass := prefixPass_eq packed ascii p.features haccepted
    rw [Nat.zero_mul, List.take_zero, List.append_nil] at hpass
    exact ⟨(), hchunk, packed, hpacked, (), haccepted, (), hfeatures, ascii, hascii, congrArg Except.ok hpass⟩

theorem validateMultimodalFeatures_eq_ok {features : List MultimodalFeatureIdentity} {tokenCount : ℕ} :
    validateMultimodalFeatures features tokenCount = .ok () ↔
      features.length ≤ 2 ^ 32 - 1 ∧ checkFeatures tokenCount 0 features = .ok () := by
  unfold validateMultimodalFeatures
  simp only [bind_eq_ok, require_eq_ok]
  constructor
  · intro h
    obtain ⟨_, hlength, hcheck⟩ := h
    exact ⟨hlength, hcheck⟩
  · intro h
    exact ⟨(), h⟩

/-- Without media a digest is the one of the tokens. -/
theorem contextPrefixDigest_text (tokens : List ℤ) (salt : String) (tokenCount : ℕ) :
    contextPrefixDigest ⟨tokens, []⟩ salt (some tokenCount) = Store.contextPrefixDigest tokens salt tokenCount := by
  have hvalid : validateMultimodalFeatures [] tokens.length = .ok () :=
    validateMultimodalFeatures_eq_ok.mpr ⟨Nat.zero_le _, rfl⟩
  unfold contextPrefixDigest contextPrefixBytes Store.contextPrefixDigest
  cases packU32 tokens "token_ids" with
  | error e => rfl
  | ok packed =>
      by_cases hcount : tokenCount ≤ tokens.length
      · cases asciiBytes salt with
        | error e => simp [hvalid, hcount, require, bind, Except.bind]
        | ok ascii => simp [hvalid, hcount, require, bind, Except.bind, multimodalIdentity, activeFeatures, pure, Except.pure]
      · simp [hcount, require, bind, Except.bind]

/-! ## Prompts that share a prefix -/

theorem packU32_take {tokens : List ℤ} {label : String} {packed : Bytes} (h : packU32 tokens label = .ok packed) (n : ℕ) :
    packU32 (tokens.take n) label = .ok (packed.take (n * 4)) := by
  rw [packU32_eq_ok] at h ⊢
  obtain ⟨hrange, rfl⟩ := h
  exact ⟨fun v hv => hrange v (List.mem_of_mem_take hv), take_packed tokens n⟩

theorem multimodalIdentity_congr {features features' : List MultimodalFeatureIdentity} {b : ℕ}
    (h : activeFeatures features b = activeFeatures features' b) :
    multimodalIdentity features b = multimodalIdentity features' b := by
  rw [multimodalIdentity, multimodalIdentity, h]

/-- What is hashed for a prefix depends on the prefix and the media that begin in it. -/
theorem prefixBytes_congr {p q : Prompt} {packed packed' salt : Bytes} {b : ℕ}
    (hp : packU32 p.tokens "token_ids" = .ok packed) (hq : packU32 q.tokens "token_ids" = .ok packed')
    (htokens : p.tokens.take b = q.tokens.take b) (hfeatures : activeFeatures p.features b = activeFeatures q.features b) :
    prefixBytes packed salt p.features b = prefixBytes packed' salt q.features b := by
  have hpacked := packU32_take hp b
  rw [htokens, packU32_take hq b, Except.ok.injEq] at hpacked
  rw [prefixBytes, prefixBytes, hpacked, multimodalIdentity_congr hfeatures]

theorem activeFeatures_activeFeatures (features : List MultimodalFeatureIdentity) (b : ℕ) :
    activeFeatures (activeFeatures features b) b = activeFeatures features b := by
  simp [activeFeatures, List.filter_filter]

theorem checkFeatures_cons {tokenCount : ℕ} {previousEnd : ℤ} {feature : MultimodalFeatureIdentity}
    {rest : List MultimodalFeatureIdentity} : checkFeatures tokenCount previousEnd (feature :: rest) = .ok () ↔
      (feature.modality.codes ≠ [] ∧ feature.identifier.codes ≠ [] ∧ (0 ≤ feature.offset ∧ 0 < feature.length) ∧
        previousEnd ≤ feature.offset ∧ feature.offset + feature.length ≤ tokenCount ∧
        (feature.modality.encodable ∧ feature.identifier.encodable) ∧
        ((Utf8.encode feature.modality.codes).length ≤ 2 ^ 32 - 1 ∧
          (Utf8.encode feature.identifier.codes).length ≤ 2 ^ 32 - 1) ∧
        feature.offset + feature.length ≤ 2 ^ 64 - 1) ∧
        checkFeatures tokenCount (feature.offset + feature.length) rest = .ok () := by
  rw [checkFeatures]
  simp only [bind_eq_ok, require_eq_ok]
  constructor
  · rintro ⟨_, h1, _, h2, _, h3, _, h4, _, h5, _, h6, _, h7, _, h8, hrest⟩
    exact ⟨⟨h1, h2, h3, h4, h5, h6, h7, h8⟩, hrest⟩
  · rintro ⟨⟨h1, h2, h3, h4, h5, h6, h7, h8⟩, hrest⟩
    exact ⟨(), h1, (), h2, (), h3, (), h4, (), h5, (), h6, (), h7, (), h8, hrest⟩

theorem checkFeatures_mono {tokenCount : ℕ} {features : List MultimodalFeatureIdentity} {previousEnd previousEnd' : ℤ}
    (hle : previousEnd' ≤ previousEnd) (h : checkFeatures tokenCount previousEnd features = .ok ()) :
    checkFeatures tokenCount previousEnd' features = .ok () := by
  cases features with
  | nil => rfl
  | cons feature rest =>
      rw [checkFeatures_cons] at h ⊢
      obtain ⟨⟨h1, h2, h3, h4, h5⟩, hrest⟩ := h
      exact ⟨⟨h1, h2, h3, hle.trans h4, h5⟩, hrest⟩

/-- Features that are kept out of validated ones, and end in a shorter prompt, are valid there. -/
theorem checkFeatures_active {tokenCount b : ℕ} {features : List MultimodalFeatureIdentity} {previousEnd : ℤ}
    (h : checkFeatures tokenCount previousEnd features = .ok ())
    (hend : ∀ feature ∈ features, feature.offset < b → feature.offset + feature.length ≤ b) :
    checkFeatures b previousEnd (activeFeatures features b) = .ok () := by
  induction features generalizing previousEnd with
  | nil => rfl
  | cons feature rest ih =>
      rw [List.forall_mem_cons] at hend
      rw [checkFeatures_cons] at h
      obtain ⟨⟨h1, h2, h3, h4, h5, h6⟩, hrest⟩ := h
      by_cases hactive : feature.offset < b
      · rw [activeFeatures, List.filter_cons_of_pos (by simpa using hactive), checkFeatures_cons]
        exact ⟨⟨h1, h2, h3, h4, hend.1 hactive, h6⟩, ih hrest hend.2⟩
      · rw [activeFeatures, List.filter_cons_of_neg (by simpa using hactive)]
        exact checkFeatures_mono (by omega) (ih hrest hend.2)

/-- The digest that a run of boundaries reports at one of them. -/
theorem mem_chunkPrefixDigests {p : Prompt} {salt : String} {boundaries : List ℕ} {chunkTokens : ℕ}
    {digests : List (ℕ × Digest)} (h : chunkPrefixDigests p salt boundaries chunkTokens = .ok digests) {b : ℕ}
    (hb : b ∈ boundaries) :
    ∃ packed ascii, packU32 p.tokens "token_ids" = .ok packed ∧ b ≤ p.tokens.length ∧
      validateMultimodalFeatures p.features p.tokens.length = .ok () ∧ asciiBytes salt = .ok ascii ∧
      ∀ d, (b, d) ∈ digests ↔ d = sha256 (prefixBytes packed ascii p.features b) := by
  obtain ⟨packed, ascii, hpacked, -, haccepted, hfeatures, hascii, rfl⟩ :=
    (chunkPrefixDigests_eq_ok (List.ne_nil_of_mem hb)).mp h
  refine ⟨packed, ascii, hpacked, (haccepted.of_mem b hb).2.1, hfeatures, hascii, fun d => ?_⟩
  rw [List.mem_map]
  constructor
  · rintro ⟨b', -, heq⟩
    rw [Prod.mk.injEq] at heq
    rw [← heq.2, heq.1]
  · rintro rfl
    exact ⟨b, hb, rfl⟩

theorem contextDigest_truncate {p : Prompt} {salt : String} {packed ascii : Bytes} {b : ℕ}
    (hpacked : packU32 p.tokens "token_ids" = .ok packed) (hlength : b ≤ p.tokens.length)
    (hvalid : validateMultimodalFeatures p.features p.tokens.length = .ok ()) (hascii : asciiBytes salt = .ok ascii)
    (hend : ∀ feature ∈ activeFeatures p.features b, feature.offset + feature.length ≤ b) :
    contextDigest (p.truncate b) salt = .ok (sha256 (prefixBytes packed ascii p.features b)) := by
  have hcount : (p.truncate b).tokens.length = b := by
    rw [Prompt.truncate, List.length_take, Nat.min_eq_left hlength]
  have hfeatures : validateMultimodalFeatures (p.truncate b).features b = .ok () := by
    rw [validateMultimodalFeatures_eq_ok] at hvalid ⊢
    refine ⟨(List.length_filter_le _ _).trans hvalid.1, ?_⟩
    have hall : ∀ feature ∈ p.features, feature.offset < b → feature.offset + feature.length ≤ b :=
      fun feature hmem hactive => hend feature (List.mem_filter.mpr ⟨hmem, decide_eq_true hactive⟩)
    rw [Prompt.truncate]
    refine checkFeatures_active hvalid.2 hall
  refine contextPrefixDigest_eq_ok.mpr ⟨_, contextPrefixBytes_eq_ok.mpr
    ⟨_, ascii, packU32_take hpacked b, le_of_eq rfl, by rw [hcount]; exact hfeatures, hascii, rfl⟩, ?_⟩
  have hsame : multimodalIdentity (p.truncate b).features b = multimodalIdentity p.features b :=
    multimodalIdentity_congr (activeFeatures_activeFeatures p.features b)
  rw [Option.getD_none, hcount, prefixBytes, prefixBytes, hsame, List.take_take, Nat.min_self]

/-- Prompts that agree on a prefix and the media that begin in it have one digest there, in every run of
boundaries and on its own; if the media end in the prefix, it is the digest of the truncated prompt. -/
theorem chunkPrefixDigests_agree {p q : Prompt} {salt : String} {boundaries boundaries' : List ℕ}
    {chunkTokens chunkTokens' : ℕ} {digests digests' : List (ℕ × Digest)} {b : ℕ}
    (hp : chunkPrefixDigests p salt boundaries chunkTokens = .ok digests)
    (hq : chunkPrefixDigests q salt boundaries' chunkTokens' = .ok digests')
    (hb : b ∈ boundaries) (hb' : b ∈ boundaries') (htokens : p.tokens.take b = q.tokens.take b)
    (hfeatures : activeFeatures p.features b = activeFeatures q.features b) :
    ∃ d, (∀ e, (b, e) ∈ digests ↔ e = d) ∧ (∀ e, (b, e) ∈ digests' ↔ e = d) ∧
      contextPrefixDigest p salt (some b) = .ok d ∧ contextPrefixDigest q salt (some b) = .ok d ∧
      ((∀ feature ∈ activeFeatures p.features b, feature.offset + feature.length ≤ b) →
        contextDigest (p.truncate b) salt = .ok d ∧ contextDigest (q.truncate b) salt = .ok d) := by
  obtain ⟨packed, ascii, hpacked, hlength, hvalid, hascii, hreported⟩ := mem_chunkPrefixDigests hp hb
  obtain ⟨packed', ascii', hpacked', hlength', hvalid', hascii', hreported'⟩ := mem_chunkPrefixDigests hq hb'
  have hsalt : ascii' = ascii := by
    rw [hascii, Except.ok.injEq] at hascii'
    exact hascii'.symm
  subst hsalt
  have hbytes : prefixBytes packed ascii' p.features b = prefixBytes packed' ascii' q.features b :=
    prefixBytes_congr hpacked hpacked' htokens hfeatures
  have hdirect : contextPrefixDigest p salt (some b) = .ok (sha256 (prefixBytes packed ascii' p.features b)) :=
    contextPrefixDigest_eq_ok.mpr ⟨_, contextPrefixBytes_eq_ok.mpr
      ⟨packed, ascii', hpacked, hlength, hvalid, hascii, rfl⟩, rfl⟩
  have hdirect' : contextPrefixDigest q salt (some b) = .ok (sha256 (prefixBytes packed ascii' p.features b)) :=
    contextPrefixDigest_eq_ok.mpr ⟨_, contextPrefixBytes_eq_ok.mpr
      ⟨packed', ascii', hpacked', hlength', hvalid', hascii, rfl⟩, by rw [hbytes]; rfl⟩
  refine ⟨_, hreported, fun e => by rw [hreported' e, hbytes], hdirect, hdirect', fun hend => ⟨?_, ?_⟩⟩
  · exact contextDigest_truncate hpacked hlength hvalid hascii hend
  · rw [hbytes]
    refine contextDigest_truncate hpacked' hlength' hvalid' hascii ?_
    rw [← hfeatures]
    exact hend

/-- An image that fills the second token. -/
def picture : MultimodalFeatureIdentity := ⟨"image", "cat", 1, 1⟩

/-- A sound after the picture. -/
def sound : MultimodalFeatureIdentity := ⟨"audio", "purr", 4, 2⟩

theorem chunkPrefixDigests_agree_picture : ∃ d digests digests',
    chunkPrefixDigests ⟨[5, 6, 7, 8, 9, 10], [picture, sound]⟩ "salt" [2, 4] 2 = .ok digests ∧
      chunkPrefixDigests ⟨[5, 6, 7, 8, 1], [picture]⟩ "salt" [4] 4 = .ok digests' ∧
      (4, d) ∈ digests ∧ (4, d) ∈ digests' ∧ contextDigest ⟨[5, 6, 7, 8], [picture]⟩ "salt" = .ok d := by
  obtain ⟨packed, ascii, hpacked, hascii⟩ : ∃ packed ascii,
      packU32 [5, 6, 7, 8, 9, 10] "token_ids" = .ok packed ∧ asciiBytes "salt" = .ok ascii :=
    ⟨_, _, packU32_eq_ok.mpr ⟨by decide, rfl⟩, asciiBytes_eq_ok.mpr ⟨by simp, rfl⟩⟩
  obtain ⟨packed', hpacked'⟩ : ∃ packed', packU32 [5, 6, 7, 8, 1] "token_ids" = .ok packed' :=
    ⟨_, packU32_eq_ok.mpr ⟨by decide, rfl⟩⟩
  have hp : chunkPrefixDigests ⟨[5, 6, 7, 8, 9, 10], [picture, sound]⟩ "salt" [2, 4] 2 = .ok _ :=
    (chunkPrefixDigests_eq_ok (by decide)).mpr ⟨packed, ascii, hpacked, by decide, by simp [Accepted],
      by decide +kernel, hascii, rfl⟩
  have hq : chunkPrefixDigests ⟨[5, 6, 7, 8, 1], [picture]⟩ "salt" [4] 4 = .ok _ :=
    (chunkPrefixDigests_eq_ok (by decide)).mpr ⟨packed', ascii, hpacked', by decide, by simp [Accepted],
      by decide +kernel, hascii, rfl⟩
  obtain ⟨d, hd, hd', -, -, hdirect⟩ := chunkPrefixDigests_agree (b := 4) hp hq (by decide) (by decide) (by decide) (by decide +kernel)
  exact ⟨d, _, _, hp, hq, (hd d).mpr rfl, (hd' d).mpr rfl, (hdirect (by decide +kernel)).2⟩

/-! ## What is hashed names the context -/

/-- What the validation of features leaves of each. -/
structure MultimodalFeatureIdentity.Valid (feature : MultimodalFeatureIdentity) : Prop where
  offset : 0 ≤ feature.offset ∧ feature.offset < 2 ^ 64
  length : 0 ≤ feature.length ∧ feature.length < 2 ^ 64
  modality : feature.modality.encodable ∧ (Utf8.encode feature.modality.codes).length < 2 ^ 32
  identifier : feature.identifier.encodable ∧ (Utf8.encode feature.identifier.codes).length < 2 ^ 32

theorem checkFeatures_valid {tokenCount : ℕ} {features : List MultimodalFeatureIdentity} {previousEnd : ℤ}
    (h : checkFeatures tokenCount previousEnd features = .ok ()) : ∀ feature ∈ features, feature.Valid := by
  induction features generalizing previousEnd with
  | nil => exact fun _ hmem => absurd hmem List.not_mem_nil
  | cons feature rest ih =>
      obtain ⟨⟨-, -, hrange, -, -, hencodable, hsize, hend⟩, hrest⟩ := checkFeatures_cons.mp h
      rw [List.forall_mem_cons]
      exact ⟨⟨by omega, by omega, ⟨hencodable.1, by omega⟩, ⟨hencodable.2, by omega⟩⟩, ih hrest⟩

theorem little_inj {width m n : ℕ} (hm : m < 256 ^ width) (hn : n < 256 ^ width)
    (h : FixedWidth.little width m = FixedWidth.little width n) : m = n := by
  have hvalue := congrArg FixedWidth.value h
  rwa [FixedWidth.value_little _ _ hm, FixedWidth.value_little _ _ hn] at hvalue

theorem encode_inj {s t : Str} (hs : s.encodable = true) (ht : t.encodable = true)
    (h : Utf8.encode s.codes = Utf8.encode t.codes) : s = t := by
  have hbound : ∀ {u : Str}, u.encodable = true → ∀ code ∈ u.codes, code < 0x110000 := by
    intro u hu code hcode
    have hscalar := List.all_eq_true.mp hu code hcode
    simp only [Str.isScalar, Bool.or_eq_true, Bool.and_eq_true, decide_eq_true_eq] at hscalar
    omega
  exact Str.codes_injective (Utf8.encode_injective (hbound hs) (hbound ht) h)

/-- A feature can be told from what follows it. -/
theorem featureBytes_append_inj {f g : MultimodalFeatureIdentity} (hf : f.Valid) (hg : g.Valid) {rest rest' : Bytes}
    (h : featureBytes f ++ rest = featureBytes g ++ rest') : f = g ∧ rest = rest' := by
  simp only [featureBytes, List.append_assoc] at h
  obtain ⟨hoffset, h⟩ := List.append_inj h (by simp)
  obtain ⟨hlength, h⟩ := List.append_inj h (by simp)
  obtain ⟨hmodality, h⟩ := List.append_inj h (by simp)
  obtain ⟨hidentifier, h⟩ := List.append_inj h (by simp)
  have hmodality := little_inj (by have := hf.modality.2; omega) (by have := hg.modality.2; omega) hmodality
  have hidentifier := little_inj (by have := hf.identifier.2; omega) (by have := hg.identifier.2; omega) hidentifier
  obtain ⟨hm, h⟩ := List.append_inj h hmodality
  obtain ⟨hi, hrest⟩ := List.append_inj h hidentifier
  have hoffset := little_inj (by have := hf.offset; omega) (by have := hg.offset; omega) hoffset
  have hlength := little_inj (by have := hf.length; omega) (by have := hg.length; omega) hlength
  have hm := encode_inj hf.modality.1 hg.modality.1 hm
  have hi := encode_inj hf.identifier.1 hg.identifier.1 hi
  have hoffset : f.offset = g.offset := by
    have h0 := hf.offset.1
    have h1 := hg.offset.1
    omega
  have hlength : f.length = g.length := by
    have h0 := hf.length.1
    have h1 := hg.length.1
    omega
  obtain ⟨modality, identifier, offset, length⟩ := f
  obtain ⟨modality', identifier', offset', length'⟩ := g
  dsimp only at hm hi hoffset hlength
  rw [hm, hi, hoffset, hlength]
  exact ⟨rfl, hrest⟩

theorem flatMap_featureBytes_inj {fs gs : List MultimodalFeatureIdentity} (hf : ∀ f ∈ fs, f.Valid)
    (hg : ∀ g ∈ gs, g.Valid) (hlength : fs.length = gs.length)
    (h : fs.flatMap featureBytes = gs.flatMap featureBytes) : fs = gs := by
  induction fs generalizing gs with
  | nil => exact (List.length_eq_zero_iff.mp hlength.symm).symm
  | cons f fs ih =>
      cases gs with
      | nil => cases hlength
      | cons g gs =>
          rw [List.forall_mem_cons] at hf hg
          rw [List.flatMap_cons, List.flatMap_cons] at h
          obtain ⟨rfl, hrest⟩ := featureBytes_append_inj hf.1 hg.1 h
          rw [ih hf.2 hg.2 (Nat.succ.inj hlength) hrest]

/-- What follows the tokens is empty, or begins with the domain of the media. -/
theorem multimodalIdentity_cases (features : List MultimodalFeatureIdentity) (count : ℕ) :
    multimodalIdentity features count = [] ∨ ∃ rest, multimodalIdentity features count = 0 :: 115 :: 112 :: 97 :: rest := by
  unfold multimodalIdentity
  dsimp only
  split
  · exact Or.inl rfl
  · exact Or.inr ⟨_, rfl⟩

/-- No token that is small enough spells the beginning of the domain. -/
theorem tokens_append_inj {xs : List ℤ} (hx : ∀ v ∈ xs, 0 ≤ v ∧ v < 2 ^ 24) {ys : List ℤ}
    (hy : ∀ v ∈ ys, 0 ≤ v ∧ v < 2 ^ 24) {us vs : Bytes}
    (hus : us = [] ∨ ∃ rest, us = 0 :: 115 :: 112 :: 97 :: rest)
    (hvs : vs = [] ∨ ∃ rest, vs = 0 :: 115 :: 112 :: 97 :: rest)
    (h : xs.flatMap (fun v => FixedWidth.little 4 v.toNat) ++ us = ys.flatMap (fun v => FixedWidth.little 4 v.toNat) ++ vs) :
    xs = ys ∧ us = vs := by
  have hclash : ∀ {v : ℤ} {rest ws : Bytes}, 0 ≤ v ∧ v < 2 ^ 24 →
      (ws = [] ∨ ∃ rest, ws = 0 :: 115 :: 112 :: 97 :: rest) → ws ≠ FixedWidth.little 4 v.toNat ++ rest := by
    intro v rest ws hv hws heq
    obtain rfl | ⟨tail, rfl⟩ := hws
    · simp [FixedWidth.little] at heq
    · simp only [FixedWidth.little, List.cons_append, List.nil_append, List.cons.injEq] at heq
      have hbyte := congrArg UInt8.toNat heq.2.2.2.1
      rw [UInt8.toNat_ofNat'] at hbyte
      have hnat : (97 : UInt8).toNat = 97 := rfl
      omega
  induction xs generalizing ys with
  | nil =>
      cases ys with
      | nil => exact ⟨rfl, by simpa using h⟩
      | cons y ys =>
          rw [List.forall_mem_cons] at hy
          rw [List.flatMap_nil, List.nil_append, List.flatMap_cons, List.append_assoc] at h
          exact absurd h (hclash hy.1 hus)
  | cons x xs ih =>
      rw [List.forall_mem_cons] at hx
      cases ys with
      | nil =>
          rw [List.flatMap_nil, List.nil_append, List.flatMap_cons, List.append_assoc] at h
          exact absurd h.symm (hclash hx.1 hvs)
      | cons y ys =>
          rw [List.forall_mem_cons] at hy
          rw [List.flatMap_cons, List.flatMap_cons, List.append_assoc, List.append_assoc] at h
          obtain ⟨hfirst, hrest⟩ := List.append_inj h (by simp)
          obtain ⟨hxs, hus⟩ := ih hx.2 hy.2 hrest
          have hvalue := little_inj (by have := hx.1; omega) (by have := hy.1; omega) hfirst
          have hxy : x = y := by
            have h0 := hx.1.1
            have h1 := hy.1.1
            omega
          rw [hxy, hxs]
          exact ⟨rfl, hus⟩

/-- The media that are hashed can be read back. -/
theorem multimodalIdentity_inj {fs gs : List MultimodalFeatureIdentity} {m n : ℕ} (hf : ∀ f ∈ fs, f.Valid)
    (hg : ∀ g ∈ gs, g.Valid) (hfs : fs.length < 2 ^ 32) (hgs : gs.length < 2 ^ 32)
    (h : multimodalIdentity fs m = multimodalIdentity gs n) : activeFeatures fs m = activeFeatures gs n := by
  have hcons : digestDomain ≠ [] := List.append_ne_nil_of_right_ne_nil _ (List.cons_ne_nil _ _)
  unfold multimodalIdentity at h
  dsimp only at h
  split at h <;> split at h
  · rename_i hm hn
    rw [hm, hn]
  · rw [eq_comm, List.append_assoc, List.append_eq_nil_iff] at h
    exact absurd h.1 hcons
  · rw [List.append_assoc, List.append_eq_nil_iff] at h
    exact absurd h.1 hcons
  · rw [List.append_assoc, List.append_assoc, List.append_cancel_left_eq] at h
    obtain ⟨hcount, hbytes⟩ := List.append_inj h (by simp)
    have hm : (activeFeatures fs m).length ≤ fs.length := List.length_filter_le _ _
    have hn : (activeFeatures gs n).length ≤ gs.length := List.length_filter_le _ _
    have hlength := little_inj (by omega) (by omega) hcount
    exact flatMap_featureBytes_inj (fun f hmem => hf f (List.mem_filter.mp hmem).1)
      (fun g hmem => hg g (List.mem_filter.mp hmem).1) hlength hbytes

/-- Under one salt, what is hashed names the tokens of the prefix and the media that begin in it. -/
theorem contextPrefixBytes_inj {p q : Prompt} {salt : String} {m n : Option ℕ} {bytes : Bytes}
    (hp : contextPrefixBytes p salt m = .ok bytes) (hq : contextPrefixBytes q salt n = .ok bytes)
    (hpv : ∀ v ∈ p.tokens.take (m.getD p.tokens.length), v < 2 ^ 24)
    (hqv : ∀ v ∈ q.tokens.take (n.getD q.tokens.length), v < 2 ^ 24) :
    p.tokens.take (m.getD p.tokens.length) = q.tokens.take (n.getD q.tokens.length) ∧
      activeFeatures p.features (m.getD p.tokens.length) = activeFeatures q.features (n.getD q.tokens.length) := by
  obtain ⟨packed, ascii, hpacked, -, hvalid, hascii, rfl⟩ := contextPrefixBytes_eq_ok.mp hp
  obtain ⟨packed', ascii', hpacked', -, hvalid', hascii', h⟩ := contextPrefixBytes_eq_ok.mp hq
  rw [hascii, Except.ok.injEq] at hascii'
  subst hascii'
  rw [packU32_eq_ok] at hpacked hpacked'
  rw [validateMultimodalFeatures_eq_ok] at hvalid hvalid'
  rw [prefixBytes, prefixBytes, List.append_assoc, List.append_assoc, List.append_assoc, List.append_assoc,
    List.append_cancel_left_eq, List.append_cancel_left_eq, hpacked.2, hpacked'.2, take_packed, take_packed] at h
  have hrange : ∀ v ∈ p.tokens.take (m.getD p.tokens.length), 0 ≤ v ∧ v < 2 ^ 24 := fun v hv =>
    ⟨(hpacked.1 v (List.mem_of_mem_take hv)).1, hpv v hv⟩
  have hrange' : ∀ v ∈ q.tokens.take (n.getD q.tokens.length), 0 ≤ v ∧ v < 2 ^ 24 := fun v hv =>
    ⟨(hpacked'.1 v (List.mem_of_mem_take hv)).1, hqv v hv⟩
  obtain ⟨htokens, hmedia⟩ := tokens_append_inj hrange hrange' (multimodalIdentity_cases _ _)
    (multimodalIdentity_cases _ _) h
  refine ⟨htokens, multimodalIdentity_inj (checkFeatures_valid hvalid.2) (checkFeatures_valid hvalid'.2) ?_ ?_ hmedia⟩
  · have := hvalid.1
    omega
  · have := hvalid'.1
    omega

theorem contextPrefixBytes_inj_picture : ∃ bytes,
    contextPrefixBytes ⟨[5, 6, 7, 8, 9, 10], [picture, sound]⟩ "salt" (some 4) = .ok bytes ∧
      contextPrefixBytes ⟨[5, 6, 7, 8], [picture]⟩ "salt" none = .ok bytes ∧
      activeFeatures [picture, sound] 4 = activeFeatures [picture] 4 := by
  have hp : contextPrefixBytes ⟨[5, 6, 7, 8, 9, 10], [picture, sound]⟩ "salt" (some 4) = .ok _ := rfl
  have hq : contextPrefixBytes ⟨[5, 6, 7, 8], [picture]⟩ "salt" none = .ok _ := rfl
  exact ⟨_, hp, hq, (contextPrefixBytes_inj hp hq (by decide) (by decide)).2⟩

end SparkCache.Store.Media
