import SparkCache.Store.Chunk

/-!
# Digests of token prefixes

A context is named by the hash of an identity's salt and the tokens of the
context. The hash of several prefixes is taken in one pass over the tokens.
-/
namespace SparkCache.Store

open Pages

/-- `CHUNK_TOKENS` -/
def defaultChunkTokens : ℕ := 256

/-- `_u32_array`, as bytes; a `CodecError` is a `ValueError`. -/
def packU32 (values : List ℤ) (label : String) : Except StoreError Bytes :=
  if ∀ v ∈ values, 0 ≤ v ∧ v < 256 ^ 4 then
    .ok (values.flatMap fun v => FixedWidth.little 4 v.toNat)
  else .error (.value (label ++ " must contain unsigned 32-bit integers"))

/-- `identity_salt.encode("ascii")` -/
def asciiBytes (s : String) : Except StoreError Bytes :=
  if s.toList.all fun c => c.toNat < 128 then .ok (s.toList.map fun c => UInt8.ofNat c.toNat)
  else .error (.value "ordinal not in range(128)")

/-- `context_prefix_digest` of a text context. -/
def contextPrefixDigest (tokens : List ℤ) (salt : String) (tokenCount : ℕ) :
    Except StoreError Digest := do
  let packed ← packU32 tokens "token_ids"
  require (tokenCount ≤ tokens.length) (.value "token_count must identify a prefix of token_ids")
  return sha256 ((← asciiBytes salt) ++ [0] ++ packed.take (tokenCount * 4))

/-- The checks of `chunk_prefix_digests`. -/
def checkBoundaries (length chunkTokens : ℕ) : ℕ → List ℕ → Except StoreError Unit
  | _, [] => .ok ()
  | previous, boundary :: rest => do
      require (0 < boundary ∧ boundary % chunkTokens = 0)
        (.value ("boundaries must be positive multiples of " ++ toString chunkTokens ++ " tokens"))
      require (previous < boundary) (.value "boundaries must be strictly increasing")
      require (boundary ≤ length) (.value "boundary must identify a prefix of token_ids")
      checkBoundaries length chunkTokens boundary rest

/-- The pass over the tokens; `hashed` is what the hash has been fed so far. -/
def prefixPass (packed hashed : Bytes) : ℕ → List ℕ → List (ℕ × Digest)
  | _, [] => []
  | previous, boundary :: rest =>
      let hashed := hashed ++ slice packed (previous * 4) (boundary * 4)
      (boundary, sha256 hashed) :: prefixPass packed hashed boundary rest

/-- `chunk_prefix_digests` of a text context. -/
def chunkPrefixDigests (tokens : List ℤ) (salt : String) (boundaries : List ℕ) (chunkTokens : ℕ) :
    Except StoreError (List (ℕ × Digest)) := do
  let packed ← packU32 tokens "token_ids"
  checkBoundaries tokens.length chunkTokens 0 boundaries
  if boundaries = [] then return []
  return prefixPass packed ((← asciiBytes salt) ++ [0]) 0 boundaries

/-! ## One pass -/

/-- The digest of the first tokens of a packed context. -/
def prefixDigest (packed salt : Bytes) (boundary : ℕ) : Digest :=
  sha256 (salt ++ [0] ++ packed.take (boundary * 4))

theorem contextPrefixDigest_eq_ok {tokens : List ℤ} {salt : String} {tokenCount : ℕ} {d : Digest} :
    contextPrefixDigest tokens salt tokenCount = .ok d ↔
      ∃ packed ascii, packU32 tokens "token_ids" = .ok packed ∧ tokenCount ≤ tokens.length ∧
        asciiBytes salt = .ok ascii ∧ d = prefixDigest packed ascii tokenCount := by
  unfold contextPrefixDigest
  simp only [bind_eq_ok, require_eq_ok]
  constructor
  · rintro ⟨packed, hpacked, _, hcount, ascii, hascii, h⟩
    cases h
    exact ⟨packed, ascii, hpacked, hcount, hascii, rfl⟩
  · rintro ⟨packed, ascii, hpacked, hcount, hascii, rfl⟩
    exact ⟨packed, hpacked, (), hcount, ascii, hascii, rfl⟩

/-- Boundaries that are accepted after a previous one. -/
def Accepted (length chunkTokens : ℕ) : ℕ → List ℕ → Prop
  | _, [] => True
  | previous, boundary :: rest =>
      boundary % chunkTokens = 0 ∧ previous < boundary ∧ boundary ≤ length ∧
        Accepted length chunkTokens boundary rest

theorem checkBoundaries_eq_ok {length chunkTokens : ℕ} {boundaries : List ℕ} {u : Unit} :
    ∀ {previous : ℕ}, checkBoundaries length chunkTokens previous boundaries = .ok u ↔
      Accepted length chunkTokens previous boundaries := by
  induction boundaries with
  | nil => simp [checkBoundaries, Accepted]
  | cons boundary rest ih =>
      intro previous
      rw [checkBoundaries]
      simp only [bind_eq_ok, require_eq_ok, ih, Accepted]
      constructor
      · rintro ⟨_, ⟨-, hmultiple⟩, _, hlt, _, hle, hrest⟩
        exact ⟨hmultiple, hlt, hle, hrest⟩
      · rintro ⟨hmultiple, hlt, hle, hrest⟩
        exact ⟨(), ⟨by omega, hmultiple⟩, (), hlt, (), hle, hrest⟩

theorem Accepted.of_mem {length chunkTokens : ℕ} {boundaries : List ℕ} :
    ∀ {previous : ℕ}, Accepted length chunkTokens previous boundaries → ∀ b ∈ boundaries,
      previous < b ∧ b ≤ length ∧ b % chunkTokens = 0 := by
  induction boundaries with
  | nil => simp
  | cons boundary rest ih =>
      intro previous h b hb
      obtain ⟨hmultiple, hlt, hle, hrest⟩ := h
      rcases List.mem_cons.mp hb with rfl | hb
      · exact ⟨hlt, hle, hmultiple⟩
      · have hlater := ih hrest b hb
        exact ⟨by omega, hlater.2⟩

theorem take_append_slice (data : Bytes) {start stop : ℕ} (h : start ≤ stop) :
    data.take start ++ slice data start stop = data.take stop := by
  rw [slice, ← List.take_add, Nat.add_sub_cancel' h]

/-- The pass gives the digest of each prefix. -/
theorem prefixPass_eq {length chunkTokens : ℕ} (packed salt : Bytes) {boundaries : List ℕ} :
    ∀ {previous : ℕ}, Accepted length chunkTokens previous boundaries →
      prefixPass packed (salt ++ [0] ++ packed.take (previous * 4)) previous boundaries =
        boundaries.map fun b => (b, prefixDigest packed salt b) := by
  induction boundaries with
  | nil => exact fun _ => rfl
  | cons boundary rest ih =>
      intro previous h
      obtain ⟨-, hlt, -, hrest⟩ := h
      have hfed : salt ++ [0] ++ packed.take (previous * 4) ++
          slice packed (previous * 4) (boundary * 4) =
            salt ++ [0] ++ packed.take (boundary * 4) := by
        rw [List.append_assoc, take_append_slice packed (by omega)]
      simp only [prefixPass, hfed, ih hrest, List.map_cons, prefixDigest]

theorem chunkPrefixDigests_eq_ok {tokens : List ℤ} {salt : String} {boundaries : List ℕ}
    {chunkTokens : ℕ} {digests : List (ℕ × Digest)} (hne : boundaries ≠ []) :
    chunkPrefixDigests tokens salt boundaries chunkTokens = .ok digests ↔
      ∃ packed ascii, packU32 tokens "token_ids" = .ok packed ∧
        Accepted tokens.length chunkTokens 0 boundaries ∧ asciiBytes salt = .ok ascii ∧
        digests = boundaries.map fun b => (b, prefixDigest packed ascii b) := by
  unfold chunkPrefixDigests
  simp only [bind_eq_ok, checkBoundaries_eq_ok, if_neg hne]
  constructor
  · rintro ⟨packed, hpacked, _, haccepted, ascii, hascii, h⟩
    cases h
    have hpass := prefixPass_eq packed ascii haccepted
    rw [Nat.zero_mul, List.take_zero, List.append_nil] at hpass
    exact ⟨packed, ascii, hpacked, haccepted, hascii, hpass⟩
  · rintro ⟨packed, ascii, hpacked, haccepted, hascii, rfl⟩
    have hpass := prefixPass_eq packed ascii haccepted
    rw [Nat.zero_mul, List.take_zero, List.append_nil] at hpass
    exact ⟨packed, hpacked, (), haccepted, ascii, hascii, congrArg Except.ok hpass⟩

/-! ## Named prefixes -/

/-- The first tokens of a sequence, under an identity's salt. -/
structure TokenPrefix where
  tokens : List ℤ
  salt : String
  count : ℕ

def TokenPrefix.digest (p : TokenPrefix) : Except StoreError Digest :=
  contextPrefixDigest p.tokens p.salt p.count

/-- What the digest of a prefix is the hash of. -/
def TokenPrefix.hashed (p : TokenPrefix) : Set Bytes :=
  {payload | ∃ packed ascii, packU32 p.tokens "token_ids" = .ok packed ∧ asciiBytes p.salt = .ok ascii ∧
    payload = ascii ++ [0] ++ packed.take (p.count * 4)}

/-- A salt without a zero byte, which ends it in what is hashed. -/
def ZeroFree (salt : String) : Prop := ∀ c ∈ salt.toList, c.toNat ≠ 0

theorem packU32_eq_ok {values : List ℤ} {label : String} {packed : Bytes} :
    packU32 values label = .ok packed ↔
      (∀ v ∈ values, 0 ≤ v ∧ v < 256 ^ 4) ∧
        packed = values.flatMap fun v => FixedWidth.little 4 v.toNat := by
  unfold packU32
  by_cases h : ∀ v ∈ values, 0 ≤ v ∧ v < 256 ^ 4
  · rw [if_pos h, Except.ok.injEq, eq_comm]
    exact ⟨fun heq => ⟨h, heq⟩, fun heq => heq.2⟩
  · rw [if_neg h]
    exact ⟨(nomatch ·), fun heq => absurd heq.1 h⟩

theorem take_packed (values : List ℤ) (n : ℕ) :
    (values.flatMap fun v => FixedWidth.little 4 v.toNat).take (n * 4) =
      (values.take n).flatMap fun v => FixedWidth.little 4 v.toNat := by
  induction values generalizing n with
  | nil => simp
  | cons v rest ih =>
      cases n with
      | zero => simp
      | succ n =>
          have hsplit : (n + 1) * 4 = (FixedWidth.little 4 v.toNat).length + n * 4 := by
            rw [FixedWidth.little_length]
            omega
          rw [List.flatMap_cons, List.take_succ_cons, List.flatMap_cons, hsplit, List.take_length_add_append,
            ih]

theorem packed_inj {xs : List ℤ} (hx : ∀ v ∈ xs, 0 ≤ v ∧ v < 256 ^ 4) :
    ∀ {ys : List ℤ}, (∀ v ∈ ys, 0 ≤ v ∧ v < 256 ^ 4) →
      (xs.flatMap fun v => FixedWidth.little 4 v.toNat) =
        (ys.flatMap fun v => FixedWidth.little 4 v.toNat) → xs = ys := by
  induction xs with
  | nil =>
      intro ys _ h
      cases ys with
      | nil => rfl
      | cons y ys => simp [FixedWidth.little] at h
  | cons x xs ih =>
      intro ys hy h
      cases ys with
      | nil => simp [FixedWidth.little] at h
      | cons y ys =>
          rw [List.forall_mem_cons] at hx hy
          rw [List.flatMap_cons, List.flatMap_cons] at h
          obtain ⟨hfirst, hrest⟩ := List.append_inj h (by simp)
          have hvalue := congrArg FixedWidth.value hfirst
          rw [FixedWidth.value_little _ _ (by omega), FixedWidth.value_little _ _ (by omega)] at hvalue
          rw [ih hx.2 hy.2 hrest, show x = y by omega]

theorem asciiBytes_eq_ok {s : String} {ascii : Bytes} :
    asciiBytes s = .ok ascii ↔ (∀ c ∈ s.toList, c.toNat < 128) ∧
      ascii = s.toList.map fun c => UInt8.ofNat c.toNat := by
  have hall : s.toList.all (fun c => decide (c.toNat < 128)) = true ↔ ∀ c ∈ s.toList, c.toNat < 128 := by simp
  unfold asciiBytes
  by_cases h : ∀ c ∈ s.toList, c.toNat < 128
  · rw [if_pos (hall.mpr h), Except.ok.injEq, eq_comm]
    exact ⟨fun heq => ⟨h, heq⟩, fun heq => heq.2⟩
  · rw [if_neg (mt hall.mp h)]
    exact ⟨(nomatch ·), fun heq => absurd heq.1 h⟩

@[simp] theorem asciiBytes_empty : asciiBytes "" = .ok [] := asciiBytes_eq_ok.mpr (by simp)

theorem ascii_inj {xs : List Char} (hx : ∀ c ∈ xs, c.toNat < 128) :
    ∀ {ys : List Char}, (∀ c ∈ ys, c.toNat < 128) →
      (xs.map fun c => UInt8.ofNat c.toNat) = (ys.map fun c => UInt8.ofNat c.toNat) → xs = ys := by
  induction xs with
  | nil =>
      intro ys _ h
      exact (List.map_eq_nil_iff.mp h.symm).symm
  | cons x xs ih =>
      intro ys hy h
      cases ys with
      | nil => cases h
      | cons y ys =>
          rw [List.forall_mem_cons] at hx hy
          rw [List.map_cons, List.map_cons, List.cons.injEq] at h
          have hbyte : (UInt8.ofNat x.toNat).toNat = (UInt8.ofNat y.toNat).toNat := by rw [h.1]
          rw [UInt8.toNat_ofNat', UInt8.toNat_ofNat'] at hbyte
          have hchar : x = y := Char.toNat_inj.mp (by omega)
          rw [ih hx.2 hy.2 h.2, hchar]

theorem asciiBytes_inj {s t : String} {ascii : Bytes} (hs : asciiBytes s = .ok ascii)
    (ht : asciiBytes t = .ok ascii) : s = t := by
  rw [asciiBytes_eq_ok] at hs ht
  exact String.toList_inj.mp (ascii_inj hs.1 ht.1 (hs.2.symm.trans ht.2))

theorem ZeroFree.ascii {s : String} (h : ZeroFree s) {ascii : Bytes} (hs : asciiBytes s = .ok ascii) :
    (0 : UInt8) ∉ ascii := by
  rw [asciiBytes_eq_ok] at hs
  intro hmem
  rw [hs.2] at hmem
  obtain ⟨c, hc, hzero⟩ := List.mem_map.mp hmem
  have hbyte : (UInt8.ofNat c.toNat).toNat = 0 := by
    rw [hzero]
    rfl
  rw [UInt8.toNat_ofNat'] at hbyte
  have hsmall := hs.1 c hc
  exact h c hc (by omega)

/-- A string without zeros that is followed by one can be told from what comes behind. -/
theorem zero_ended_inj {xs ys us vs : Bytes} (hx : (0 : UInt8) ∉ xs) (hy : (0 : UInt8) ∉ ys)
    (h : xs ++ [0] ++ us = ys ++ [0] ++ vs) : xs = ys ∧ us = vs := by
  induction xs generalizing ys with
  | nil =>
      cases ys with
      | nil => exact ⟨rfl, by simpa using h⟩
      | cons y ys =>
          simp only [List.nil_append, List.cons_append, List.cons.injEq] at h
          exact absurd (h.1 ▸ List.mem_cons_self) hy
  | cons x xs ih =>
      cases ys with
      | nil =>
          simp only [List.nil_append, List.cons_append, List.cons.injEq] at h
          exact absurd (h.1 ▸ List.mem_cons_self) hx
      | cons y ys =>
          simp only [List.cons_append, List.cons.injEq] at h
          obtain ⟨hxs, hus⟩ := ih (fun hmem => hx (List.mem_cons_of_mem _ hmem))
            (fun hmem => hy (List.mem_cons_of_mem _ hmem)) (by simpa using h.2)
          exact ⟨by rw [h.1, hxs], hus⟩

theorem TokenPrefix.digest_eq_ok {p : TokenPrefix} {d : Digest} :
    p.digest = .ok d ↔ ∃ packed ascii, packU32 p.tokens "token_ids" = .ok packed ∧
      p.count ≤ p.tokens.length ∧ asciiBytes p.salt = .ok ascii ∧
        d = prefixDigest packed ascii p.count :=
  contextPrefixDigest_eq_ok

/-- Without a collision the digest names the salt and the tokens. -/
theorem TokenPrefix.digest_inj {W : Set Bytes} (hinj : Set.InjOn sha256 W) {p q : TokenPrefix}
    (hp : p.hashed ⊆ W) (hq : q.hashed ⊆ W) (hpz : ZeroFree p.salt) (hqz : ZeroFree q.salt) {d : Digest}
    (hpd : p.digest = .ok d) (hqd : q.digest = .ok d) :
    p.salt = q.salt ∧ p.tokens.take p.count = q.tokens.take q.count ∧ p.count = q.count := by
  rw [digest_eq_ok] at hpd hqd
  obtain ⟨packed, ascii, hpacked, hcount, hascii, rfl⟩ := hpd
  obtain ⟨packed', ascii', hpacked', hcount', hascii', hsame⟩ := hqd
  have hhashed := hinj (hp ⟨packed, ascii, hpacked, hascii, rfl⟩)
    (hq ⟨packed', ascii', hpacked', hascii', rfl⟩) hsame
  obtain ⟨hsalt, htaken⟩ := zero_ended_inj (hpz.ascii hascii) (hqz.ascii hascii') hhashed
  rw [packU32_eq_ok] at hpacked hpacked'
  rw [hpacked.2, hpacked'.2, take_packed, take_packed] at htaken
  have htokens := packed_inj (fun v hv => hpacked.1 v (List.mem_of_mem_take hv))
    (fun v hv => hpacked'.1 v (List.mem_of_mem_take hv)) htaken
  refine ⟨asciiBytes_inj hascii (hsalt ▸ hascii'), htokens, ?_⟩
  have hlength := congrArg List.length htokens
  rw [List.length_take, List.length_take] at hlength
  omega

/-- The digest depends on nothing else. -/
theorem TokenPrefix.digest_congr {p q : TokenPrefix} {d e : Digest} (hsalt : p.salt = q.salt)
    (hcount : p.count = q.count) (htokens : p.tokens.take p.count = q.tokens.take p.count)
    (hp : p.digest = .ok d) (hq : q.digest = .ok e) : d = e := by
  rw [digest_eq_ok] at hp hq
  obtain ⟨packed, ascii, hpacked, -, hascii, rfl⟩ := hp
  obtain ⟨packed', ascii', hpacked', -, hascii', rfl⟩ := hq
  rw [hsalt, hascii'] at hascii
  cases hascii
  rw [packU32_eq_ok] at hpacked hpacked'
  rw [prefixDigest, prefixDigest, hpacked.2, hpacked'.2, take_packed, take_packed, ← hcount, htokens]

end SparkCache.Store
