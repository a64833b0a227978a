import SparkCache.Store.PrefixAliases

/-!
# What is visible

A publication may stop after any number of steps. Its root is linked last, so
a root that is there is there with everything that it names.
-/
namespace SparkCache.Store

open Files Files.FileM Json Pages

/-! ## Frames -/

/-- At most one file is new, and it holds the bytes. -/
def Links (path : Path) (payload : Bytes) (before after : Disk) : Prop :=
  ∀ p, after.lookup p = before.lookup p ∨ p = path ∧ before.lookup p = none ∧ after.lookup p = some payload

theorem Links.refl (path : Path) (payload : Bytes) (files : Disk) : Links path payload files files :=
  fun _ => Or.inl rfl

theorem Links.trans (path : Path) (payload : Bytes) (f g h : Disk) (hfg : Links path payload f g)
    (hgh : Links path payload g h) : Links path payload f h := by
  intro p
  rcases hgh p with hp | ⟨rfl, hnone, hfile⟩
  · rw [hp]
    exact hfg p
  · rcases hfg p with hp | ⟨-, -, hp⟩
    · exact Or.inr ⟨rfl, hp ▸ hnone, hfile⟩
    · rw [hp] at hnone
      cases hnone

theorem publishImmutable_links (path : Path) (payload : Bytes) :
    Moves (Links path payload) (publishImmutable path payload) := by
  refine publishImmutable_moves (Links.refl _ _) (Links.trans _ _) fun files hnone p => ?_
  by_cases hp : p = path
  · subst hp
    exact Or.inr ⟨rfl, hnone, AList.lookup_insert _⟩
  · exact Or.inl (AList.lookup_insert_ne hp)

/-- The roots are as they were. -/
def SameRoots (before after : Disk) : Prop := ∀ p, p.isRoot = true → after.lookup p = before.lookup p

theorem SameRoots.refl (files : Disk) : SameRoots files files := fun _ _ => rfl

theorem SameRoots.trans (f g h : Disk) (hfg : SameRoots f g) (hgh : SameRoots g h) : SameRoots f h :=
  fun p hp => (hgh p hp).trans (hfg p hp)

theorem publishImmutableBatch_sameRoots {objects : List (Path × Bytes)}
    (h : ∀ o ∈ objects, o.1.isRoot = false) : Moves SameRoots (publishImmutableBatch objects) := by
  intro w p hp
  refine publishImmutableBatch_fixes (fun o ho heq => ?_) w
  rw [← heq, h o ho] at hp
  cases hp

theorem publishDescriptorChain_sameRoots (storageKey : Digest) (ds : List ChunkDescriptor) :
    Moves SameRoots (publishDescriptorChain storageKey ds) := by
  unfold publishDescriptorChain
  intro w
  refine Moves.lift_bind SameRoots.refl fun segments _ => ?_
  refine Moves.bind SameRoots.trans (publishImmutableBatch_sameRoots ?_) fun _ =>
    Moves.pure SameRoots.refl _
  intro o ho
  obtain ⟨e, -, rfl⟩ := List.mem_map.mp ho
  rfl

theorem publishDescriptorChain_triple {files : Disk} (storageKey : Digest) (ds : List ChunkDescriptor) :
    Triple (SameRoots files) (publishDescriptorChain storageKey ds)
      (fun segments after => SameRoots files after ∧
        chainSegments storageKey ds (segmentCount ds.length) = .ok segments ∧
        Stored after storageKey segments) (SameRoots files) := by
  refine Triple.of_moves (publishDescriptorChain_sameRoots storageKey ds) ?_
    fun before after => SameRoots.trans _ _ _
  intro w segments w' hw h
  have hmove := publishDescriptorChain_sameRoots storageKey ds w
  rw [h] at hmove
  obtain ⟨hchain, -, hstored⟩ := publishDescriptorChain_eq_ok h
  exact ⟨hw.trans _ _ _ hmove, hchain, hstored⟩

/-- A root that is linked is the only one that is new. -/
theorem Links.root {path : Path} {payload : Bytes} {f g k : Disk} (hpath : path.isRoot = true)
    (hsame : SameRoots f g) (h : Links path payload g k) :
    (∀ p, p.isRoot = false → k.lookup p = g.lookup p) ∧
      (SameRoots f k ∨ k.lookup path = some payload ∧
        ∀ p, p.isRoot = true → p ≠ path → k.lookup p = f.lookup p) := by
  have hother : ∀ p, p ≠ path → k.lookup p = g.lookup p := fun p hp =>
    (h p).resolve_right fun hnew => hp hnew.1
  refine ⟨fun p hp => hother p (by rintro rfl; rw [hpath] at hp; cases hp), ?_⟩
  rcases h path with hold | ⟨-, -, hfile⟩
  · refine Or.inl fun p hp => ?_
    by_cases heq : p = path
    · rw [heq, hold]
      exact hsame path hpath
    · rw [hother p heq]
      exact hsame p hp
  · exact Or.inr ⟨hfile, fun p hp heq => (hother p heq).trans (hsame p hp)⟩

/-- A root is published, and whether it is there or not, nothing else has changed. -/
theorem publishImmutable_triple {path : Path} {payload : Bytes}
    {P : Disk → Prop} {E : Disk → Prop} (hends : ∀ f g, P f → Links path payload f g → E g) :
    Triple P (publishImmutable path payload) (fun _ => E) E := by
  refine Triple.of_moves (publishImmutable_links path payload) ?_ hends
  intro w _ w' hw h
  have hmove := publishImmutable_links path payload w
  rw [h] at hmove
  exact hends _ _ hw hmove

/-- Everything that the root of an extension names is there. -/
structure ExtensionReady (plan : ExtensionPlan) (segments : List Bytes) (before now : Disk) : Prop where
  same : SameRoots before now
  chain : chainSegments plan.storageKey plan.baseDescriptors (segmentCount plan.baseDescriptors.length) =
    .ok segments
  stored : Stored now plan.storageKey segments
  objects : ∀ o ∈ plan.tailObjects, now.lookup o.1 = some o.2

/-- The root of an extension is there, with everything that it names. -/
structure VisibleExtension (i : CacheIdentity) (base : Digest) (plan : ExtensionPlan)
    (segments : List Bytes) (root : Bytes) (before after : Disk) : Prop where
  chain : chainSegments plan.storageKey plan.baseDescriptors (segmentCount plan.baseDescriptors.length) =
    .ok segments
  encoded : encodeTailRoot i base plan (chainRoot segments) = .ok root
  stored : Stored after plan.storageKey segments
  objects : ∀ o ∈ plan.tailObjects, after.lookup o.1 = some o.2
  file : after.lookup (.manifest plan.storageKey plan.resultDigest) = some root
  same : ∀ p, p.isRoot = true → p ≠ .manifest plan.storageKey plan.resultDigest →
    after.lookup p = before.lookup p

theorem ExtensionPlan.tailObjects_root (plan : ExtensionPlan) : ∀ o ∈ plan.tailObjects, o.1.isRoot = false := by
  intro o ho
  obtain ⟨planned, -, rfl⟩ := List.mem_map.mp ho
  rfl

theorem ExtensionReady.links {i : CacheIdentity} {base : Digest} {plan : ExtensionPlan}
    {segments : List Bytes} {root : Bytes} {f g k : Disk} (h : ExtensionReady plan segments f g)
    (hroot : encodeTailRoot i base plan (chainRoot segments) = .ok root)
    (hlinks : Links (.manifest plan.storageKey plan.resultDigest) root g k) :
    SameRoots f k ∨ VisibleExtension i base plan segments root f k := by
  obtain ⟨hkept, hends⟩ := hlinks.root rfl h.same
  refine hends.imp_right fun hnew => ⟨h.chain, hroot, fun e he => ?_, fun o ho => ?_, hnew.1, hnew.2⟩
  · exact (hkept _ rfl).trans (h.stored e he)
  · exact (hkept _ (plan.tailObjects_root o ho)).trans (h.objects o ho)

/-- The objects of the tail leave the segments where they are. -/
theorem publishTail_triple (plan : ExtensionPlan) (segments : List Bytes) (files : Disk) :
    Triple (fun now => SameRoots files now ∧
        chainSegments plan.storageKey plan.baseDescriptors (segmentCount plan.baseDescriptors.length) =
          .ok segments ∧ Stored now plan.storageKey segments)
      (publishImmutableBatch plan.tailObjects) (fun _ => ExtensionReady plan segments files)
      (SameRoots files) := by
  have hmoves := publishImmutableBatch_sameRoots plan.tailObjects_root
  refine Triple.of_moves hmoves ?_ fun before after h hmove => h.1.trans _ _ _ hmove
  intro w _ w' h hpublish
  have hmove := hmoves w
  rw [hpublish] at hmove
  obtain ⟨hobjects, hframe⟩ := publishImmutableBatch_eq_ok hpublish
  refine ⟨h.1.trans _ _ _ hmove, h.2.1, fun e he => ?_, hobjects⟩
  rw [hframe _ ?_]
  · exact h.2.2 e he
  · intro hmem
    obtain ⟨o, ho, hpath⟩ := List.mem_map.mp hmem
    obtain ⟨o', -, rfl⟩ := List.mem_map.mp ho
    cases hpath

/-- Wherever an extension stops, its root is there only with everything that it names. -/
theorem publishExtension_ends (i : CacheIdentity) (base : Digest) (plan : ExtensionPlan)
    (w : World Path Bytes) :
    SameRoots w.files (publishExtension i base plan w).2.files ∨
      ∃ segments root, VisibleExtension i base plan segments root w.files
        (publishExtension i base plan w).2.files := by
  let E : Disk → Prop := fun after => SameRoots w.files after ∨
    ∃ segments root, VisibleExtension i base plan segments root w.files after
  have hleft : ∀ files, SameRoots w.files files → E files := fun _ h => Or.inl h
  have htriple : Triple (SameRoots w.files) (publishExtension i base plan) (fun _ => E) E := by
    refine Triple.bind ((publishDescriptorChain_triple _ _).weaken hleft) fun segments => ?_
    refine Triple.bind ((publishTail_triple plan segments w.files).weaken hleft) fun _ => ?_
    refine Triple.bind (Triple.lift (Q := fun root now => ExtensionReady plan segments w.files now ∧
      encodeTailRoot i base plan (chainRoot segments) = .ok root)
      (fun root hroot files h => ⟨h, hroot⟩) fun files h => hleft files h.same) fun root => ?_
    refine Triple.bind (publishImmutable_triple ?_) fun _ => Triple.pure _ fun _ h => h
    exact fun f g h hlinks => (h.1.links h.2 hlinks).imp_right fun hv => ⟨segments, root, hv⟩
  exact htriple.ends (SameRoots.refl w.files)

theorem commitExtension_ends (i : CacheIdentity) (call : ExtensionCall) (w : World Path Bytes) :
    SameRoots w.files (commitExtension i call w).2.files ∨
      ∃ plan segments root, planExtension w.files i call = .ok plan ∧
        VisibleExtension i call.base plan segments root w.files (commitExtension i call w).2.files := by
  unfold commitExtension
  rw [FileM.bind_apply, andThen, view_apply]
  show SameRoots w.files ((lift (planExtension w.files i call) >>= _) w).2.files ∨ _
  cases hplan : planExtension w.files i call with
  | error e => exact Or.inl (SameRoots.refl w.files)
  | ok plan =>
      apply (publishExtension_ends i call.base plan w).imp_right
      intro hends
      obtain ⟨segments, root, hv⟩ := hends
      exact ⟨plan, segments, root, rfl, hv⟩

/-! ## Aliases -/

/-- What the loop over the aliases may change: an alias of a target appears with its file. -/
def AliasesAdded (i : CacheIdentity) (plan : AliasPlan) (segments : List Bytes) (before after : Disk) :
    Prop :=
  ∀ p, after.lookup p = before.lookup p ∨ ∃ t ∈ plan.targets, ∃ encoded,
    p = .prefixAlias plan.storageKey t.contextDigest ∧ encodeAlias i plan segments t = .ok encoded ∧
      after.lookup p = some encoded

theorem AliasesAdded.refl (i : CacheIdentity) (plan : AliasPlan) (segments : List Bytes) (files : Disk) :
    AliasesAdded i plan segments files files :=
  fun _ => Or.inl rfl

theorem AliasesAdded.trans (i : CacheIdentity) (plan : AliasPlan) (segments : List Bytes) (f g h : Disk)
    (hfg : AliasesAdded i plan segments f g) (hgh : AliasesAdded i plan segments g h) :
    AliasesAdded i plan segments f h := by
  intro p
  rcases hgh p with hp | hp
  · rw [hp]
    exact hfg p
  · exact Or.inr hp

theorem publishTargets_added (i : CacheIdentity) (plan : AliasPlan) (segments : List Bytes)
    {targets : List AliasTarget} (h : ∀ t ∈ targets, t ∈ plan.targets) :
    Moves (AliasesAdded i plan segments) (publishTargets i plan segments targets) := by
  induction targets with
  | nil => exact Moves.pure (AliasesAdded.refl i plan segments) ()
  | cons target rest ih =>
      rw [List.forall_mem_cons] at h
      intro w
      refine Moves.lift_bind (AliasesAdded.refl i plan segments) fun encoded hencoded => ?_
      refine Moves.bind (AliasesAdded.trans i plan segments) ?_ fun _ => ih h.2
      intro w₁ p
      refine (publishImmutable_links _ _ w₁ p).imp_right fun hnew => ?_
      exact ⟨target, h.1, encoded, hnew.1, hencoded, hnew.2.2⟩

/-- The aliases that are there are old, or they are there with everything that they name. -/
structure VisibleAliases (i : CacheIdentity) (plan : AliasPlan) (segments : List Bytes)
    (before after : Disk) : Prop where
  chain : chainSegments plan.storageKey plan.descriptors (segmentCount plan.maximumChunks) = .ok segments
  stored : Stored after plan.storageKey segments
  files : ∀ p, p.isRoot = true → after.lookup p = before.lookup p ∨ ∃ t ∈ plan.targets, ∃ encoded,
    p = .prefixAlias plan.storageKey t.contextDigest ∧ encodeAlias i plan segments t = .ok encoded ∧
      after.lookup p = some encoded

theorem AliasesAdded.visible {i : CacheIdentity} {plan : AliasPlan} {segments : List Bytes} {f g k : Disk}
    (hsame : SameRoots f g)
    (hchain : chainSegments plan.storageKey plan.descriptors (segmentCount plan.maximumChunks) = .ok segments)
    (hstored : Stored g plan.storageKey segments) (h : AliasesAdded i plan segments g k) :
    VisibleAliases i plan segments f k := by
  refine ⟨hchain, fun e he => ?_, fun p hp => ?_⟩
  · rcases h (.prefixSegment plan.storageKey (sha256 e)) with hold | ⟨t, -, encoded, hpath, -⟩
    · exact hold.trans (hstored e he)
    · cases hpath
  · refine (h p).imp_left fun hold => hold.trans (hsame p hp)

/-- Wherever a publication of aliases stops, an alias is there only with everything that it names. -/
theorem publishPrefixAliases_ends (i : CacheIdentity) (call : AliasCall) (w : World Path Bytes) :
    SameRoots w.files (publishPrefixAliases i call w).2.files ∨
      ∃ plan segments, planAliases w.files i call = .ok plan ∧
        VisibleAliases i plan segments w.files (publishPrefixAliases i call w).2.files := by
  let E : Disk → Prop := fun after => SameRoots w.files after ∨
    ∃ plan segments, planAliases w.files i call = .ok plan ∧
      VisibleAliases i plan segments w.files after
  have hleft : ∀ files, SameRoots w.files files → E files := fun _ h => Or.inl h
  have htriple : Triple (fun files => files = w.files) (publishPrefixAliases i call) (fun _ => E) E := by
    refine Triple.bind (Q := fun planned files => files = w.files ∧ planned = planAliases w.files i call)
      ?_ fun planned => ?_
    · rintro ⟨files, steps⟩ rfl
      exact ⟨rfl, rfl⟩
    refine Triple.bind (Triple.lift (Q := fun plan files => SameRoots w.files files ∧
      planAliases w.files i call = .ok plan) ?_ ?_) fun plan => ?_
    · rintro plan rfl files ⟨rfl, hplan⟩
      exact ⟨SameRoots.refl _, hplan.symm⟩
    · rintro files ⟨rfl, -⟩
      exact hleft _ (SameRoots.refl _)
    refine Triple.bind (Triple.lift (Q := fun segments files => SameRoots w.files files ∧
      planAliases w.files i call = .ok plan ∧ chainSegments plan.storageKey plan.descriptors
        (segmentCount plan.maximumChunks) = .ok segments)
      (fun segments hchain files h => ⟨h.1, h.2, hchain⟩) fun files h => hleft files h.1) fun segments => ?_
    have hroots : ∀ o ∈ segments.map (segmentObject plan.storageKey), o.1.isRoot = false := by
      intro o ho
      obtain ⟨e, -, rfl⟩ := List.mem_map.mp ho
      rfl
    have hmoves := publishImmutableBatch_sameRoots hroots
    refine Triple.bind (Q := fun _ files => SameRoots w.files files ∧
      planAliases w.files i call = .ok plan ∧ chainSegments plan.storageKey plan.descriptors
        (segmentCount plan.maximumChunks) = .ok segments ∧ Stored files plan.storageKey segments)
      (Triple.of_moves hmoves ?_ fun before after h hmove => hleft _ (h.1.trans _ _ _ hmove)) fun _ => ?_
    · intro w₁ _ w₂ h hpublish
      have hmove := hmoves w₁
      rw [hpublish] at hmove
      refine ⟨h.1.trans _ _ _ hmove, h.2.1, h.2.2, fun e he => ?_⟩
      exact (publishImmutableBatch_eq_ok hpublish).1 (segmentObject plan.storageKey e)
        (List.mem_map_of_mem he)
    have hadded := publishTargets_added i plan segments fun t ht => ht
    have hends : ∀ f g, (SameRoots w.files f ∧ planAliases w.files i call = .ok plan ∧
        chainSegments plan.storageKey plan.descriptors (segmentCount plan.maximumChunks) = .ok segments ∧
        Stored f plan.storageKey segments) → AliasesAdded i plan segments f g → E g :=
      fun f g h hmove => Or.inr ⟨plan, segments, h.2.1, hmove.visible h.1 h.2.2.1 h.2.2.2⟩
    refine Triple.bind (Triple.of_moves hadded ?_ hends) fun _ => Triple.pure _ fun _ h => h
    intro w₁ _ w₂ h hpublish
    have hmove := hadded w₁
    rw [hpublish] at hmove
    exact hends _ _ h hmove
  exact htriple.ends rfl

/-- A publication of aliases leaves every exact root as it was. -/
theorem publishPrefixAliases_manifest (i : CacheIdentity) (call : AliasCall) (w : World Path Bytes)
    (storageKey contextDigest : Digest) :
    (publishPrefixAliases i call w).2.files.lookup (.manifest storageKey contextDigest) =
      w.files.lookup (.manifest storageKey contextDigest) := by
  rcases publishPrefixAliases_ends i call w with hsame | ⟨plan, segments, -, hvisible⟩
  · exact hsame _ rfl
  · rcases hvisible.files (.manifest storageKey contextDigest) rfl with hold | ⟨t, -, encoded, hpath, -⟩
    · exact hold
    · cases hpath

/-! ## Manifests -/

/-- Wherever a commit stops, nothing but its manifest has changed. -/
theorem commitManifest_ends (tx : Transaction) (w : World Path Bytes) :
    (commitManifest tx w).2.2.files = w.files ∨ ∃ path encoded, planCommit tx = .ok (path, encoded) ∧
      Links path encoded w.files (commitManifest tx w).2.2.files := by
  unfold commitManifest
  split
  · exact Or.inl rfl
  · cases hplan : planCommit tx with
    | error e => exact Or.inl rfl
    | ok planned =>
        obtain ⟨path, encoded⟩ := planned
        refine Or.inr ⟨path, encoded, rfl, ?_⟩
        have hlinks := publishImmutable_links path encoded w
        cases hpublish : publishImmutable path encoded w with
        | mk r w' =>
            rw [hpublish] at hlinks
            cases r with
            | error e =>
                simp only [hpublish]
                exact hlinks
            | ok u =>
                simp only [hpublish]
                exact hlinks

/-- A commit leaves the roots of other contexts as they were. -/
theorem commitManifest_other (tx : Transaction) (w : World Path Bytes) {path : Path}
    (hpath : ∀ storageKey, path ≠ .manifest storageKey tx.contextDigest) :
    (commitManifest tx w).2.2.files.lookup path = w.files.lookup path := by
  rcases commitManifest_ends tx w with hsame | ⟨planned, encoded, hplan, hlinks⟩
  · rw [hsame]
  · obtain ⟨-, -, -, -, storageKey, -, rfl⟩ := planCommit_eq_ok.mp hplan
    exact (hlinks path).resolve_right fun hnew => hpath storageKey hnew.1

theorem appendStep_grows (s : Session) (call : AppendCall) : Grows s.2 (appendStep s call).2 := by
  unfold appendStep appendChunks
  cases hplan : planAppend s.1 call.chunks with
  | error e => exact Grows.refl _
  | ok plan =>
      have hmove := publishImmutableBatch_grows (planAppend_objects hplan) ⟨s.2, call.steps⟩
      cases hpublish : publishImmutableBatch plan.objects ⟨s.2, call.steps⟩ with
      | mk r w =>
          rw [hpublish] at hmove
          cases r with
          | error e =>
              simp only [hpublish]
              exact hmove
          | ok u =>
              simp only [hpublish]
              exact hmove

theorem commitManifest_grows (tx : Transaction) (w : World Path Bytes) :
    Grows w.files (commitManifest tx w).2.2.files := by
  unfold commitManifest
  split
  · exact Grows.refl _
  · split
    · exact Grows.refl _
    · rename_i path encoded _
      have hmove := publishImmutable_grows path encoded w
      cases hpublish : publishImmutable path encoded w with
      | mk r w' =>
          rw [hpublish] at hmove
          cases r with
          | error e =>
              simp only
              exact hmove
          | ok u =>
              simp only
              exact hmove

/-! ## Whole contexts -/

/-- The transaction of a whole context before its commit. -/
def wholeSession (i : CacheIdentity) (files : Disk) (context : Digest) (span : Option ℕ)
    (batches : List AppendCall) : Session :=
  Run.exec appendStep (beginTransaction i context span, files) batches

def commitWhole (i : CacheIdentity) (files : Disk) (context : Digest) (span : Option ℕ)
    (batches : List AppendCall) (steps : Option ℕ) : Except StoreError CommitReceipt × Disk :=
  let session := wholeSession i files context span batches
  let (result, _, w) := commitManifest session.1 ⟨session.2, steps⟩
  (result, w.files)

theorem run_grows (calls : List AppendCall) (s : Session) : Grows s.2 (Run.exec appendStep s calls).2 := by
  induction calls generalizing s with
  | nil => exact Grows.refl _
  | cons call rest ih =>
      rw [Run.exec_cons]
      exact Grows.trans _ _ _ (appendStep_grows s call) (ih _)

theorem commitWhole_grows (i : CacheIdentity) (files : Disk) (context : Digest) (span : Option ℕ)
    (batches : List AppendCall) (steps : Option ℕ) :
    Grows files (commitWhole i files context span batches steps).2 := by
  have hsession := run_grows batches (beginTransaction i context span, files)
  exact hsession.trans _ _ _ (commitManifest_grows _ ⟨_, steps⟩)

theorem wholeSession_context (i : CacheIdentity) (files : Disk) (context : Digest) (span : Option ℕ)
    {batches : List AppendCall} (hinj : Set.InjOn sha256 (encodings batches)) :
    (wholeSession i files context span batches).1.contextDigest = context := by
  obtain ⟨chunks, hholds, -⟩ := (Session.holds_begin i context span files (encodings batches)).run
    hinj batches fun call hcall c hc encoded hencoded => ⟨call, hcall, c, hc, hencoded⟩
  rw [wholeSession, hholds.same]
  rfl

/-- The chunks of a whole context, and where its commit may have stopped. -/
theorem commitWhole_ends (i : CacheIdentity) (files : Disk) (context : Digest) (span : Option ℕ)
    {batches : List AppendCall} (hinj : Set.InjOn sha256 (encodings batches)) (steps : Option ℕ) :
    ∃ chunks, ContiguousChunks 0 chunks (wholeSession i files context span batches).1.expectedStart ∧
      (SameRoots files (commitWhole i files context span batches steps).2 ∨
        ∃ storageKey encoded, i.view.storageKey = .ok storageKey ∧
          planCommit (wholeSession i files context span batches).1 =
            .ok (.manifest storageKey context, encoded) ∧
          (∀ mode, Serves (commitWhole i files context span batches steps).2 i context mode chunks) ∧
          ∀ p, p.isRoot = true → p ≠ .manifest storageKey context →
            (commitWhole i files context span batches steps).2.lookup p = files.lookup p) ∧
      ∀ receipt, (commitWhole i files context span batches steps).1 = .ok receipt →
        receipt.committedTokens = (wholeSession i files context span batches).1.expectedStart ∧
        ∀ mode, Serves (commitWhole i files context span batches steps).2 i context mode chunks := by
  obtain ⟨chunks, hholds, -⟩ := (Session.holds_begin i context span files (encodings batches)).run
    hinj batches fun call hcall c hc encoded hencoded => ⟨call, hcall, c, hc, hencoded⟩
  have hholds : Session.Holds (beginTransaction i context span) (encodings batches)
      (wholeSession i files context span batches) chunks := hholds
  have hopen : (wholeSession i files context span batches).1.state = .isOpen := by
    rw [hholds.same]
    rfl
  have hsame : SameRoots files (wholeSession i files context span batches).2 :=
    fun p hp => run_root hp batches _
  have hplanned : ∀ path encoded,
      planCommit (wholeSession i files context span batches).1 = .ok (path, encoded) →
      ∃ storageKey, i.view.storageKey = .ok storageKey ∧ path = .manifest storageKey context := by
    intro path encoded hplan
    obtain ⟨-, -, -, -, storageKey, hkey, hpath⟩ := planCommit_eq_ok.mp hplan
    rw [show (wholeSession i files context span batches).1.identity = i by rw [hholds.same]; rfl] at hkey
    rw [show (wholeSession i files context span batches).1.contextDigest = context by
      rw [hholds.same]; rfl] at hpath
    exact ⟨storageKey, hkey, hpath⟩
  have hends := commitManifest_ends (wholeSession i files context span batches).1
    ⟨(wholeSession i files context span batches).2, steps⟩
  refine ⟨chunks, hholds.covers.contiguous hholds.described, ?_, ?_⟩
  · rcases hends with hnone | ⟨path, encoded, hplan, hlinks⟩
    · refine Or.inl fun p hp => ?_
      rw [show (commitWhole i files context span batches steps).2 = _ from hnone]
      exact hsame p hp
    · obtain ⟨storageKey, hkey, rfl⟩ := hplanned path encoded hplan
      obtain ⟨hkept, hold | ⟨hfile, hother⟩⟩ := hlinks.root rfl hsame
      · exact Or.inl hold
      · exact Or.inr ⟨storageKey, encoded, hkey, hplan,
          hholds.serves_of_root hplan hfile hkept, hother⟩
  · intro receipt hreceipt
    cases hcommit : commitManifest (wholeSession i files context span batches).1
        ⟨(wholeSession i files context span batches).2, steps⟩ with
    | mk result rest =>
        obtain ⟨tx, w⟩ := rest
        unfold commitWhole at hreceipt ⊢
        simp only [hcommit] at hreceipt ⊢
        subst hreceipt
        obtain ⟨path, encoded, hplan, rfl, hpublish⟩ := commitManifest_eq_ok hopen hcommit
        exact ⟨rfl, hholds.serves rfl hplan hpublish⟩

/-- A whole context leaves the roots of other contexts as they were. -/
theorem commitWhole_other {i : CacheIdentity} {files : Disk} {context : Digest} {span : Option ℕ}
    {batches : List AppendCall} (hinj : Set.InjOn sha256 (encodings batches)) (steps : Option ℕ) {path : Path}
    (hroot : path.isRoot = true) (hpath : ∀ storageKey, path ≠ .manifest storageKey context) :
    (commitWhole i files context span batches steps).2.lookup path = files.lookup path := by
  obtain ⟨-, -, hsame | ⟨storageKey, _, -, -, -, hother⟩, -⟩ :=
    commitWhole_ends i files context span hinj steps
  · exact hsame path hroot
  · exact hother path hroot (hpath storageKey)

/-- A context whose checks pass is committed under a fresh key, and is served by its rows. -/
theorem commitWhole_served {i : CacheIdentity} {context : Digest} {span : Option ℕ} {chunks : List ContextChunk}
    (hinj : Set.InjOn sha256 (encodings [⟨chunks, none⟩])) {tx : Transaction} {path : Path} {encoded : Bytes}
    (hplan : planWhole i context span chunks = .ok (tx, path, encoded)) {files : Disk}
    (hfresh : files.lookup path = none) :
    (wholeSession i files context span [⟨chunks, none⟩]).1 = tx ∧
      (commitWhole i files context span [⟨chunks, none⟩] none).1 = .ok (commitReceipt tx encoded) ∧
      ∃ h all, ServedRows (commitWhole i files context span [⟨chunks, none⟩] none).2 i context .other h
        tx.manifest all := by
  obtain ⟨htx, tx', w', h, all, hcommit, -, hserved, -⟩ := planWhole_served hinj
    (fun c hc encoded hencoded => ⟨_, List.mem_singleton.mpr rfl, c, hc, hencoded⟩) hplan hfresh
  have hsession : wholeSession i files context span [⟨chunks, none⟩] =
      appendStep (beginTransaction i context span, files) ⟨chunks, none⟩ := rfl
  unfold commitWhole
  rw [hsession]
  simp only [htx, hcommit]
  exact ⟨trivial, trivial, h, all, hserved⟩

/-! ## What is written -/

theorem Links.adds {path : Path} {payload : Bytes} {f g : Disk} (h : Links path payload f g)
    (hpath : path.isRoot = true) (payloads : Set Bytes) : Adds payloads f g := by
  rintro other ⟨p, hroot, hfile⟩
  rcases h p with hold | ⟨rfl, -, -⟩
  · exact Or.inl ⟨p, hroot, hold ▸ hfile⟩
  · rw [hpath] at hroot
    cases hroot

theorem run_adds {payloads : Set Bytes} (calls : List AppendCall)
    (h : ∀ call ∈ calls, ∀ chunk ∈ call.chunks, ∀ encoded, encodeChunk chunk = .ok encoded →
      encoded ∈ payloads) (s : Session) : Adds payloads s.2 (Run.exec appendStep s calls).2 := by
  induction calls generalizing s with
  | nil => exact Adds.refl _ _
  | cons call rest ih =>
      rw [List.forall_mem_cons] at h
      rw [Run.exec_cons]
      exact Adds.trans _ _ _ _ (appendStep_adds s h.1) (ih h.2 _)

theorem commitManifest_adds (payloads : Set Bytes) (tx : Transaction) (w : World Path Bytes) :
    Adds payloads w.files (commitManifest tx w).2.2.files := by
  rcases commitManifest_ends tx w with hsame | ⟨path, encoded, hplan, hlinks⟩
  · rw [hsame]
    exact Adds.refl _ _
  · obtain ⟨-, -, -, -, storageKey, -, rfl⟩ := planCommit_eq_ok.mp hplan
    exact hlinks.adds rfl _

/-- A whole context writes its chunks under content addresses, and nothing else. -/
theorem commitWhole_adds {i : CacheIdentity} {files : Disk} {context : Digest} {span : Option ℕ}
    {batches : List AppendCall} (steps : Option ℕ) :
    Adds (encodings batches) files (commitWhole i files context span batches steps).2 := by
  have hsession : Adds (encodings batches) files (wholeSession i files context span batches).2 :=
    run_adds batches (fun call hcall chunk hchunk encoded hencoded =>
      show ∃ call ∈ batches, _ from ⟨call, hcall, chunk, hchunk, hencoded⟩) _
  exact hsession.trans _ _ _ _ (commitManifest_adds _ _ ⟨_, steps⟩)

/-- A publication of aliases writes its segments under content addresses, and nothing else. -/
theorem publishPrefixAliases_adds {payloads : Set Bytes} {i : CacheIdentity} {call : AliasCall}
    {w : World Path Bytes}
    (h : ∀ plan segments, planAliases w.files i call = .ok plan →
      chainSegments plan.storageKey plan.descriptors (segmentCount plan.maximumChunks) = .ok segments →
        ∀ e ∈ segments, e ∈ payloads) :
    Adds payloads w.files (publishPrefixAliases i call w).2.files := by
  unfold publishPrefixAliases
  rw [FileM.bind_apply, andThen, view_apply]
  refine Moves.lift_bind (Adds.refl payloads) fun plan hplan => ?_
  intro w₁
  refine Moves.lift_bind (Adds.refl payloads) fun segments hchain => ?_
  refine Moves.bind (Adds.trans payloads) (publishImmutableBatch_adds ?_) fun _ => ?_
  · intro o ho
    obtain ⟨e, he, rfl⟩ := List.mem_map.mp ho
    exact h plan segments hplan hchain e he
  · refine Moves.bind (Adds.trans payloads) ?_ fun _ => Moves.pure (Adds.refl payloads) _
    intro w₂ payload hpayload
    obtain ⟨p, hroot, hfile⟩ := hpayload
    rcases publishTargets_added i plan segments (fun t ht => ht) w₂ p with hold |
      ⟨t, -, encoded, rfl, -⟩
    · exact Or.inl ⟨p, hroot, hold ▸ hfile⟩
    · cases hroot

end SparkCache.Store
