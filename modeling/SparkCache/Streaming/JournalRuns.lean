import SparkCache.Lib.Run
import SparkCache.Streaming.Journal

/-!
# Runs of snapshot journals

What the lock sections keep: a transaction that was not aborted has appended a prefix of its span, the
views that were lent tile the rest of what was submitted, and every view is lent for a credit.
-/
namespace SparkCache.Streaming
open Tiling

/-- A chunk that the store transaction has. -/
def StoreEvent.chunk : StoreEvent → Option ChunkRange
  | .appendChunk chunk true => some chunk
  | _ => none

def JournalTransaction.appended (t : JournalTransaction) : List ChunkRange := t.events.filterMap StoreEvent.chunk

/-- Nothing is published after an abort, and nothing appended after the store transaction's own. -/
def InOrder (earlier later : StoreEvent) : Prop :=
  (earlier = .journalAborted → ∀ commits, later ≠ .commitManifest commits) ∧
    (earlier = .abort → ∀ chunk appends, later ≠ .appendChunk chunk appends)

namespace WriterPhase

/-- The task that still counts as pending. -/
def task : WriterPhase → Option WriterTask
  | .begin task => some task
  | .translate task _ _ => some task
  | .append task _ _ _ => some task
  | .mark task _ _ => some task
  | .fail task _ => some task
  | .completionDone task _ => some task
  | _ => none

/-- What is left of the batch of a task. -/
def piece : WriterPhase → Option (ℕ × ℕ)
  | .begin task => some (task.batch.logicalStart, task.batch.logicalEnd)
  | .translate task expected _ => some (expected, task.batch.logicalEnd)
  | .append task chunk _ _ => some (chunk.logicalStart, task.batch.logicalEnd)
  | .mark task expected _ => some (expected, task.batch.logicalEnd)
  | .fail task expected => some (expected, task.batch.logicalEnd)
  | _ => none

/-- The completion that is being worked on. -/
def completion : WriterPhase → Option ℕ
  | .releaseCapacity completion _ => some completion
  | .resolve completion _ => some completion
  | phase => phase.task.map WriterTask.completion

/-- A view is borrowed until its credit is given back. -/
def borrowed : WriterPhase → ℕ
  | .idle => 0
  | .resolve _ _ => 0
  | _ => 1

/-- A chunk that is about to be appended lies in its batch. -/
def Bounded : WriterPhase → Prop
  | .append task chunk _ _ => chunk.logicalEnd ≤ task.batch.logicalEnd
  | _ => True

end WriterPhase

namespace JournalWriter

/-- The tasks that are pending, in the order of the executor. -/
def tasks (w : JournalWriter) : List WriterTask := w.phase.task.toList ++ w.queue

/-- What is left of the batches of a transaction that are queued. -/
def queued (w : JournalWriter) (id : ℕ) : List (ℕ × ℕ) :=
  (w.queue.filter fun task => task.transaction = id).map fun task => (task.batch.logicalStart, task.batch.logicalEnd)

/-- What the executor's thread has left of a batch of a transaction. -/
def current (phase : WriterPhase) (id : ℕ) : List (ℕ × ℕ) :=
  if phase.task.any (fun task => task.transaction = id) then phase.piece.toList else []

/-- The completions that are not resolved. -/
def unresolved (w : JournalWriter) : List ℕ := w.phase.completion.toList ++ w.queue.map WriterTask.completion

/-- The views that the writer has borrowed. -/
def outstanding (w : JournalWriter) : ℕ := w.phase.borrowed + w.queue.length

end JournalWriter

/-- A transaction, with the tasks that are pending and what is left of its batches. -/
structure JournalTransaction.Holds (tasks : List WriterTask) (pieces : List (ℕ × ℕ)) (id : ℕ)
    (t : JournalTransaction) : Prop where
  ordered : t.events.Pairwise InOrder
  aborted : t.state = .aborted ↔ .journalAborted ∈ t.events
  finalized : t.abortFinalized = true ↔ .abort ∈ t.events
  settled : t.abortFinalized = true → t.state = .aborted ∧ t.pending = ∅
  pending : ∀ completion, completion ∈ t.pending ↔
    ∃ task ∈ tasks, task.transaction = id ∧ task.completion = completion
  covered : t.state ≠ .aborted → ∃ position,
    Tiles ChunkRange.logicalStart ChunkRange.logicalEnd 0 t.appended position ∧
      Tiles Prod.fst Prod.snd position pieces t.nextSubmitted
  committed : t.state = .committed → t.pending = ∅ ∧ t.nextSubmitted = t.spanTokens

structure JournalWriter.Holds (maxPendingBatches : ℕ) (w : JournalWriter) : Prop where
  transactions : ∀ id t, w.transactions id = some t →
    t.Holds w.tasks (JournalWriter.current w.phase id ++ w.queued id) id
  allocated : ∀ id, w.allocated ≤ id → w.transactions id = none
  known : ∀ task ∈ w.tasks, ∃ t, w.transactions task.transaction = some t
  bounded : w.phase.Bounded
  completions : (w.unresolved ++ w.resolved.map Prod.fst).Perm w.returned
  distinct : w.returned.Nodup
  fresh : ∀ completion ∈ w.returned, completion < w.nextCompletion
  credits : w.capacity + w.outstanding = maxPendingBatches

/-! ## One transaction -/

namespace JournalTransaction
variable {tasks : List WriterTask} {pieces : List (ℕ × ℕ)} {id : ℕ} {t : JournalTransaction}

theorem appended_record (t : JournalTransaction) (event : StoreEvent) :
    (t.record event).appended = t.appended ++ event.chunk.toList := by
  rw [appended, record, List.filterMap_append, appended]
  cases hchunk : event.chunk with
  | none => simp [hchunk]
  | some chunk => simp [hchunk]

/-- An event that may follow all others. -/
theorem pairwise_record (h : t.events.Pairwise InOrder) (event : StoreEvent)
    (hevent : ∀ earlier ∈ t.events, InOrder earlier event) : (t.record event).events.Pairwise InOrder := by
  rw [record, List.pairwise_append]
  refine ⟨h, List.pairwise_singleton _ _, fun earlier hearlier later hlater => ?_⟩
  rw [List.mem_singleton] at hlater
  rw [hlater]
  exact hevent earlier hearlier

theorem finalizeAbort_holds (h : t.Holds tasks pieces id) (hstate : t.state = .aborted) (hpending : t.pending = ∅) :
    t.finalizeAbort.Holds tasks pieces id := by
  unfold finalizeAbort
  split
  · exact h
  · rename_i hfinalized
    refine ⟨pairwise_record h.ordered _ fun _ _ => ⟨fun _ _ h => (nomatch h), fun _ _ _ h => (nomatch h)⟩, ?_, ?_, ?_,
      h.pending, fun hopen => absurd hstate hopen, h.committed⟩
    · have hiff := h.aborted
      simpa [record] using hiff
    · simp [record]
    · exact fun _ => ⟨hstate, hpending⟩

/-- An open transaction is aborted; what was submitted does not matter any more. -/
theorem abortLocked_holds (h : t.Holds tasks pieces id) (hstate : t.state = .isOpen) (nextBatchIndex nextSubmitted : ℕ)
    (pieces' : List (ℕ × ℕ)) :
    ({ t with nextBatchIndex := nextBatchIndex, nextSubmitted := nextSubmitted } : JournalTransaction).abortLocked.Holds
      tasks pieces' id := by
  have hunfinalized : t.abortFinalized ≠ true := by
    intro hfinalized
    have haborted := (h.settled hfinalized).1
    rw [hstate] at haborted
    cases haborted
  have haborted : ({ ({ t with nextBatchIndex := nextBatchIndex, nextSubmitted := nextSubmitted } :
      JournalTransaction).record .journalAborted with state := .aborted }).Holds tasks pieces' id := by
    refine ⟨pairwise_record (t := { t with nextBatchIndex := nextBatchIndex, nextSubmitted := nextSubmitted }) h.ordered
      _ fun _ _ => ⟨fun _ _ h => (nomatch h), fun _ _ _ h => (nomatch h)⟩, ?_, ?_, ?_, h.pending, fun hopen => absurd rfl hopen,
      fun hcommitted => (nomatch hcommitted)⟩
    · simp [record]
    · have hiff := h.finalized
      simpa [record] using hiff
    · exact fun hfinalized => absurd hfinalized hunfinalized
  unfold abortLocked
  dsimp only
  split
  · rename_i hempty
    exact finalizeAbort_holds haborted rfl hempty
  · exact haborted

theorem abort_holds (h : t.Holds tasks pieces id) : t.abort.Holds tasks pieces id := by
  unfold abort
  split
  · rename_i hopen
    exact abortLocked_holds h hopen t.nextBatchIndex t.nextSubmitted pieces
  · exact h

theorem abort_state (t : JournalTransaction) : t.abort.state ≠ .isOpen := by
  unfold abort
  split
  · unfold abortLocked finalizeAbort
    dsimp only
    split
    · split <;> exact fun h => (nomatch h)
    · exact fun h => (nomatch h)
  · assumption

/-- A commit is made of a span that is covered. -/
theorem commitManifest_holds (h : t.Holds tasks pieces id) (commits : Bool) :
    (t.commitManifest commits).Holds tasks pieces id := by
  unfold commitManifest
  split
  · exact h
  · rename_i hready
    simp only [not_or, not_not] at hready
    obtain ⟨hopen, hpending, hsubmitted, -⟩ := hready
    have hunaborted : .journalAborted ∉ t.events := by
      rw [← h.aborted, hopen]
      exact fun h => (nomatch h)
    have hordered := pairwise_record h.ordered (.commitManifest commits) fun earlier hearlier =>
      ⟨fun heq => absurd (heq ▸ hearlier) hunaborted, fun _ _ _ h => (nomatch h)⟩
    have happended : (t.record (.commitManifest commits)).appended = t.appended := by
      rw [appended_record]
      exact List.append_nil _
    have hcovered := h.covered (by rw [hopen]; exact fun h => (nomatch h))
    have hfinalized : t.abortFinalized ≠ true := by
      intro hfinalized
      have haborted := (h.settled hfinalized).1
      rw [hopen] at haborted
      cases haborted
    dsimp only
    split
    · refine ⟨hordered, ?_, ?_, fun hdone => absurd hdone hfinalized, h.pending, fun _ => ?_, fun _ => ⟨hpending, hsubmitted⟩⟩
      · simpa [record] using hunaborted
      · simpa [record] using h.finalized
      · obtain ⟨position, htiles, hpieces⟩ := hcovered
        exact ⟨position, by rw [← happended] at htiles; exact htiles, hpieces⟩
    · refine ⟨hordered, ?_, ?_, fun hdone => absurd hdone hfinalized, h.pending, fun _ => ?_, fun hcommitted => ?_⟩
      · simpa [record, hopen] using hunaborted
      · simpa [record] using h.finalized
      · rw [happended]
        exact hcovered
      · exact absurd (hopen.symm.trans hcommitted) fun h => (nomatch h)

/-- A task that is pending keeps its transaction from being finalized. -/
theorem Holds.unfinalized (h : t.Holds tasks pieces id) {task : WriterTask} (htask : task ∈ tasks)
    (hid : task.transaction = id) : t.abortFinalized ≠ true ∧ t.state ≠ .committed := by
  have hpending : task.completion ∈ t.pending := (h.pending task.completion).mpr ⟨task, htask, hid, rfl⟩
  constructor
  · intro hfinalized
    rw [(h.settled hfinalized).2] at hpending
    exact absurd hpending (Finset.notMem_empty _)
  · intro hcommitted
    rw [(h.committed hcommitted).1] at hpending
    exact absurd hpending (Finset.notMem_empty _)

/-- A chunk is appended for a task that is pending. -/
theorem append_holds (h : t.Holds tasks pieces id) {task : WriterTask} (htask : task ∈ tasks)
    (hid : task.transaction = id) {chunk : ChunkRange} {appends : Bool} {pieces' : List (ℕ × ℕ)}
    (hcovered : ∀ position, Tiles ChunkRange.logicalStart ChunkRange.logicalEnd 0 t.appended position →
      Tiles Prod.fst Prod.snd position pieces t.nextSubmitted → ∃ position',
        Tiles ChunkRange.logicalStart ChunkRange.logicalEnd 0 (t.record (.appendChunk chunk appends)).appended position' ∧
          Tiles Prod.fst Prod.snd position' pieces' t.nextSubmitted) :
    (t.record (.appendChunk chunk appends)).Holds tasks pieces' id := by
  have hunfinalized : .abort ∉ t.events := by
    rw [← h.finalized]
    exact (h.unfinalized htask hid).1
  refine ⟨pairwise_record h.ordered _ fun earlier hearlier => ⟨fun _ _ h => (nomatch h), fun heq =>
    absurd (heq ▸ hearlier) hunfinalized⟩, ?_, ?_, h.settled, h.pending, fun hstate => ?_, h.committed⟩
  · rw [show (t.record (.appendChunk chunk appends)).state = t.state from rfl, h.aborted]
    simp [record]
  · rw [show (t.record (.appendChunk chunk appends)).abortFinalized = t.abortFinalized from rfl, h.finalized]
    simp [record]
  · obtain ⟨position, htiles, hpieces⟩ := h.covered hstate
    exact hcovered position htiles hpieces

/-- The last task of an aborted transaction finalizes it. -/
theorem completionDone_holds {task : WriterTask} {rest : List WriterTask} (h : t.Holds (task :: rest) pieces id)
    (hid : task.transaction = id) (hdistinct : task.completion ∉ rest.map WriterTask.completion) :
    (t.completionDone task.completion).Holds rest pieces id := by
  have hstate := (h.unfinalized List.mem_cons_self hid)
  have hkept : ({ t with pending := t.pending.erase task.completion } : JournalTransaction).Holds rest pieces id := by
    refine ⟨h.ordered, h.aborted, h.finalized, fun hfinalized => absurd hfinalized hstate.1, fun completion => ?_,
      h.covered, fun hcommitted => absurd hcommitted hstate.2⟩
    dsimp only
    rw [Finset.mem_erase, h.pending]
    constructor
    · rintro ⟨hne, other, hother, hown, hsame⟩
      obtain rfl | hother := List.mem_cons.mp hother
      · exact absurd hsame.symm hne
      · exact ⟨other, hother, hown, hsame⟩
    · rintro ⟨other, hother, hown, hsame⟩
      refine ⟨?_, other, List.mem_cons_of_mem _ hother, hown, hsame⟩
      rintro rfl
      exact hdistinct (hsame ▸ List.mem_map_of_mem hother)
  unfold completionDone
  dsimp only
  split
  · rename_i hlast
    exact finalizeAbort_holds hkept hlast.1 hlast.2
  · exact hkept

end JournalTransaction

/-! ## Steps -/

namespace JournalWriter
open JournalTransaction
variable {n id : ℕ} {w : JournalWriter} {t t' : JournalTransaction}

theorem new_holds (n : ℕ) : (new n).Holds n := by
  refine ⟨?_, fun _ _ => rfl, ?_, trivial, List.Perm.refl _, List.nodup_nil, ?_, rfl⟩
  · intro id t ht
    cases ht
  · intro task htask
    cases htask
  · intro completion hcompletion
    cases hcompletion

@[simp] theorem write_transactions_self (w : JournalWriter) (id : ℕ) (t : JournalTransaction) :
    (w.write id t).transactions id = some t :=
  Function.update_self ..

theorem write_transactions_of_ne {other : ℕ} (h : other ≠ id) (w : JournalWriter) (t : JournalTransaction) :
    (w.write id t).transactions other = w.transactions other :=
  Function.update_of_ne h ..

/-- A transaction changes, and the writer with what the tasks need does not. -/
theorem Holds.write (h : w.Holds n) (ht : w.transactions id = some t)
    (hholds : t'.Holds w.tasks (current w.phase id ++ w.queued id) id) : (w.write id t').Holds n := by
  refine ⟨?_, ?_, ?_, h.bounded, h.completions, h.distinct, h.fresh, h.credits⟩
  · intro other found hfound
    by_cases heq : other = id
    · subst heq
      rw [write_transactions_self, Option.some.injEq] at hfound
      rw [← hfound]
      exact hholds
    · rw [write_transactions_of_ne heq] at hfound
      exact h.transactions other found hfound
  · intro other hother
    have hne : other ≠ id := by
      rintro rfl
      rw [h.allocated other hother] at ht
      cases ht
    rw [write_transactions_of_ne hne]
    exact h.allocated other hother
  · intro task htask
    obtain ⟨found, hfound⟩ := h.known task htask
    by_cases heq : task.transaction = id
    · exact ⟨t', by rw [heq, write_transactions_self]⟩
    · exact ⟨found, by rw [write_transactions_of_ne heq]; exact hfound⟩

theorem Holds.abort (h : w.Holds n) (ht : w.transactions id = some t) : (w.write id t.abort).Holds n :=
  h.write ht (abort_holds (h.transactions id t ht))

theorem Holds.retire (h : w.Holds n) (id : ℕ) : (w.retire id).Holds n := by
  unfold JournalWriter.retire
  split
  · exact h
  · split
    · exact ⟨h.transactions, h.allocated, h.known, h.bounded, h.completions, h.distinct, h.fresh, h.credits⟩
    · exact h

/-- Without a task of a transaction nothing is left of its batches. -/
theorem pieces_eq_nil (hnobody : ∀ task ∈ w.tasks, task.transaction ≠ id) :
    current w.phase id ++ w.queued id = [] := by
  rw [List.append_eq_nil_iff]
  constructor
  · rw [current, if_neg]
    rw [Option.any_eq_true]
    rintro ⟨task, htask, heq⟩
    exact hnobody task (List.mem_append_left _ (by rw [Option.mem_toList]; exact htask)) (of_decide_eq_true heq)
  · rw [queued, List.map_eq_nil_iff, List.filter_eq_nil_iff]
    intro task htask heq
    exact hnobody task (List.mem_append_right _ htask) (of_decide_eq_true heq)

/-- A transaction that has begun has no tasks. -/
theorem Holds.beginContext (h : w.Holds n) (requestId contextDigest : String) (spanTokens : ℕ) :
    (w.beginContext requestId contextDigest spanTokens).Holds n := by
  unfold JournalWriter.beginContext
  split
  · exact h
  split
  · exact h
  have hnobody : ∀ task ∈ w.tasks, task.transaction ≠ w.allocated := by
    intro task htask heq
    obtain ⟨found, hfound⟩ := h.known task htask
    rw [heq, h.allocated _ (Nat.le_refl _)] at hfound
    cases hfound
  have hpieces := pieces_eq_nil hnobody
  refine ⟨?_, ?_, ?_, h.bounded, h.completions, h.distinct, h.fresh, h.credits⟩
  · intro other found hfound
    by_cases heq : other = w.allocated
    · subst heq
      dsimp only [JournalWriter.write] at hfound
      rw [Function.update_self, Option.some.injEq] at hfound
      subst hfound
      refine ⟨List.Pairwise.nil, by simp, by simp, by simp, fun completion => ?_, fun _ => ⟨0, rfl, ?_⟩, by simp⟩
      · simp only [Finset.notMem_empty, false_iff]
        rintro ⟨task, htask, hid, -⟩
        exact hnobody task htask hid
      · have hnil : Tiles Prod.fst Prod.snd 0 ([] : List (ℕ × ℕ)) 0 := rfl
        rw [← hpieces] at hnil
        exact hnil
    · dsimp only [JournalWriter.write] at hfound
      rw [Function.update_of_ne heq] at hfound
      exact h.transactions other found hfound
  · intro other hother
    dsimp only [JournalWriter.write] at hother ⊢
    rw [Function.update_of_ne (by omega)]
    exact h.allocated other (by omega)
  · intro task htask
    obtain ⟨found, hfound⟩ := h.known task htask
    exact ⟨found, (Function.update_of_ne (hnobody task htask) ..).trans hfound⟩

/-- A view is lent, or its transaction is aborted. -/
theorem Holds.submitReady (h : w.Holds n) (ht : w.transactions id = some t) (batch : SnapshotBatch) (view : ReadyView)
    (enqueues : Bool) : (w.submitReady id t batch view enqueues).1.Holds n := by
  have hid := h.transactions id t ht
  unfold JournalWriter.submitReady
  by_cases hopen : t.state = .isOpen
  swap
  · rw [if_pos hopen]
    exact h
  rw [if_neg (not_not.mpr hopen)]
  by_cases haccepts : t.Accepts batch view
  swap
  · rw [if_pos haccepts]
    exact h.write ht (abortLocked_holds hid hopen t.nextBatchIndex t.nextSubmitted _)
  rw [if_neg (not_not.mpr haccepts)]
  dsimp only
  have hnext : ({ w with nextCompletion := w.nextCompletion + 1 } : JournalWriter).Holds n :=
    ⟨h.transactions, h.allocated, h.known, h.bounded, h.completions, h.distinct,
      fun completion hmem => Nat.lt_succ_of_lt (h.fresh completion hmem), h.credits⟩
  by_cases hdeclined : w.closed = true ∨ w.capacity = 0 ∨ enqueues = false
  · rw [if_pos hdeclined]
    exact hnext.write ht (abortLocked_holds hid hopen _ _ _)
  rw [if_neg hdeclined]
  have hcapacity : w.capacity ≠ 0 := fun hzero => hdeclined (Or.inr (Or.inl hzero))
  have hfresh : w.nextCompletion ∉ w.returned := fun hmem => absurd (h.fresh _ hmem) (Nat.lt_irrefl _)
  obtain ⟨-, -, -, -, hstart, hordered, -⟩ := haccepts
  have hqueued : ∀ other, ({ w with queue := w.queue ++ [⟨id, w.nextCompletion, batch, view⟩] } : JournalWriter).queued other =
      w.queued other ++ if other = id then [(batch.logicalStart, batch.logicalEnd)] else [] := by
    intro other
    by_cases heq : other = id
    · simp [queued, heq]
    · simp [queued, heq, Ne.symm heq]
  refine ⟨?_, ?_, ?_, h.bounded, ?_, ?_, ?_, ?_⟩
  · intro other found hfound
    dsimp only [JournalWriter.write] at hfound
    have htasks : ∀ completion, (∃ task ∈ w.phase.task.toList ++ (w.queue ++ [⟨id, w.nextCompletion, batch, view⟩]),
        task.transaction = other ∧ task.completion = completion) ↔ (other = id ∧ completion = w.nextCompletion) ∨
          ∃ task ∈ w.tasks, task.transaction = other ∧ task.completion = completion := by
      intro completion
      rw [← List.append_assoc]
      simp only [List.mem_append, List.mem_singleton, or_and_right, exists_or, exists_eq_left, JournalWriter.tasks]
      rw [or_comm, eq_comm (a := id), eq_comm (a := w.nextCompletion)]
    by_cases heq : other = id
    · subst heq
      rw [Function.update_self, Option.some.injEq] at hfound
      subst hfound
      refine ⟨hid.ordered, hid.aborted, hid.finalized, fun hfinalized => ?_, fun completion => ?_, fun hstate => ?_,
        fun hcommitted => absurd (hopen.symm.trans hcommitted) fun h => (nomatch h)⟩
      · exact absurd (hopen.symm.trans (hid.settled hfinalized).1) fun h => (nomatch h)
      · refine Iff.trans ?_ (htasks completion).symm
        rw [Finset.mem_insert, hid.pending, and_iff_right rfl]
      · obtain ⟨position, htiles, hpieces⟩ := hid.covered (by rw [hopen]; exact fun h => (nomatch h))
        refine ⟨position, htiles, ?_⟩
        have hadded : Tiles Prod.fst Prod.snd t.nextSubmitted [(batch.logicalStart, batch.logicalEnd)] batch.logicalEnd :=
          ⟨hstart, by dsimp only; omega, rfl⟩
        have htogether := hpieces.append hadded
        rw [List.append_assoc] at htogether
        have heq := hqueued other
        rw [if_pos rfl] at heq
        rw [← heq] at htogether
        exact htogether
    · rw [Function.update_of_ne heq] at hfound
      obtain ⟨hordered', haborted, hfinalized, hsettled, hpending, hcovered, hcommitted⟩ := h.transactions other found hfound
      refine ⟨hordered', haborted, hfinalized, hsettled, fun completion => ?_, fun hstate => ?_, hcommitted⟩
      · refine Iff.trans ?_ (htasks completion).symm
        rw [hpending, or_iff_right fun hnew => heq hnew.1]
      · have hsame := hqueued other
        rw [if_neg heq, List.append_nil] at hsame
        obtain ⟨position, htiles, hpieces⟩ := hcovered hstate
        refine ⟨position, htiles, ?_⟩
        rw [← hsame] at hpieces
        exact hpieces
  · intro other hother
    have hne : other ≠ id := by
      rintro rfl
      rw [h.allocated other hother] at ht
      cases ht
    exact (Function.update_of_ne hne ..).trans (h.allocated other hother)
  · intro task htask
    rw [JournalWriter.tasks, ← List.append_assoc, List.mem_append] at htask
    by_cases heq : task.transaction = id
    · exact ⟨_, by rw [heq]; exact Function.update_self ..⟩
    · obtain hbefore | hnew := htask
      · obtain ⟨found, hfound⟩ := h.known task hbefore
        exact ⟨found, (Function.update_of_ne heq ..).trans hfound⟩
      · rw [List.mem_singleton] at hnew
        rw [hnew] at heq
        exact absurd rfl heq
  · have hperm := h.completions
    simp only [unresolved, JournalWriter.write, List.map_append, List.map_cons, List.map_nil] at hperm ⊢
    refine List.Perm.trans ?_ (hperm.append_right [w.nextCompletion])
    simp only [List.append_assoc]
    exact (List.perm_append_comm.append_left _).append_left _
  · exact List.nodup_append.mpr ⟨h.distinct, List.nodup_singleton _, by
      intro a ha b hb
      rw [List.mem_singleton] at hb
      rw [hb]
      rintro rfl
      exact hfresh ha⟩
  · intro completion hcompletion
    obtain hbefore | hnew := List.mem_append.mp hcompletion
    · exact Nat.lt_succ_of_lt (h.fresh completion hbefore)
    · rw [List.mem_singleton] at hnew
      rw [hnew]
      exact Nat.lt_succ_self _
  · have hcredits := h.credits
    simp only [outstanding, JournalWriter.write, List.length_append, List.length_singleton] at hcredits ⊢
    omega

/-! ## The executor -/

theorem completion_of_task {phase : WriterPhase} {task : WriterTask} (h : phase.task = some task) :
    phase.completion = some task.completion ∧ phase.borrowed = 1 := by
  cases phase with
  | idle => cases h
  | releaseCapacity => cases h
  | resolve => cases h
  | _ =>
      cases h
      exact ⟨rfl, rfl⟩

theorem current_self {phase : WriterPhase} {task : WriterTask} (h : phase.task = some task) :
    current phase task.transaction = phase.piece.toList := by
  rw [current, h]
  simp

theorem current_of_ne {phase : WriterPhase} {task : WriterTask} (h : phase.task = some task)
    (hne : id ≠ task.transaction) : current phase id = [] := by
  rw [current, h]
  simp [Ne.symm hne]

theorem mem_tasks {task : WriterTask} (h : w.phase.task = some task) : task ∈ w.tasks := by
  simp [tasks, h]

/-- The executor goes on with its task, and changes the task's transaction at most. -/
theorem Holds.advance (h : w.Holds n) {task : WriterTask} {phase : WriterPhase} (htask : w.phase.task = some task)
    (htask' : phase.task = some task) (ht : w.transactions task.transaction = some t)
    (hholds : t'.Holds w.tasks (phase.piece.toList ++ w.queued task.transaction) task.transaction)
    (hbounded : phase.Bounded) : ((w.write task.transaction t').enter phase).Holds n := by
  have htasks : ((w.write task.transaction t').enter phase).tasks = w.tasks := by
    rw [tasks, tasks, htask]
    simp [enter, htask', JournalWriter.write]
  obtain ⟨hcompletion, hborrowed⟩ := completion_of_task htask
  obtain ⟨hcompletion', hborrowed'⟩ := completion_of_task htask'
  refine ⟨?_, ?_, ?_, hbounded, ?_, h.distinct, h.fresh, ?_⟩
  · intro other found hfound
    rw [htasks]
    dsimp only [enter] at hfound ⊢
    by_cases heq : other = task.transaction
    · subst heq
      rw [write_transactions_self, Option.some.injEq] at hfound
      rw [← hfound, current_self htask']
      exact hholds
    · rw [write_transactions_of_ne heq] at hfound
      have hother := h.transactions other found hfound
      rw [current_of_ne htask heq] at hother
      rw [current_of_ne htask' heq]
      exact hother
  · intro other hother
    have hne : other ≠ task.transaction := by
      rintro rfl
      rw [h.allocated _ hother] at ht
      cases ht
    exact (write_transactions_of_ne hne w t').trans (h.allocated other hother)
  · intro other hother
    rw [htasks] at hother
    obtain ⟨found, hfound⟩ := h.known other hother
    by_cases heq : other.transaction = task.transaction
    · exact ⟨t', by rw [heq]; exact write_transactions_self w _ t'⟩
    · exact ⟨found, (write_transactions_of_ne heq w t').trans hfound⟩
  · have hperm := h.completions
    rw [unresolved, hcompletion] at hperm
    rw [unresolved]
    simp only [enter, hcompletion']
    exact hperm
  · have hcredits := h.credits
    rw [outstanding, hborrowed] at hcredits
    rw [outstanding]
    simp only [enter, hborrowed']
    exact hcredits

/-- The same, when no transaction changes. -/
theorem Holds.go (h : w.Holds n) {task : WriterTask} {phase : WriterPhase} (htask : w.phase.task = some task)
    (htask' : phase.task = some task) (ht : w.transactions task.transaction = some t)
    (hcovered : t.state ≠ .aborted → ∀ position,
      Tiles Prod.fst Prod.snd position (w.phase.piece.toList ++ w.queued task.transaction) t.nextSubmitted →
        Tiles Prod.fst Prod.snd position (phase.piece.toList ++ w.queued task.transaction) t.nextSubmitted)
    (hbounded : phase.Bounded) : (w.enter phase).Holds n := by
  have hwrite : w.write task.transaction t = w := by
    rw [JournalWriter.write, ← ht, Function.update_eq_self]
  have hadvance := @Holds.advance n w t t h task phase htask htask' ht ?_ hbounded
  · rwa [hwrite] at hadvance
  · have hholds := h.transactions _ t ht
    rw [current_self htask] at hholds
    refine ⟨hholds.ordered, hholds.aborted, hholds.finalized, hholds.settled, hholds.pending, fun hstate => ?_,
      hholds.committed⟩
    obtain ⟨position, htiles, hpieces⟩ := hholds.covered hstate
    exact ⟨position, htiles, hcovered hstate position hpieces⟩

/-- The executor takes the next work item. -/
theorem Holds.take (h : w.Holds n) (hidle : w.phase = .idle) {task : WriterTask} {rest : List WriterTask}
    (hqueue : w.queue = task :: rest) : ({ w with queue := rest, phase := .begin task } : JournalWriter).Holds n := by
  have htasks : ({ w with queue := rest, phase := .begin task } : JournalWriter).tasks = w.tasks := by
    simp [tasks, hidle, hqueue, WriterPhase.task]
  have hpieces : ∀ other, current (.begin task) other ++
      ({ w with queue := rest, phase := .begin task } : JournalWriter).queued other =
        current w.phase other ++ w.queued other := by
    intro other
    by_cases heq : task.transaction = other
    · simp [current, queued, hidle, hqueue, WriterPhase.task, WriterPhase.piece, heq]
    · simp [current, queued, hidle, hqueue, WriterPhase.task, heq]
  refine ⟨?_, h.allocated, ?_, trivial, ?_, h.distinct, h.fresh, ?_⟩
  · intro other found hfound
    rw [htasks, hpieces]
    exact h.transactions other found hfound
  · intro other hother
    rw [htasks] at hother
    exact h.known other hother
  · have hperm := h.completions
    rw [unresolved, hidle, hqueue] at hperm
    exact hperm
  · have hcredits := h.credits
    rw [outstanding, hidle, hqueue, List.length_cons] at hcredits
    rw [outstanding]
    simp only [WriterPhase.borrowed] at hcredits ⊢
    omega

/-- A task stops being pending. -/
theorem Holds.completed (h : w.Holds n) {task : WriterTask} {failed : Bool}
    (hphase : w.phase = .completionDone task failed) (ht : w.transactions task.transaction = some t) :
    ((w.write task.transaction (t.completionDone task.completion)).enter
      (.releaseCapacity task.completion failed)).Holds n := by
  have htask : w.phase.task = some task := by rw [hphase]; rfl
  have htasks : w.tasks = task :: w.queue := by simp [tasks, htask]
  have hpieces : ∀ other, current w.phase other = [] := by
    intro other
    rw [hphase, current]
    split <;> rfl
  have hdistinct : task.completion ∉ w.queue.map WriterTask.completion := by
    have hnodup := h.completions.nodup_iff.mpr h.distinct
    rw [unresolved, (completion_of_task htask).1] at hnodup
    simp only [Option.toList_some, List.cons_append, List.nodup_cons, List.mem_append, not_or] at hnodup
    exact hnodup.1.1.2
  refine ⟨?_, ?_, ?_, trivial, ?_, h.distinct, h.fresh, ?_⟩
  · intro other found hfound
    have hqueue : ((w.write task.transaction (t.completionDone task.completion)).enter
        (.releaseCapacity task.completion failed)).tasks = w.queue := rfl
    rw [hqueue]
    dsimp only [enter] at hfound ⊢
    by_cases heq : other = task.transaction
    · subst heq
      rw [write_transactions_self, Option.some.injEq] at hfound
      rw [← hfound]
      have hholds := h.transactions _ t ht
      rw [htasks, hpieces] at hholds
      exact completionDone_holds hholds rfl hdistinct
    · rw [write_transactions_of_ne heq] at hfound
      obtain ⟨hordered, haborted, hfinalized, hsettled, hpending, hcovered, hcommitted⟩ := h.transactions other found hfound
      refine ⟨hordered, haborted, hfinalized, hsettled, fun completion => ?_, fun hstate => ?_, hcommitted⟩
      · rw [hpending, htasks]
        constructor
        · rintro ⟨known, hknown, hown, hsame⟩
          obtain rfl | hknown := List.mem_cons.mp hknown
          · exact absurd hown.symm heq
          · exact ⟨known, hknown, hown, hsame⟩
        · rintro ⟨known, hknown, hown, hsame⟩
          exact ⟨known, List.mem_cons_of_mem _ hknown, hown, hsame⟩
      · obtain ⟨position, htiles, hcover⟩ := hcovered hstate
        rw [hpieces] at hcover
        exact ⟨position, htiles, hcover⟩
  · intro other hother
    have hne : other ≠ task.transaction := by
      rintro rfl
      rw [h.allocated _ hother] at ht
      cases ht
    exact (write_transactions_of_ne hne w _).trans (h.allocated other hother)
  · intro other hother
    obtain ⟨found, hfound⟩ := h.known other (by rw [htasks]; exact List.mem_cons_of_mem _ hother)
    by_cases heq : other.transaction = task.transaction
    · exact ⟨_, by rw [heq]; exact write_transactions_self w _ _⟩
    · exact ⟨found, (write_transactions_of_ne heq w _).trans hfound⟩
  · have hperm := h.completions
    rw [unresolved, (completion_of_task htask).1] at hperm
    exact hperm
  · have hcredits := h.credits
    rw [outstanding, (completion_of_task htask).2] at hcredits
    exact hcredits

/-- Between two tasks the transactions are as they are. -/
theorem Holds.between (h : w.Holds n) (htask : w.phase.task = none) (phase : WriterPhase) (htask' : phase.task = none) :
    (∀ id t, w.transactions id = some t → t.Holds (phase.task.toList ++ w.queue) (current phase id ++ w.queued id) id) ∧
      ∀ task ∈ phase.task.toList ++ w.queue, ∃ t, w.transactions task.transaction = some t := by
  have hcurrent : ∀ id, current phase id = current w.phase id := by
    intro id
    rw [current, current, htask, htask']
    rfl
  have htasks : phase.task.toList ++ w.queue = w.tasks := by rw [tasks, htask, htask']
  rw [htasks]
  refine ⟨fun id t ht => ?_, h.known⟩
  rw [hcurrent]
  exact h.transactions id t ht

theorem Holds.work (h : w.Holds n) : w.work.1.Holds n := by
  have hknown : ∀ task, w.phase.task = some task → ∃ t, w.transactions task.transaction = some t := fun _ htask =>
    h.known _ (mem_tasks htask)
  unfold JournalWriter.work
  cases hphase : w.phase with
  | idle =>
      cases hqueue : w.queue with
      | nil => exact h
      | cons task rest => exact h.take hphase hqueue
  | begin task =>
      have htask : w.phase.task = some task := by rw [hphase]; rfl
      obtain ⟨t, ht⟩ := hknown _ htask
      dsimp only
      rw [ht]
      dsimp only
      split
      · rename_i haborted
        exact h.go htask rfl ht (fun hstate => absurd haborted hstate) trivial
      · refine h.go htask rfl ht (fun _ position hpieces => ?_) trivial
        rw [hphase] at hpieces
        exact hpieces
  | translate task expected chunks =>
      have htask : w.phase.task = some task := by rw [hphase]; rfl
      obtain ⟨t, ht⟩ := hknown _ htask
      cases chunks with
      | nil =>
          dsimp only
          split
          · rename_i hdone
            refine h.go htask rfl ht (fun _ position hpieces => ?_) trivial
            rw [hphase] at hpieces
            obtain ⟨hstart, -, hrest⟩ := hpieces
            dsimp only at hstart hrest
            rw [← hdone.2, hstart] at hrest
            exact hrest
          · refine h.go htask rfl ht (fun _ position hpieces => ?_) trivial
            rw [hphase] at hpieces
            exact hpieces
      | cons chunk rest =>
          obtain ⟨chunk, appends⟩ := chunk
          dsimp only
          rw [ht]
          dsimp only
          split
          · rename_i haborted
            exact h.go htask rfl ht (fun hstate => absurd haborted hstate) trivial
          · split
            · refine h.go htask rfl ht (fun _ position hpieces => ?_) trivial
              rw [hphase] at hpieces
              exact hpieces
            · rename_i hnext
              simp only [not_or, not_not, not_lt] at hnext
              refine h.go htask rfl ht (fun _ position hpieces => ?_) hnext.2
              rw [hphase] at hpieces
              simp only [WriterPhase.piece, hnext.1] at hpieces ⊢
              exact hpieces
  | append task chunk appends rest =>
      have htask : w.phase.task = some task := by rw [hphase]; rfl
      obtain ⟨t, ht⟩ := hknown _ htask
      have hbounded := h.bounded
      rw [hphase] at hbounded
      have hholds := h.transactions _ t ht
      rw [current_self htask, hphase] at hholds
      dsimp only
      rw [ht]
      dsimp only
      cases appends with
      | false =>
          refine h.advance htask rfl ht (append_holds hholds (mem_tasks htask) rfl ?_) trivial
          intro position htiles hpieces
          refine ⟨position, ?_, hpieces⟩
          rw [appended_record]
          exact (List.append_nil _).symm ▸ htiles
      | true =>
          refine h.advance htask rfl ht (append_holds hholds (mem_tasks htask) rfl ?_) trivial
          intro position htiles hpieces
          obtain ⟨hstart, -, hrest⟩ := hpieces
          refine ⟨chunk.logicalEnd, ?_, rfl, hbounded, hrest⟩
          have hone : Tiles ChunkRange.logicalStart ChunkRange.logicalEnd position [chunk] chunk.logicalEnd :=
            ⟨hstart, hstart ▸ chunk.ordered.le, rfl⟩
          have htogether := htiles.append hone
          rw [appended_record]
          exact htogether
  | mark task expected rest =>
      have htask : w.phase.task = some task := by rw [hphase]; rfl
      obtain ⟨t, ht⟩ := hknown _ htask
      have hholds := h.transactions _ t ht
      rw [current_self htask, hphase] at hholds
      dsimp only
      rw [ht]
      dsimp only
      refine h.advance htask rfl ht ?_ trivial
      split
      · exact ⟨hholds.ordered, hholds.aborted, hholds.finalized, hholds.settled, hholds.pending, hholds.covered,
          hholds.committed⟩
      · exact hholds
  | fail task expected =>
      have htask : w.phase.task = some task := by rw [hphase]; rfl
      obtain ⟨t, ht⟩ := hknown _ htask
      have hholds := abort_holds (h.transactions _ t ht)
      have hcommitted := (hholds.unfinalized (mem_tasks htask) rfl).2
      have haborted : t.abort.state = .aborted := by
        cases hstate : t.abort.state with
        | isOpen => exact absurd hstate t.abort_state
        | committed => exact absurd hstate hcommitted
        | aborted => rfl
      dsimp only
      rw [ht]
      dsimp only
      exact h.advance htask rfl ht ⟨hholds.ordered, hholds.aborted, hholds.finalized, hholds.settled, hholds.pending,
        fun hstate => absurd haborted hstate, hholds.committed⟩ trivial
  | completionDone task failed =>
      obtain ⟨t, ht⟩ := hknown task (by rw [hphase]; rfl)
      dsimp only
      rw [ht]
      exact h.completed hphase ht
  | releaseCapacity completion failed =>
      have hcredits := h.credits
      have hperm := h.completions
      rw [outstanding, hphase] at hcredits
      rw [unresolved, hphase] at hperm
      obtain ⟨htransactions, hknown'⟩ := h.between (by rw [hphase]; rfl) (.resolve completion failed) rfl
      refine ⟨htransactions, h.allocated, hknown', trivial, hperm, h.distinct, h.fresh, ?_⟩
      simp only [outstanding, WriterPhase.borrowed] at hcredits ⊢
      omega
  | resolve completion failed =>
      have hcredits := h.credits
      have hperm := h.completions
      rw [outstanding, hphase] at hcredits
      rw [unresolved, hphase] at hperm
      obtain ⟨htransactions, hknown'⟩ := h.between (by rw [hphase]; rfl) .idle rfl
      refine ⟨htransactions, h.allocated, hknown', trivial, List.Perm.trans ?_ hperm, h.distinct, h.fresh, hcredits⟩
      simp only [unresolved, WriterPhase.completion, WriterPhase.task, Option.map_none, Option.toList_none,
        List.nil_append, List.map_append, List.map_cons, List.map_nil, Option.toList_some, List.cons_append]
      rw [← List.append_assoc]
      exact List.perm_append_singleton _ _

/-- A step of a thread keeps the invariant. -/
theorem Holds.effect (h : w.Holds n) {op : JournalOp} {w' : JournalWriter} {more : List JournalOp}
    (heffect : w.effect op = some (w', more)) : w'.Holds n := by
  cases op with
  | beginContext requestId contextDigest spanTokens =>
      cases heffect
      exact h.beginContext requestId contextDigest spanTokens
  | submitReady id batch view enqueues =>
      unfold JournalWriter.effect at heffect
      dsimp only at heffect
      cases ht : w.transactions id with
      | none =>
          rw [ht] at heffect
          cases heffect
          exact h
      | some t =>
          rw [ht] at heffect
          have hsubmitted := h.submitReady ht batch view enqueues
          rw [Option.some.inj heffect] at hsubmitted
          exact hsubmitted
  | commitManifest id commits =>
      unfold JournalWriter.effect at heffect
      dsimp only at heffect
      cases ht : w.transactions id with
      | none =>
          rw [ht] at heffect
          cases heffect
          exact h
      | some t =>
          rw [ht] at heffect
          cases heffect
          exact h.write ht (commitManifest_holds (h.transactions id t ht) commits)
  | abort id =>
      unfold JournalWriter.effect at heffect
      dsimp only at heffect
      cases ht : w.transactions id with
      | none =>
          rw [ht] at heffect
          cases heffect
          exact h
      | some t =>
          rw [ht] at heffect
          cases heffect
          exact h.abort ht
  | shutdown =>
      unfold JournalWriter.effect at heffect
      dsimp only at heffect
      split at heffect
      · cases heffect
        exact h
      · cases heffect
        exact ⟨h.transactions, h.allocated, h.known, h.bounded, h.completions, h.distinct, h.fresh, h.credits⟩
  | work =>
      have hwork := h.work
      rw [Option.some.inj heffect] at hwork
      exact hwork
  | retire id =>
      cases heffect
      exact h.retire id
  | abortEach ids =>
      cases ids with
      | nil =>
          cases heffect
          exact h
      | cons id rest =>
          unfold JournalWriter.effect at heffect
          dsimp only at heffect
          cases ht : w.transactions id with
          | none =>
              rw [ht] at heffect
              cases heffect
              exact h
          | some t =>
              rw [ht] at heffect
              cases heffect
              exact h.abort ht
  | awaitExecutor =>
      unfold JournalWriter.effect at heffect
      dsimp only at heffect
      split at heffect
      · cases heffect
        exact h
      · cases heffect

/-! ## Progress -/

/-- The steps that a phase has left at most. -/
def phaseSteps : WriterPhase → ℕ
  | .idle => 0
  | .begin task => 3 * task.view.chunks.length + 6
  | .translate _ _ chunks => 3 * chunks.length + 5
  | .append _ _ _ chunks => 3 * chunks.length + 7
  | .mark _ _ chunks => 3 * chunks.length + 6
  | .fail _ _ => 4
  | .completionDone _ _ => 3
  | .releaseCapacity _ _ => 2
  | .resolve _ _ => 1

def steps (w : JournalWriter) : ℕ :=
  phaseSteps w.phase + (w.queue.map fun task => 3 * task.view.chunks.length + 7).sum

/-- The executor is never stuck, returns nothing that it was not given, and ends. -/
theorem Holds.work_steps (h : w.Holds n) (hbusy : w.phase ≠ .idle ∨ w.queue ≠ []) :
    w.work.1.steps < w.steps ∧ w.work.1.returned = w.returned := by
  have hknown : ∀ task, w.phase.task = some task → ∃ t, w.transactions task.transaction = some t := fun _ htask =>
    h.known _ (mem_tasks htask)
  unfold JournalWriter.work
  cases hphase : w.phase with
  | idle =>
      cases hqueue : w.queue with
      | nil => exact absurd hqueue (hbusy.resolve_left (not_not.mpr hphase))
      | cons task rest =>
          refine ⟨?_, rfl⟩
          simp only [steps, hphase, hqueue, phaseSteps, List.map_cons, List.sum_cons]
          omega
  | begin task =>
      obtain ⟨t, ht⟩ := hknown task (by rw [hphase]; rfl)
      dsimp only
      rw [ht]
      dsimp only
      split
      · refine ⟨?_, rfl⟩
        simp only [steps, enter, hphase, phaseSteps]
        omega
      · refine ⟨?_, rfl⟩
        simp only [steps, enter, hphase, phaseSteps]
        omega
  | translate task expected chunks =>
      obtain ⟨t, ht⟩ := hknown task (by rw [hphase]; rfl)
      cases chunks with
      | nil =>
          dsimp only
          split
          · refine ⟨?_, rfl⟩
            simp only [steps, enter, hphase, phaseSteps, List.length_nil]
            omega
          · refine ⟨?_, rfl⟩
            simp only [steps, enter, hphase, phaseSteps, List.length_nil]
            omega
      | cons chunk rest =>
          dsimp only
          rw [ht]
          dsimp only
          split
          · refine ⟨?_, rfl⟩
            simp only [steps, enter, hphase, phaseSteps, List.length_cons]
            omega
          · split
            · refine ⟨?_, rfl⟩
              simp only [steps, enter, hphase, phaseSteps, List.length_cons]
              omega
            · refine ⟨?_, rfl⟩
              simp only [steps, enter, hphase, phaseSteps, List.length_cons]
              omega
  | append task chunk appends rest =>
      obtain ⟨t, ht⟩ := hknown task (by rw [hphase]; rfl)
      dsimp only
      rw [ht]
      cases appends with
      | false =>
          refine ⟨?_, rfl⟩
          simp only [steps, enter, JournalWriter.write, hphase, phaseSteps, Bool.false_eq_true, if_false]
          omega
      | true =>
          refine ⟨?_, rfl⟩
          simp only [steps, enter, JournalWriter.write, hphase, phaseSteps, if_true]
          omega
  | mark task expected rest =>
      obtain ⟨t, ht⟩ := hknown task (by rw [hphase]; rfl)
      dsimp only
      rw [ht]
      refine ⟨?_, rfl⟩
      simp only [steps, enter, JournalWriter.write, hphase, phaseSteps]
      omega
  | fail task expected =>
      obtain ⟨t, ht⟩ := hknown task (by rw [hphase]; rfl)
      dsimp only
      rw [ht]
      refine ⟨?_, rfl⟩
      simp only [steps, enter, JournalWriter.write, hphase, phaseSteps]
      omega
  | completionDone task failed =>
      obtain ⟨t, ht⟩ := hknown task (by rw [hphase]; rfl)
      dsimp only
      rw [ht]
      refine ⟨?_, rfl⟩
      simp only [steps, enter, JournalWriter.write, hphase, phaseSteps]
      omega
  | releaseCapacity completion failed =>
      refine ⟨?_, rfl⟩
      simp only [steps, hphase, phaseSteps]
      omega
  | resolve completion failed =>
      refine ⟨?_, rfl⟩
      simp only [steps, hphase, phaseSteps]
      omega

/-- Left to itself, the executor resolves all completions. -/
theorem Holds.drained : ∀ (bound : ℕ) {w : JournalWriter}, w.Holds n → w.steps ≤ bound →
    ∃ k, let w' := (fun w : JournalWriter => w.work.1)^[k] w
      w'.Holds n ∧ w'.phase = .idle ∧ w'.queue = [] ∧ w'.returned = w.returned := by
  intro bound
  induction bound with
  | zero =>
      intro w h hsteps
      by_cases hbusy : w.phase ≠ .idle ∨ w.queue ≠ []
      · have hless := (h.work_steps hbusy).1
        omega
      · simp only [not_or, not_not] at hbusy
        exact ⟨0, h, hbusy.1, hbusy.2, rfl⟩
  | succ bound ih =>
      intro w h hsteps
      by_cases hbusy : w.phase ≠ .idle ∨ w.queue ≠ []
      · obtain ⟨hless, hreturned⟩ := h.work_steps hbusy
        obtain ⟨k, hholds, hidle, hqueue, hsame⟩ := ih h.work (by omega)
        refine ⟨k + 1, ?_⟩
        rw [Function.iterate_succ_apply]
        exact ⟨hholds, hidle, hqueue, hsame.trans hreturned⟩
      · simp only [not_or, not_not] at hbusy
        exact ⟨0, h, hbusy.1, hbusy.2, rfl⟩

end JournalWriter

/-! ## Runs -/

open Threads JournalWriter
variable {ι : Type*} [DecidableEq ι]

/-- A call by a thread, or a step of the executor's. -/
def JournalOp.Public : JournalOp → Prop
  | .retire _ | .abortEach _ | .awaitExecutor => False
  | _ => True

abbrev JournalCall := { op : JournalOp // op.Public }

/-- The writer after steps of the threads, in some order. -/
def journalAfter (maxPendingBatches : ℕ) (calls : ι → List JournalCall) (schedule : List ι) :
    Config ι JournalOp JournalWriter :=
  Run.exec (Config.exec effect) ⟨.new maxPendingBatches, fun i => (calls i).map Subtype.val⟩ schedule

theorem journalAfter_holds (maxPendingBatches : ℕ) (calls : ι → List JournalCall) (schedule : List ι) :
    (journalAfter maxPendingBatches calls schedule).shared.Holds maxPendingBatches := by
  refine Run.invariant (I := fun c : Config ι JournalOp JournalWriter => c.shared.Holds maxPendingBatches)
    (fun c i h => ?_) (new_holds maxPendingBatches) schedule
  exact Config.exec_induction (p := fun c => c.shared.Holds maxPendingBatches) h fun _ _ _ _ _ heffect =>
    h.effect heffect

/-- In every order of the lock sections, with every failure: a committed transaction has appended the
chunks that tile its span; nothing is published after an abort, and nothing appended after the store
transaction's own; at most `max_pending_batches` views are borrowed; and a completion that was returned is
resolved once, by the executor left to itself. -/
theorem journal_sound (maxPendingBatches : ℕ) (calls : ι → List JournalCall) (schedule : List ι) :
    let w := (journalAfter maxPendingBatches calls schedule).shared
    (∀ id t, w.transactions id = some t → t.state = .committed →
        Tiles ChunkRange.logicalStart ChunkRange.logicalEnd 0 t.appended t.spanTokens) ∧
      (∀ id t, w.transactions id = some t → t.events.Pairwise InOrder ∧
        (t.state = .aborted ↔ .journalAborted ∈ t.events)) ∧
      w.outstanding ≤ maxPendingBatches ∧
      (∀ completion ∈ w.returned, (w.resolved.map Prod.fst).count completion ≤ 1) ∧
      ∃ k, ∀ completion ∈ w.returned,
        (((fun w : JournalWriter => w.work.1)^[k] w).resolved.map Prod.fst).count completion = 1 := by
  have h := journalAfter_holds maxPendingBatches calls schedule
  refine ⟨fun id t ht hcommitted => ?_, fun id t ht => ?_, ?_, fun completion _ => ?_, ?_⟩
  · have hholds := h.transactions id t ht
    obtain ⟨hpending, hsubmitted⟩ := hholds.committed hcommitted
    obtain ⟨position, htiles, hpieces⟩ := hholds.covered (by rw [hcommitted]; exact fun h => (nomatch h))
    -- nothing is pending, so that nothing of the batches is left
    have hnone : ∀ task ∈ (journalAfter maxPendingBatches calls schedule).shared.tasks, task.transaction ≠ id := by
      intro task htask hid
      have hmem := (hholds.pending task.completion).mpr ⟨task, htask, hid, rfl⟩
      rw [hpending] at hmem
      exact absurd hmem (Finset.notMem_empty _)
    rw [pieces_eq_nil hnone] at hpieces
    have hlast : position = t.nextSubmitted := hpieces
    rwa [hlast, hsubmitted] at htiles
  · exact ⟨(h.transactions id t ht).ordered, (h.transactions id t ht).aborted⟩
  · have hcredits := h.credits
    omega
  · have hnodup := h.completions.nodup_iff.mpr h.distinct
    exact List.nodup_iff_count_le_one.mp (hnodup.sublist (List.sublist_append_right _ _)) completion
  · obtain ⟨k, hholds, hidle, hqueue, hsame⟩ := h.drained _ (Nat.le_refl _)
    refine ⟨k, fun completion hmem => ?_⟩
    have hperm := hholds.completions
    rw [unresolved, hidle, hqueue, hsame] at hperm
    have hall : (((fun w : JournalWriter => w.work.1)^[k] (journalAfter maxPendingBatches calls schedule).shared).resolved.map
        Prod.fst).Perm (journalAfter maxPendingBatches calls schedule).shared.returned := hperm
    rw [hall.count_eq]
    exact List.count_eq_one_of_mem h.distinct hmem

/-- One batch of one chunk is submitted, appended and committed. -/
example : (((journalAfter 1 (fun _ : Unit => ⟨.beginContext "r" "d" 256, trivial⟩ ::
    ⟨.submitReady 0 ⟨"r", "d", 0, 0, 256, 256⟩ ⟨0, some 256, [(⟨0, 256, by decide⟩, true)], true⟩ true, trivial⟩ ::
    (List.replicate 9 ⟨.work, trivial⟩ ++ [⟨.commitManifest 0 true, trivial⟩]))
    (List.replicate 12 ())).shared.transactions 0).map JournalTransaction.state) = some .committed := by decide

end SparkCache.Streaming
