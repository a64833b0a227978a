import SparkCache.Loading.Loads

/-!
# The requests that the loaders have in their hands

A request in flight is in one place: in the queue, among the deferred loads, or with one operation of a
loader. What an operation knows of its requests stays so while others are executed.
-/
namespace SparkCache.Loading
open Threads
variable {Key : Type*} [DecidableEq Key]

/-! ## Ownership -/

def QueueItem.requests : QueueItem → Multiset String
  | .batch loads => loads.map QueuedLoad.request
  | .load queued => {queued.request}

/-- The requests that an operation has in its hands. -/
def Op.owned : Op Key → Multiset String
  | .put item => item.requests
  | .screen loads | .prepare loads | .register loads _ _ _ | .record loads _ => loads.map QueuedLoad.request
  | .check load => {load.request}
  | .checkAgain request | .restore request | .resolve request _ | .fetch request _ _ | .await request _ _
  | .report request | .close request | .retire request => {request}
  | .cancelRead _ | .readState _ _ | .select _ _ _ => 0

/-- The requests that wait for a loader or for a release. -/
def Loads.waiting (s : Loads Key) : Multiset String :=
  (s.queue.map QueueItem.requests).sum + (s.deferred.map QueuedLoad.request : List String)

/-! ## Soundness -/

/-- The flight that a request has joined is the one it is planned for. -/
def Loads.Known (s : Loads Key) (request : String) : Prop :=
  ∀ key, s.reads.requestKeys request = some key → s.planKeys request = some key

/-- What a batch has registered: its members have joined, the other loads have no flight. -/
structure Cohorts.Sound (s : Loads Key) (loads : List QueuedLoad) (cohorts : Cohorts Key) : Prop where
  nodup : (cohorts.keys.map Prod.fst).Nodup
  perm : ((cohorts.priority ++ cohorts.deferred).map QueuedLoad.request).Perm (cohorts.keys.map Prod.fst)
  among : ∀ load ∈ cohorts.priority ++ cohorts.deferred, load ∈ loads
  members : ∀ entry ∈ cohorts.keys, s.reads.Member entry.1 entry.2
  fresh : ∀ load ∈ loads, load.request ∉ cohorts.keys.map Prod.fst → s.reads.requestKeys load.request = none

def QueueItem.Sound (s : Loads Key) : QueueItem → Prop
  | .batch loads => ∀ load ∈ loads, s.reads.requestKeys load.request = none
  | .load queued => s.Known queued.request

/-- What holds of the requests that an operation has in its hands. -/
def Op.Sound (s : Loads Key) : Op Key → Prop
  | .put item => item.Sound s
  | .screen loads | .prepare loads => ∀ load ∈ loads, s.reads.requestKeys load.request = none
  | .register loads _ _ cohorts | .record loads cohorts => cohorts.Sound s loads
  | .check load => s.Known load.request
  | .checkAgain request | .restore request | .resolve request _ | .await request _ _ | .report request =>
      s.Known request
  | .fetch request key _ => s.Known request ∧ s.planKeys request = some key
  | .close request => request ∈ s.reported ∧ s.Known request
  | .retire request => request ∈ s.reported ∧ s.reads.requestKeys request = none
  | .cancelRead _ | .readState _ _ | .select _ _ _ => True

/-- What an operation on some requests leaves to the others. -/
structure Loads.Frame (s s' : Loads Key) (touched : Multiset String) : Prop where
  reads : s.reads.Frame s'.reads {request | request ∈ touched}
  planKeys : ∀ request ∉ touched, s'.planKeys request = s.planKeys request
  reported : ∀ request ∉ touched, request ∈ s.reported → request ∈ s'.reported

theorem Loads.Frame.known {s s' : Loads Key} {touched : Multiset String} (h : s.Frame s' touched) {request : String}
    (hne : request ∉ touched) (hknown : s.Known request) : s'.Known request := by
  intro key hkey
  rw [h.reads.requestKeys request hne] at hkey
  rw [h.planKeys request hne]
  exact hknown key hkey

theorem Loads.Frame.fresh {s s' : Loads Key} {touched : Multiset String} (h : s.Frame s' touched)
    {loads : List QueuedLoad} (hne : ∀ request ∈ (loads.map QueuedLoad.request : Multiset String), request ∉ touched)
    (hfresh : ∀ load ∈ loads, s.reads.requestKeys load.request = none) :
    ∀ load ∈ loads, s'.reads.requestKeys load.request = none := by
  intro load hload
  rw [h.reads.requestKeys _ (hne _ (List.mem_map_of_mem hload))]
  exact hfresh load hload

theorem Loads.Frame.cohorts {s s' : Loads Key} {touched : Multiset String} (h : s.Frame s' touched)
    {loads : List QueuedLoad} {cohorts : Cohorts Key}
    (hne : ∀ request ∈ (loads.map QueuedLoad.request : Multiset String), request ∉ touched)
    (hsound : cohorts.Sound s loads) : cohorts.Sound s' loads := by
  refine { hsound with members := ?_, fresh := ?_ }
  · intro entry hentry
    have hmem : entry.1 ∈ (cohorts.priority ++ cohorts.deferred).map QueuedLoad.request :=
      hsound.perm.mem_iff.mpr (List.mem_map_of_mem hentry)
    obtain ⟨load, hload, heq⟩ := List.mem_map.mp hmem
    refine h.reads.member entry.1 ?_ entry.2 (hsound.members entry hentry)
    rw [← heq]
    exact hne _ (List.mem_map_of_mem (hsound.among load hload))
  · intro load hload hother
    rw [h.reads.requestKeys _ (hne _ (List.mem_map_of_mem hload))]
    exact hsound.fresh load hload hother

theorem Loads.Frame.item {s s' : Loads Key} {touched : Multiset String} (h : s.Frame s' touched) {item : QueueItem}
    (hne : ∀ request ∈ item.requests, request ∉ touched) (hsound : item.Sound s) : item.Sound s' := by
  cases item with
  | batch loads => exact h.fresh hne hsound
  | load load => exact h.known (hne _ (Multiset.mem_singleton_self _)) hsound

/-- An operation that has other requests in its hands stays sound. -/
theorem Loads.Frame.op {s s' : Loads Key} {touched : Multiset String} (h : s.Frame s' touched) {op : Op Key}
    (hne : ∀ request ∈ op.owned, request ∉ touched) (hsound : op.Sound s) : op.Sound s' := by
  cases op with
  | put item => exact h.item hne hsound
  | screen loads => exact h.fresh hne hsound
  | prepare loads => exact h.fresh hne hsound
  | register loads evidence todo cohorts => exact h.cohorts hne hsound
  | record loads cohorts => exact h.cohorts hne hsound
  | check load => exact h.known (hne _ (Multiset.mem_singleton_self _)) hsound
  | checkAgain request => exact h.known (hne _ (Multiset.mem_singleton_self _)) hsound
  | restore request => exact h.known (hne _ (Multiset.mem_singleton_self _)) hsound
  | resolve request key => exact h.known (hne _ (Multiset.mem_singleton_self _)) hsound
  | await request key serial => exact h.known (hne _ (Multiset.mem_singleton_self _)) hsound
  | report request => exact h.known (hne _ (Multiset.mem_singleton_self _)) hsound
  | fetch request key serial =>
      have hother := hne _ (Multiset.mem_singleton_self _)
      exact ⟨h.known hother hsound.1, (h.planKeys request hother).trans hsound.2⟩
  | close request =>
      have hother := hne _ (Multiset.mem_singleton_self _)
      exact ⟨h.reported request hother hsound.1, h.known hother hsound.2⟩
  | retire request =>
      have hother := hne _ (Multiset.mem_singleton_self _)
      exact ⟨h.reported request hother hsound.1, (h.reads.requestKeys request hother).trans hsound.2⟩
  | cancelRead request => trivial
  | readState key release => trivial
  | select key release state => trivial

end SparkCache.Loading
