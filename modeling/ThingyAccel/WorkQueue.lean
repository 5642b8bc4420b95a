import Mathlib.Data.List.Basic
import Mathlib.Data.Option.Basic

/-! Kernel work items. A pending item is not queued again, a running one is queued
once more: by itself as a `WorkItem`, and in a `Queue` whose thread takes the
waiting items in order and runs one job at a time. -/
namespace ThingyAccel.WorkQueue

structure WorkItem (Job : Type) where
  queued : Bool
  running : Option Job
  deriving DecidableEq, Repr

variable {Job : Type}

def idle : WorkItem Job := ⟨false, none⟩

def WorkItem.submit (item : WorkItem Job) : WorkItem Job := { item with queued := true }

/-- The queue takes the item and its handler starts. -/
def WorkItem.start (item : WorkItem Job) (job : Job) : WorkItem Job :=
  { item with queued := false, running := some job }

def WorkItem.finish (item : WorkItem Job) : WorkItem Job := { item with running := none }

structure Queue (Item Job : Type) where
  waiting : List Item
  running : Option Job
  deriving DecidableEq, Repr

section Queues

variable {Item : Type} {queue next : Queue Item Job}

def Queue.submit [DecidableEq Item] (queue : Queue Item Job) (item : Item) : Queue Item Job :=
  if item ∈ queue.waiting then queue else { queue with waiting := queue.waiting ++ [item] }

def Queue.take (begins : Item → Job) (queue : Queue Item Job) : Option (Queue Item Job) :=
  match queue.running, queue.waiting with
  | none, item :: rest => some ⟨rest, some (begins item)⟩
  | _, _ => none

@[simp] theorem submit_waiting [DecidableEq Item] (queue : Queue Item Job) (item other : Item) :
    other ∈ (queue.submit item).waiting ↔ other ∈ queue.waiting ∨ other = item := by
  rw [Queue.submit]
  split
  · constructor
    · exact Or.inl
    · rintro (there | rfl)
      · exact there
      · assumption
  · rw [List.mem_append, List.mem_singleton]

@[simp] theorem submit_running [DecidableEq Item] (queue : Queue Item Job) (item : Item) :
    (queue.submit item).running = queue.running := by
  rw [Queue.submit]
  split <;> rfl

/-- What a take is: the first of the waiting items has become the job. -/
theorem take_cases {begins : Item → Job} (taken : queue.take begins = some next) :
    ∃ item rest, queue.running = none ∧ queue.waiting = item :: rest ∧
      next = ⟨rest, some (begins item)⟩ := by
  rcases queue with ⟨- | ⟨item, rest⟩, - | job⟩
  · cases taken
  · cases taken
  · cases taken
    exact ⟨item, rest, rfl, rfl, rfl⟩
  · cases taken

end Queues

end ThingyAccel.WorkQueue
