import WorldWind.Lib.ThreadPool
/-!
# `util/ThreadedTaskService.java`, `retrieve/BasicRetrievalService.java`

Two services on a `ThreadPoolExecutor`. Each keeps the tasks it is running in
`activeTasks`, refuses a task that is equal to an active or queued one, and
looks again for a duplicate in `beforeExecute`.

`equals` compares contents: tasks with different identities can be equal. A
`FutureTask` is its number; `cancelled` holds the numbers of those cancelled.
`System.currentTimeMillis()` is an argument of what reads it. Thread names and
priorities, log messages and what the tasks compute do not appear.
-/

namespace WorldWind.TaskServices

open Lib.ThreadPool

variable {K : Type} [DecidableEq K]

/-! ## `ThreadedTaskService` -/

structure Runnable (K : Type) where
  id : Nat
  content : K
  deriving DecidableEq, Repr

def Runnable.equals (r s : Runnable K) : Bool := r.content = s.content

/-- A runnable, and whether the thread that runs it was interrupted. The
executor clears that flag before every task. -/
structure ThreadTask (K : Type) where
  runnable : Runnable K
  interrupted : Bool
  deriving DecidableEq, Repr

/-- The executor and `activeTasks`. -/
abbrev ThreadedTaskService (K : Type) := ThreadPoolExecutor (ThreadTask K) × List (Runnable K)

namespace ThreadedTaskService

/-- `TaskExecutor`. -/
def hooks : Hooks (ThreadTask K) (List (Runnable K)) Unit where
  beforeExecute _ activeTasks t :=
    if activeTasks.any t.runnable.equals then (activeTasks, { t with interrupted := true })
    else (activeTasks ++ [t.runnable], t)
  afterExecute activeTasks t := activeTasks.eraseP t.runnable.equals

def new (poolSize queueSize : Nat) : ThreadedTaskService K := (.new poolSize (some queueSize), [])

def contains (s : ThreadedTaskService K) (runnable : Runnable K) : Bool :=
  s.2.any runnable.equals || s.1.queue.any fun t => runnable.equals t.runnable

def addTask (s : ThreadedTaskService K) (runnable : Runnable K) : ThreadedTaskService K :=
  if s.contains runnable then s else (s.1.execute ⟨runnable, false⟩, s.2)

/-- The queue is an `ArrayBlockingQueue`: its head is taken. -/
inductive Action (K : Type) where
  | addTask (runnable : Runnable K)
  | take (w : Nat)
  | beforeExecute (w : Nat)
  | run (w : Nat)
  | afterExecute (w : Nat)
  deriving DecidableEq, Repr

def act (s : ThreadedTaskService K) : Action K → ThreadedTaskService K
  | .addTask runnable => s.addTask runnable
  | .take w => step hooks s (.take w 0)
  | .beforeExecute w => step hooks s (.beforeExecute w ())
  | .run w => step hooks s (.run w)
  | .afterExecute w => step hooks s (.afterExecute w)

end ThreadedTaskService

/-! ## `BasicRetrievalService` -/

structure Retriever (K : Type) where
  id : Nat
  content : K
  staleRequestLimit : Int
  deriving DecidableEq, Repr

def Retriever.equals (r s : Retriever K) : Bool := r.content = s.content

structure RetrievalTask (K : Type) where
  id : Nat
  retriever : Retriever K
  deriving DecidableEq, Repr

/-- Tasks are equal if their retrievers are equivalent. -/
def RetrievalTask.equals (t u : RetrievalTask K) : Bool := t.retriever.equals u.retriever

structure Retrievals (K : Type) where
  activeTasks : List (RetrievalTask K)
  cancelled : List Nat
  submitTime : Nat → Int
  staleRequestLimit : Int
  nextId : Nat

namespace Retrievals

def cancel (a : Retrievals K) (id : Nat) : Retrievals K := { a with cancelled := id :: a.cancelled }

/-- A task that was on the queue too long is cancelled. -/
def cancelStale (a : Retrievals K) (now : Int) (t : RetrievalTask K) : Retrievals K :=
  let limit := if t.retriever.staleRequestLimit ≥ 0 then t.retriever.staleRequestLimit else a.staleRequestLimit
  if now - a.submitTime t.retriever.id > limit then a.cancel t.id else a

/-- A task that is a duplicate is cancelled. -/
def cancelDuplicate (a : Retrievals K) (t : RetrievalTask K) : Retrievals K :=
  if a.activeTasks.any t.equals then a.cancel t.id else a

/-- A cancelled task is active too. -/
def addActive (a : Retrievals K) (t : RetrievalTask K) : Retrievals K :=
    { a with activeTasks := a.activeTasks ++ [t] }

end Retrievals

/-- The executor, `activeTasks` and the state of the tasks. -/
abbrev BasicRetrievalService (K : Type) := ThreadPoolExecutor (RetrievalTask K) × Retrievals K

namespace BasicRetrievalService

/-- `RetrievalExecutor`. -/
def hooks : Hooks (RetrievalTask K) (Retrievals K) Int where
  beforeExecute now a t := (((a.cancelStale now t).cancelDuplicate t).addActive t, t)
  afterExecute a t := { a with activeTasks := a.activeTasks.eraseP t.equals }

def new (poolSize : Nat) (staleRequestLimit : Int) : BasicRetrievalService K :=
  (.new poolSize none, ⟨[], [], fun _ => 0, staleRequestLimit, 0⟩)

def contains (s : BasicRetrievalService K) (retriever : Retriever K) : Bool :=
  s.2.activeTasks.any (fun t => retriever.equals t.retriever) || s.1.queue.any fun t => retriever.equals t.retriever

/-- The submit time is set before the task is refused as a duplicate. -/
def runRetriever (s : BasicRetrievalService K) (retriever : Retriever K) (now : Int) : BasicRetrievalService K :=
  let a := { s.2 with submitTime := Function.update s.2.submitTime retriever.id now, nextId := s.2.nextId + 1 }
  if s.contains retriever then (s.1, a) else (s.1.execute ⟨s.2.nextId, retriever⟩, a)

/-- The queue is a `PriorityBlockingQueue` whose order depends on the time of
day, so any task of it may be taken. A caller may cancel a task at any time. -/
inductive Action (K : Type) where
  | runRetriever (retriever : Retriever K) (now : Int)
  | cancel (id : Nat)
  | worker (event : Event Int)

def act (s : BasicRetrievalService K) : Action K → BasicRetrievalService K
  | .runRetriever retriever now => s.runRetriever retriever now
  | .cancel id => (s.1, s.2.cancel id)
  | .worker event => step hooks s event

end BasicRetrievalService

end WorldWind.TaskServices
