import Mathlib
/-!
# `java.util.concurrent.ThreadPoolExecutor`

An executor hands a task to a new worker while it has fewer workers than its
pool size, else it queues the task if the queue has room, else it discards it.
A worker takes a task from the queue, calls `beforeExecute`, runs the task and
calls `afterExecute`. The steps of different workers come in any order; each is
atomic here. An event that is not possible in a state leaves the state as it is.

The hooks of a subclass share a state `A`. `beforeExecute` may also read
something of the environment (`E`, a clock say), and changes the task it is
given when it marks the task or its thread.
-/

namespace WorldWind.Lib.ThreadPool

variable {T A E : Type*}

/-- A worker thread. A task is `taken` before its `beforeExecute`, `running`
from there, and `done` until its `afterExecute`. -/
inductive Worker (T : Type*) where
  | idle
  | taken (t : T)
  | running (t : T)
  | done (t : T)
  deriving DecidableEq, Repr

/-- The task of a worker between `beforeExecute` and `afterExecute` meets `p`. -/
def Worker.started (p : T → Bool) : Worker T → Bool
  | .running t | .done t => p t
  | .idle | .taken _ => false

/-- A `queueSize` of `none` is a queue without bound. -/
structure ThreadPoolExecutor (T : Type*) where
  poolSize : Nat
  queueSize : Option Nat
  workers : List (Worker T)
  queue : List T
  deriving DecidableEq, Repr

structure Hooks (T A E : Type*) where
  beforeExecute : E → A → T → A × T
  afterExecute : A → T → A

/-- What a worker does. `take` says which task of the queue it takes. -/
inductive Event (E : Type*) where
  | take (w i : Nat)
  | beforeExecute (w : Nat) (e : E)
  | run (w : Nat)
  | afterExecute (w : Nat)
  deriving DecidableEq, Repr

namespace ThreadPoolExecutor

def new (poolSize : Nat) (queueSize : Option Nat) : ThreadPoolExecutor T := ⟨poolSize, queueSize, [], []⟩

def hasRoom (p : ThreadPoolExecutor T) : Bool := p.queueSize.elim true fun n => p.queue.length < n

def execute (p : ThreadPoolExecutor T) (t : T) : ThreadPoolExecutor T :=
  if p.workers.length < p.poolSize then { p with workers := p.workers ++ [.taken t] }
  else if p.hasRoom then { p with queue := p.queue ++ [t] }
  else p

def setWorker (p : ThreadPoolExecutor T) (w : Nat) (x : Worker T) : ThreadPoolExecutor T :=
  { p with workers := p.workers.set w x }

end ThreadPoolExecutor

/-- An event on the executor and the state of its hooks. -/
def step (hooks : Hooks T A E) (s : ThreadPoolExecutor T × A) : Event E → ThreadPoolExecutor T × A
  | .take w i =>
    match s.1.workers[w]?, s.1.queue[i]? with
    | some .idle, some t => ({ s.1.setWorker w (.taken t) with queue := s.1.queue.eraseIdx i }, s.2)
    | _, _ => s
  | .beforeExecute w e =>
    match s.1.workers[w]? with
    | some (.taken t) =>
      let r := hooks.beforeExecute e s.2 t
      (s.1.setWorker w (.running r.2), r.1)
    | _ => s
  | .run w =>
    match s.1.workers[w]? with
    | some (.running t) => (s.1.setWorker w (.done t), s.2)
    | _ => s
  | .afterExecute w =>
    match s.1.workers[w]? with
    | some (.done t) => (s.1.setWorker w .idle, hooks.afterExecute s.2 t)
    | _ => s

/-! ## What an event changes -/

variable {hooks : Hooks T A E} {p : ThreadPoolExecutor T} {a : A}

/-- Everything an event can do. -/
theorem step_cases (hooks : Hooks T A E) (p : ThreadPoolExecutor T) (a : A) (event : Event E) :
    step hooks (p, a) event = (p, a) ∨
    (∃ w i t, event = .take w i ∧ p.workers[w]? = some .idle ∧ p.queue[i]? = some t ∧
      step hooks (p, a) event = ({ p.setWorker w (.taken t) with queue := p.queue.eraseIdx i }, a)) ∨
    (∃ w e t, event = .beforeExecute w e ∧ p.workers[w]? = some (.taken t) ∧
      step hooks (p, a) event =
        (p.setWorker w (.running (hooks.beforeExecute e a t).2), (hooks.beforeExecute e a t).1)) ∨
    (∃ w t, event = .run w ∧ p.workers[w]? = some (.running t) ∧
      step hooks (p, a) event = (p.setWorker w (.done t), a)) ∨
    (∃ w t, event = .afterExecute w ∧ p.workers[w]? = some (.done t) ∧
      step hooks (p, a) event = (p.setWorker w .idle, hooks.afterExecute a t)) := by
  cases event with
  | take w i =>
    simp only [step]
    split
    · rename_i t hw hi
      exact .inr (.inl ⟨w, i, t, rfl, hw, hi, rfl⟩)
    · exact .inl rfl
  | beforeExecute w e =>
    simp only [step]
    split
    · rename_i t hw
      exact .inr (.inr (.inl ⟨w, e, t, rfl, hw, rfl⟩))
    · exact .inl rfl
  | run w =>
    simp only [step]
    split
    · rename_i t hw
      exact .inr (.inr (.inr (.inl ⟨w, t, rfl, hw, rfl⟩)))
    · exact .inl rfl
  | afterExecute w =>
    simp only [step]
    split
    · rename_i t hw
      exact .inr (.inr (.inr (.inr ⟨w, t, rfl, hw, rfl⟩)))
    · exact .inl rfl

/-- A worker that runs after one worker was set is that one, or ran before. -/
theorem running_setWorker {w i : Nat} {x : Worker T} {t : T}
    (h : (p.setWorker w x).workers[i]? = some (.running t)) :
    (i = w ∧ x = .running t) ∨ (i ≠ w ∧ p.workers[i]? = some (.running t)) := by
  unfold ThreadPoolExecutor.setWorker at h
  by_cases hi : i = w
  · subst hi
    obtain ⟨hlt, hx⟩ := List.getElem?_eq_some_iff.1 h
    rw [List.getElem_set_self] at hx
    exact .inl ⟨rfl, hx⟩
  · rw [List.getElem?_set_ne (Ne.symm hi)] at h
    exact .inr ⟨hi, h⟩

/-- A submitted task is not running yet. -/
theorem running_execute {t u : T} {i : Nat} :
    (p.execute t).workers[i]? = some (.running u) ↔ p.workers[i]? = some (.running u) := by
  unfold ThreadPoolExecutor.execute
  split
  · by_cases hi : i < p.workers.length
    · rw [List.getElem?_append_left hi]
    · rw [List.getElem?_append_right (by omega), List.getElem?_eq_none (l := p.workers) (by omega)]
      cases i - p.workers.length <;> simp
  · split <;> rfl

/-- Setting a worker moves the number of started tasks by that worker. -/
theorem countP_setWorker {q : T → Bool} {w : Nat} {x y : Worker T} (h : p.workers[w]? = some x) :
    (p.setWorker w y).workers.countP (Worker.started q) + (if x.started q then 1 else 0) =
      p.workers.countP (Worker.started q) + (if y.started q then 1 else 0) := by
  obtain ⟨hw, rfl⟩ := List.getElem?_eq_some_iff.1 h
  have hpos : p.workers[w].started q = true → 0 < p.workers.countP (Worker.started q) := fun hx =>
    List.countP_pos_iff.2 ⟨_, List.getElem_mem hw, hx⟩
  unfold ThreadPoolExecutor.setWorker
  rw [List.countP_set hw]
  split <;> rename_i hx
  · have := hpos hx
    omega
  · omega

theorem countP_execute {q : T → Bool} {t : T} :
    (p.execute t).workers.countP (Worker.started q) = p.workers.countP (Worker.started q) := by
  unfold ThreadPoolExecutor.execute
  split
  · rw [List.countP_append, List.countP_singleton]
    rfl
  · split <;> rfl

end WorldWind.Lib.ThreadPool
