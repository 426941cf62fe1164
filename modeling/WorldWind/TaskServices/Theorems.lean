import WorldWind.Lib.Runs
import WorldWind.TaskServices.Model
/-!
# Running tasks are active

A task that runs unhindered should be in `activeTasks`, so that `contains`
knows it and an equal task is refused. `BasicRetrievalService` keeps that in
every run: each task adds itself and takes one equal task away again.
`ThreadedTaskService` does not add a duplicate, but takes an equal task away
when the duplicate ends. It keeps the property exactly as long as no
`afterExecute` comes while another worker runs an equal task unhindered
(`kept_iff`).
-/

namespace WorldWind.TaskServices

open Lib.ThreadPool Lib.Runs

/-! ## Tasks by their contents -/

section Keys
variable {T K : Type} (key : T → K) (free : T → Prop)

/-- Every free task that runs is active, and no equal one runs beside it. -/
structure KeptBy (active : List K) (p : ThreadPoolExecutor T) : Prop where
  active : ∀ (w : Nat) (t : T), p.workers[w]? = some (Worker.running t) → free t → key t ∈ active
  alone : ∀ (w v : Nat) (t u : T), p.workers[w]? = some (Worker.running t) → free t →
    p.workers[v]? = some (Worker.running u) → free u →
    key t = key u → w = v

variable {key free} {active active' : List K} {p : ThreadPoolExecutor T} {w : Nat} {t : T}

theorem KeptBy.mono (h : KeptBy key free active p) {free' : T → Prop} (hfree : ∀ t, free' t → free t)
    (hactive : ∀ (w : Nat) (t : T), p.workers[w]? = some (Worker.running t) → free' t → key t ∈ active →
      key t ∈ active') :
    KeptBy key free' active' p :=
  ⟨fun w t hw ht => hactive w t hw ht (h.active w t hw (hfree t ht)),
    fun w v t u hw ht hv hu => h.alone w v t u hw (hfree t ht) hv (hfree u hu)⟩

theorem KeptBy.execute (h : KeptBy key free active p) (t : T) : KeptBy key free active (p.execute t) :=
  ⟨fun w t hw => h.active w t (running_execute.1 hw),
    fun w v t u hw ht hv => h.alone w v t u (running_execute.1 hw) ht (running_execute.1 hv)⟩

theorem KeptBy.queue (h : KeptBy key free active p) (queue : List T) :
    KeptBy key free active { p with queue := queue } :=
  ⟨h.active, h.alone⟩

/-- A worker that does not run a free task afterwards. -/
theorem KeptBy.setWorker (h : KeptBy key free active p) {x : Worker T} (hx : ∀ t, x = .running t → ¬ free t) :
    KeptBy key free active (p.setWorker w x) := by
  have hother : ∀ {i : Nat} {t : T}, (p.setWorker w x).workers[i]? = some (Worker.running t) → free t →
      p.workers[i]? = some (Worker.running t) := by
    intro i t hi ht
    rcases running_setWorker hi with ⟨-, hx'⟩ | ⟨-, hi'⟩
    · exact absurd ht (hx t hx')
    · exact hi'
  exact ⟨fun i t hi ht => h.active i t (hother hi ht) ht,
    fun i j t u hi ht hj hu => h.alone i j t u (hother hi ht) ht (hother hj hu) hu⟩

/-- A worker starts a task that is not active yet, and makes it active. -/
theorem KeptBy.start (h : KeptBy key free active p) (ht : key t ∉ active) :
    KeptBy key free (active ++ [key t]) (p.setWorker w (.running t)) := by
  constructor
  · intro i u hi hu
    rcases running_setWorker hi with ⟨-, hx⟩ | ⟨-, hi'⟩
    · obtain rfl := Worker.running.inj hx
      exact List.mem_append_right _ (List.mem_singleton_self _)
    · exact List.mem_append_left _ (h.active i u hi' hu)
  · intro i j u v hi hu hj hv huv
    -- A free task with the same content would be active.
    rcases running_setWorker hi with ⟨rfl, hx⟩ | ⟨-, hi'⟩ <;> rcases running_setWorker hj with ⟨rfl, hy⟩ | ⟨-, hj'⟩
    · rfl
    · obtain rfl := Worker.running.inj hx
      exact absurd (huv ▸ h.active j v hj' hv) ht
    · obtain rfl := Worker.running.inj hy
      exact absurd (huv ▸ h.active i u hi' hu) ht
    · exact h.alone i j u v hi' hu hj' hv huv

theorem KeptBy.new (poolSize : Nat) (queueSize : Option Nat) :
    KeptBy key free active (.new poolSize queueSize) := by
  constructor <;> simp [ThreadPoolExecutor.new]

end Keys

variable {K : Type} [DecidableEq K]

/-! ## `ThreadedTaskService` -/

namespace ThreadedTaskService

def contents (activeTasks : List (Runnable K)) : List K := activeTasks.map Runnable.content

/-- Worker `w` runs the task, and its thread was not interrupted. -/
def Unhindered (s : ThreadedTaskService K) (w : Nat) (t : ThreadTask K) : Prop :=
  s.1.workers[w]? = some (Worker.running t) ∧ t.interrupted = false

/-- Every unhindered task is active. So the service contains it, refuses the
tasks equal to it, and runs none of them unhindered beside it. -/
structure Kept (s : ThreadedTaskService K) : Prop where
  active : ∀ w t, s.Unhindered w t → s.2.any t.runnable.equals
  contains : ∀ w t, s.Unhindered w t → s.contains t.runnable
  refused : ∀ w t, s.Unhindered w t → ∀ r : Runnable K, r.equals t.runnable → s.addTask r = s
  alone : ∀ w v t u, s.Unhindered w t → s.Unhindered v u → t.runnable.equals u.runnable → w = v

/-- No other worker runs a task equal to the one that ends, unhindered. -/
def ActionOk (s : ThreadedTaskService K) : Action K → Prop
  | .afterExecute w => ∀ t, s.1.workers[w]? = some (Worker.done t) → ∀ x ∈ s.1.workers,
      match x with
      | .running u => u.interrupted = false → u.runnable.equals t.runnable = false
      | _ => True
  | _ => True

theorem equals_iff {r s : Runnable K} : r.equals s ↔ r.content = s.content := decide_eq_true_iff

theorem any_equals {r : Runnable K} {activeTasks : List (Runnable K)} :
    activeTasks.any r.equals ↔ r.content ∈ contents activeTasks := by
  rw [List.any_eq_true, contents, List.mem_map]
  exact exists_congr fun _ => and_congr_right fun _ => equals_iff.trans eq_comm

theorem contents_eraseP (r : Runnable K) (activeTasks : List (Runnable K)) :
    contents (activeTasks.eraseP r.equals) = (contents activeTasks).erase r.content := by
  rw [contents, contents, List.erase_eq_eraseP, List.eraseP_map]
  congr 2

/-- The invariant: no two active tasks are equal. -/
def Distinct (s : ThreadedTaskService K) : Prop := (contents s.2).Nodup

abbrev KeptTasks (s : ThreadedTaskService K) : Prop :=
  KeptBy (fun t : ThreadTask K => t.runnable.content) (fun t => t.interrupted = false) (contents s.2) s.1

theorem kept_iff_keptBy {s : ThreadedTaskService K} : s.Kept ↔ s.KeptTasks := by
  constructor
  · intro h
    exact ⟨fun w t hw ht => any_equals.1 (h.active w t ⟨hw, ht⟩),
      fun w v t u hw ht hv hu htu => h.alone w v t u ⟨hw, ht⟩ ⟨hv, hu⟩ (equals_iff.2 htu)⟩
  · intro h
    have hactive : ∀ w t, s.Unhindered w t → s.2.any t.runnable.equals := fun w t ht =>
      any_equals.2 (h.active w t ht.1 ht.2)
    refine ⟨hactive, fun w t ht => ?_, fun w t ht r hr => ?_, fun w v t u ht hu htu => ?_⟩
    · rw [contains, hactive w t ht, Bool.true_or]
    · have hr' : s.2.any r.equals := any_equals.2 (by rw [equals_iff.1 hr]; exact any_equals.1 (hactive w t ht))
      rw [addTask, contains, hr', Bool.true_or, if_pos rfl]
    · exact h.alone w v t u ht.1 ht.2 hu.1 hu.2 (equals_iff.1 htu)

theorem distinct_act {s : ThreadedTaskService K} (h : s.Distinct) (action : Action K) : (s.act action).Distinct := by
  have hstep : ∀ event, Distinct (step hooks s event) := by
    intro event
    rcases step_cases hooks s.1 s.2 event with hs | ⟨w, i, t, -, -, -, hs⟩ | ⟨w, e, t, -, -, hs⟩ | ⟨w, t, -, -, hs⟩ |
      ⟨w, t, -, -, hs⟩ <;> rw [Distinct, hs]
    · exact h
    · exact h
    · simp only [hooks]
      split
      · exact h
      · rename_i hnot
        rw [any_equals] at hnot
        rw [contents, List.map_append, List.nodup_append]
        refine ⟨h, List.nodup_singleton _, fun a ha b hb => ?_⟩
        rintro rfl
        exact hnot (List.mem_singleton.1 hb ▸ ha)
    · exact h
    · rw [hooks, contents_eraseP]
      exact h.erase _
  cases action with
  | addTask r =>
    show Distinct (s.addTask r)
    unfold addTask
    split <;> exact h
  | take w => exact hstep _
  | beforeExecute w => exact hstep _
  | run w => exact hstep _
  | afterExecute w => exact hstep _

/-- `beforeExecute` adds the task or interrupts it. -/
theorem kept_beforeExecute {s : ThreadedTaskService K} (h : s.KeptTasks) (w : Nat) (t : ThreadTask K) :
    KeptTasks (s.1.setWorker w (.running (hooks.beforeExecute () s.2 t).2), (hooks.beforeExecute () s.2 t).1) := by
  simp only [hooks]
  split
  · refine h.setWorker ?_
    rintro u hu
    obtain rfl := Worker.running.inj hu
    simp
  · rename_i hnot
    rw [any_equals] at hnot
    have hcontents : contents (s.2 ++ [t.runnable]) = contents s.2 ++ [t.runnable.content] := List.map_append
    show KeptBy _ _ (contents (s.2 ++ [t.runnable])) _
    rw [hcontents]
    exact KeptBy.start h hnot

/-- `afterExecute` keeps the property exactly when the task that ends takes no
entry of another away. -/
theorem kept_afterExecute {s : ThreadedTaskService K} (hd : s.Distinct) (h : s.KeptTasks) {w : Nat} {t : ThreadTask K}
    (hw : s.1.workers[w]? = some (Worker.done t)) :
    KeptTasks (s.1.setWorker w .idle, hooks.afterExecute s.2 t) ↔ s.ActionOk (.afterExecute w) := by
  have herase : contents (hooks.afterExecute s.2 t) = (contents s.2).erase t.runnable.content := contents_eraseP _ _
  constructor
  · intro hk t' ht' x hx
    obtain rfl : t' = t := by simpa [hw, eq_comm] using ht'
    cases x with
    | running u =>
      intro hu
      obtain ⟨i, hi⟩ := List.mem_iff_getElem?.1 hx
      have hne : w ≠ i := by
        rintro rfl
        rw [hw] at hi
        cases hi
      have hin := hk.active i u (by rw [ThreadPoolExecutor.setWorker, List.getElem?_set_ne hne]; exact hi) hu
      rw [herase] at hin
      exact decide_eq_false ((List.Nodup.mem_erase_iff hd).1 hin).1
    | idle | taken _ | done _ => trivial
  · intro hok
    refine KeptBy.mono (KeptBy.setWorker (x := .idle) h (by simp)) (fun _ ht => ht) fun i u hi hu hin => ?_
    rw [herase]
    rcases running_setWorker hi with ⟨-, hx⟩ | ⟨-, hi'⟩
    · cases hx
    · exact (List.mem_erase_of_ne (of_decide_eq_false (hok t hw _ (List.mem_of_getElem? hi') hu))).2 hin

/-- One action, from a state with the property. -/
theorem kept_act {s : ThreadedTaskService K} (hd : s.Distinct) (h : s.KeptTasks) (action : Action K) :
    KeptTasks (s.act action) ↔ s.ActionOk action := by
  have hstep : ∀ event : Event Unit, (∀ w, event ≠ .afterExecute w) → KeptTasks (step hooks s event) := by
    intro event hevent
    rcases step_cases hooks s.1 s.2 event with hs | ⟨w, i, t, -, -, -, hs⟩ | ⟨w, e, t, -, -, hs⟩ | ⟨w, t, -, -, hs⟩ |
      ⟨w, t, rfl, -, -⟩
    · exact hs ▸ h
    · rw [hs]
      exact (KeptBy.setWorker (x := .taken t) h (by simp)).queue _
    · exact hs ▸ kept_beforeExecute h w t
    · rw [hs]
      exact KeptBy.setWorker (x := .done t) h (by simp)
    · exact absurd rfl (hevent w)
  cases action with
  | addTask r =>
    refine iff_of_true ?_ trivial
    show KeptTasks (s.addTask r)
    unfold addTask
    split
    · exact h
    · exact KeptBy.execute h _
  | take w => exact iff_of_true (hstep _ (by simp)) trivial
  | beforeExecute w => exact iff_of_true (hstep _ (by simp)) trivial
  | run w => exact iff_of_true (hstep _ (by simp)) trivial
  | afterExecute w =>
    show KeptTasks (step hooks s (.afterExecute w)) ↔ _
    cases hw : s.1.workers[w]? with
    | none =>
      have hs : step hooks s (.afterExecute w) = s := by simp only [step, hw]
      rw [hs]
      exact iff_of_true h (by simp [ActionOk, hw])
    | some x =>
      cases x with
      | done t =>
        have hs : step hooks s (.afterExecute w) = (s.1.setWorker w .idle, hooks.afterExecute s.2 t) := by
          simp only [step, hw]
        rw [hs]
        exact kept_afterExecute hd h hw
      | idle | taken _ | running _ =>
        have hs : step hooks s (.afterExecute w) = s := by simp only [step, hw]
        rw [hs]
        exact iff_of_true h (by simp [ActionOk, hw])

end ThreadedTaskService

/-! ## `BasicRetrievalService` -/

namespace BasicRetrievalService

def contents (activeTasks : List (RetrievalTask K)) : List K := activeTasks.map fun t => t.retriever.content

/-- Worker `w` runs the task, which is not cancelled. -/
def Unhindered (s : BasicRetrievalService K) (w : Nat) (t : RetrievalTask K) : Prop :=
  s.1.workers[w]? = some (Worker.running t) ∧ t.id ∉ s.2.cancelled

structure Kept (s : BasicRetrievalService K) : Prop where
  active : ∀ w t, s.Unhindered w t → s.2.activeTasks.any t.equals
  contains : ∀ w t, s.Unhindered w t → s.contains t.retriever
  refused : ∀ w t, s.Unhindered w t → ∀ r : Retriever K, r.equals t.retriever →
    ∀ now, (s.runRetriever r now).1 = s.1
  alone : ∀ w v t u, s.Unhindered w t → s.Unhindered v u → t.equals u → w = v

theorem equals_iff {t u : RetrievalTask K} : t.equals u ↔ t.retriever.content = u.retriever.content :=
  decide_eq_true_iff

theorem any_equals {t : RetrievalTask K} {activeTasks : List (RetrievalTask K)} :
    activeTasks.any t.equals ↔ t.retriever.content ∈ contents activeTasks := by
  rw [List.any_eq_true, contents, List.mem_map]
  exact exists_congr fun _ => and_congr_right fun _ => equals_iff.trans eq_comm

theorem contents_eraseP (t : RetrievalTask K) (activeTasks : List (RetrievalTask K)) :
    contents (activeTasks.eraseP t.equals) = (contents activeTasks).erase t.retriever.content := by
  rw [contents, contents, List.erase_eq_eraseP, List.eraseP_map]
  congr 2

abbrev KeptTasks (s : BasicRetrievalService K) : Prop :=
  KeptBy (fun t : RetrievalTask K => t.retriever.content) (fun t => t.id ∉ s.2.cancelled)
    (contents s.2.activeTasks) s.1

/-- Every content is active as often as there are workers with a task of it
between `beforeExecute` and `afterExecute`. -/
def Counted (s : BasicRetrievalService K) : Prop :=
  ∀ k, s.1.workers.countP (Worker.started fun t => t.retriever.content = k) = (contents s.2.activeTasks).count k

theorem kept_of_keptBy {s : BasicRetrievalService K} (h : s.KeptTasks) : s.Kept := by
  have hactive : ∀ w t, s.Unhindered w t → s.2.activeTasks.any t.equals := fun w t ht =>
    any_equals.2 (h.active w t ht.1 ht.2)
  have hany : ∀ w t, s.Unhindered w t → ∀ r : Retriever K, r.equals t.retriever → s.contains r := by
    intro w t ht r hr
    have hr' : s.2.activeTasks.any (fun u => r.equals u.retriever) := any_equals (t := ⟨0, r⟩).2 (by
      rw [show r.content = t.retriever.content from of_decide_eq_true hr]
      exact any_equals.1 (hactive w t ht))
    rw [contains, hr', Bool.true_or]
  refine ⟨hactive, fun w t ht => hany w t ht _ (decide_eq_true rfl), fun w t ht r hr now => ?_,
    fun w v t u ht hu htu => h.alone w v t u ht.1 ht.2 hu.1 hu.2 (equals_iff.1 htu)⟩
  rw [runRetriever, hany w t ht r hr, if_pos rfl]

/-- The task `t` is the only one whose state `beforeExecute` changes, and it
cancels it if it is a duplicate. -/
theorem beforeExecute_spec (now : Int) (a : Retrievals K) (t : RetrievalTask K) :
    let a' := (hooks.beforeExecute now a t).1
    a'.activeTasks = a.activeTasks ++ [t] ∧ (∀ id ∈ a.cancelled, id ∈ a'.cancelled) ∧
      (t.retriever.content ∈ contents a.activeTasks → t.id ∈ a'.cancelled) := by
  have hstale : (a.cancelStale now t).activeTasks = a.activeTasks ∧
      ∀ id ∈ a.cancelled, id ∈ (a.cancelStale now t).cancelled := by
    unfold Retrievals.cancelStale
    dsimp only
    generalize (if t.retriever.staleRequestLimit ≥ 0 then t.retriever.staleRequestLimit else _) = limit
    split
    · exact ⟨rfl, fun id hid => List.mem_cons_of_mem _ hid⟩
    · exact ⟨rfl, fun id hid => hid⟩
  obtain ⟨hactive, hcancelled⟩ := hstale
  simp only [hooks, Retrievals.addActive, Retrievals.cancelDuplicate, hactive]
  split
  · exact ⟨by rw [Retrievals.cancel, hactive], fun id hid => List.mem_cons_of_mem _ (hcancelled id hid),
      fun _ => List.mem_cons_self⟩
  · rename_i hnot
    rw [any_equals] at hnot
    exact ⟨by rw [hactive], hcancelled, fun hin => absurd hin hnot⟩

theorem kept_beforeExecute {s : BasicRetrievalService K} (h : s.KeptTasks) (now : Int) (w : Nat)
    (t : RetrievalTask K) :
    KeptTasks (s.1.setWorker w (.running t), (hooks.beforeExecute now s.2 t).1) := by
  obtain ⟨hactive, hcancelled, hduplicate⟩ := beforeExecute_spec now s.2 t
  have hcontents : contents (hooks.beforeExecute now s.2 t).1.activeTasks =
      contents s.2.activeTasks ++ [t.retriever.content] := by
    rw [hactive]
    exact List.map_append
  have hfree : ∀ u : RetrievalTask K, u.id ∉ (hooks.beforeExecute now s.2 t).1.cancelled → u.id ∉ s.2.cancelled :=
    fun u hu hin => hu (hcancelled _ hin)
  unfold KeptTasks
  rw [hcontents]
  by_cases hin : t.retriever.content ∈ contents s.2.activeTasks
  · refine KeptBy.setWorker (h.mono hfree fun _ _ _ _ hu => List.mem_append_left _ hu) ?_
    rintro u hu
    obtain rfl := Worker.running.inj hu
    exact not_not.2 (hduplicate hin)
  · exact (KeptBy.start h hin).mono hfree fun _ _ _ _ hu => hu

/-- An unhindered task has an entry of its own besides that of the task that
ends. -/
theorem kept_afterExecute {s : BasicRetrievalService K} (hc : s.Counted) (h : s.KeptTasks) {w : Nat}
    {t : RetrievalTask K} (hw : s.1.workers[w]? = some (Worker.done t)) :
    KeptTasks (s.1.setWorker w .idle, hooks.afterExecute s.2 t) := by
  refine KeptBy.mono (KeptBy.setWorker (x := .idle) h (by simp)) (fun _ ht => ht) fun i u hi hu hin => ?_
  show _ ∈ contents (s.2.activeTasks.eraseP t.equals)
  rw [contents_eraseP]
  by_cases hne : u.retriever.content = t.retriever.content
  · have hcount := countP_setWorker (q := fun v => v.retriever.content = t.retriever.content) (y := .idle) hw
    have hpos : 0 < (s.1.setWorker w .idle).workers.countP
        (Worker.started fun v => v.retriever.content = t.retriever.content) :=
      List.countP_pos_iff.2 ⟨_, List.mem_of_getElem? hi, by simp [Worker.started, hne]⟩
    rw [hc] at hcount
    simp only [Worker.started, decide_true, if_true, Bool.false_eq_true, if_false] at hcount
    rw [hne, ← List.count_pos_iff, List.count_erase_self]
    omega
  · exact (List.mem_erase_of_ne hne).2 hin

theorem counted_step {s : BasicRetrievalService K} (hc : s.Counted) (event : Event Int) :
    Counted (step hooks s event) := by
  rcases step_cases hooks s.1 s.2 event with hs | ⟨w, i, t, -, hw, -, hs⟩ | ⟨w, e, t, -, hw, hs⟩ | ⟨w, t, -, hw, hs⟩ |
    ⟨w, t, -, hw, hs⟩ <;> rw [hs] <;> intro k
  · exact hc k
  · have hcount := countP_setWorker (q := fun v => v.retriever.content = k) (y := .taken t) hw
    rw [hc k] at hcount
    exact hcount
  · have hcount := countP_setWorker (q := fun v => v.retriever.content = k) (y := .running t) hw
    rw [hc k] at hcount
    obtain ⟨hactive, -, -⟩ := beforeExecute_spec e s.2 t
    show (s.1.setWorker w (.running t)).workers.countP _ = _
    have hcontents : contents (hooks.beforeExecute e s.2 t).1.activeTasks =
        contents s.2.activeTasks ++ [t.retriever.content] := by
      rw [hactive]
      exact List.map_append
    rw [hcontents, List.count_append, List.count_singleton]
    simp only [Worker.started, decide_eq_true_eq, Bool.false_eq_true, if_false, beq_iff_eq] at hcount ⊢
    exact hcount
  · have hcount := countP_setWorker (q := fun v => v.retriever.content = k) (y := .done t) hw
    rw [hc k] at hcount
    exact Nat.add_right_cancel hcount
  · have hcount := countP_setWorker (q := fun v => v.retriever.content = k) (y := .idle) hw
    rw [hc k] at hcount
    show _ = (contents (s.2.activeTasks.eraseP t.equals)).count k
    rw [contents_eraseP, List.count_erase]
    simp only [Worker.started, decide_eq_true_eq, Bool.false_eq_true, if_false] at hcount
    simp only [beq_iff_eq]
    omega

theorem kept_step {s : BasicRetrievalService K} (hc : s.Counted) (h : s.KeptTasks) (event : Event Int) :
    KeptTasks (step hooks s event) := by
  rcases step_cases hooks s.1 s.2 event with hs | ⟨w, i, t, -, -, -, hs⟩ | ⟨w, e, t, -, -, hs⟩ | ⟨w, t, -, -, hs⟩ |
    ⟨w, t, -, hw, hs⟩ <;> rw [hs]
  · exact h
  · exact (KeptBy.setWorker (x := .taken t) h (by simp)).queue _
  · exact kept_beforeExecute h e w t
  · exact KeptBy.setWorker (x := .done t) h (by simp)
  · exact kept_afterExecute hc h hw

/-- One action keeps the counts and the property. -/
theorem kept_act {s : BasicRetrievalService K} (hc : s.Counted) (h : s.KeptTasks) (action : Action K) :
    (s.act action).Counted ∧ (s.act action).KeptTasks := by
  cases action with
  | runRetriever r now =>
    show Counted (s.runRetriever r now) ∧ KeptTasks (s.runRetriever r now)
    unfold runRetriever
    dsimp only
    split
    · exact ⟨hc, h⟩
    · exact ⟨fun k => countP_execute.trans (hc k), KeptBy.execute h _⟩
  | cancel id => exact ⟨hc, h.mono (fun t ht hin => ht (List.mem_cons_of_mem _ hin)) fun _ _ _ _ ht => ht⟩
  | worker event => exact ⟨counted_step hc event, kept_step hc h event⟩

end BasicRetrievalService

/-! ## Runs -/

/-- In every run of a `ThreadedTaskService` the unhindered tasks are active
throughout, exactly when no `afterExecute` comes while another worker runs an
equal task unhindered. In a run of a `BasicRetrievalService` they always are. -/
theorem kept_iff :
    (∀ (poolSize queueSize : Nat) (actions : List (ThreadedTaskService.Action K)),
      Always (fun s a => some (ThreadedTaskService.act s a)) ThreadedTaskService.Kept
        (.new poolSize queueSize) actions ↔
        Along (fun s a => some (ThreadedTaskService.act s a)) ThreadedTaskService.ActionOk (.new poolSize queueSize)
          actions) ∧
    ∀ (poolSize : Nat) (staleRequestLimit : Int) (actions : List (BasicRetrievalService.Action K)),
      Always (fun s a => some (BasicRetrievalService.act s a)) BasicRetrievalService.Kept
        (.new poolSize staleRequestLimit) actions := by
  constructor
  · intro poolSize queueSize actions
    refine always_iff_along (I := ThreadedTaskService.Distinct) (fun s a t hd _ ht => ?_)
      (fun s a hd hk => ?_) actions
      List.nodup_nil (ThreadedTaskService.kept_iff_keptBy.2 (KeptBy.new _ _))
    · obtain rfl := Option.some.inj ht
      exact ThreadedTaskService.distinct_act hd a
    · rw [← ThreadedTaskService.kept_act hd (ThreadedTaskService.kept_iff_keptBy.1 hk) a,
        ← ThreadedTaskService.kept_iff_keptBy]
      simp
  · intro poolSize staleRequestLimit actions
    refine always_of_inv (I := fun s => s.Counted ∧ s.KeptTasks) (fun s a h => ⟨_, rfl, ?_⟩)
      (fun s h => BasicRetrievalService.kept_of_keptBy h.2) actions ⟨fun k => rfl, KeptBy.new _ _⟩
    exact BasicRetrievalService.kept_act h.1 h.2 a

/-- Two equal tasks are submitted one after the other, before the first is
active. The second ends while the first runs. -/
def twins : List (ThreadedTaskService.Action Nat) :=
  [.addTask ⟨0, 7⟩, .addTask ⟨1, 7⟩, .beforeExecute 0, .beforeExecute 1, .run 1, .afterExecute 1]

/-- A third equal task, while the first still runs. -/
def third : List (ThreadedTaskService.Action Nat) := [.addTask ⟨2, 7⟩, .take 1, .beforeExecute 1]

/-- The first task is not active any more, and the third is accepted and runs
beside it. -/
theorem twins_not_kept :
    ¬ Always (fun s a => some (ThreadedTaskService.act s a)) ThreadedTaskService.Kept (.new 2 10) twins ∧
      let s := (twins ++ third).foldl ThreadedTaskService.act (.new 2 10)
      s.Unhindered 0 ⟨⟨0, 7⟩, false⟩ ∧ s.Unhindered 1 ⟨⟨2, 7⟩, false⟩ := by
  refine ⟨fun h => ?_, ⟨rfl, rfl⟩, rfl, rfl⟩
  obtain ⟨s, hs, hkept⟩ := h.last
  obtain rfl := Option.some.inj hs
  exact absurd (hkept.active 0 ⟨⟨0, 7⟩, false⟩ ⟨rfl, rfl⟩) (by decide)

end WorldWind.TaskServices
