import WorldWind.Lib.JavaFloat
import WorldWind.Lib.JavaInt
import WorldWind.Lib.TwoKeys
/-!
# The order of the retrieval queue

`RetrievalTask.compareTo` of `retrieve/BasicRetrievalService.java`. Tasks of
positive priority are compared by their submit times if these are half a second
or more apart, and by priority if not. `compareTo_totalPreorder_iff` says of
which tasks this is an order.
-/

namespace WorldWind.RetrievalQueue

open Lib.JavaInt Lib.JavaFloat Lib.TwoKeys

/-- What the order reads of a task and of its retriever. -/
structure RetrievalTask where
  priority : JavaDouble
  submitTime : Int64
  deriving DecidableEq

/-- `DEFAULT_TIME_PRIORITY_GRANULARITY`, in milliseconds. -/
def timePriorityGranularity : Int64 := 500

def comparePriority (this that : RetrievalTask) : Int :=
  if this.priority.eq that.priority then 0 else if this.priority.lt that.priority then -1 else 1

def RetrievalTask.positive (t : RetrievalTask) : Bool := (JavaDouble.finite 0).lt t.priority

/-- `now` is what the clock says during the call. -/
def RetrievalTask.compareTo (now : Int64) (this that : RetrievalTask) : Int :=
  if this.positive && that.positive then
    let thisElapsedTime := now - this.submitTime
    let thatElapsedTime := now - that.submitTime
    if (thisElapsedTime - thatElapsedTime) / timePriorityGranularity ≠ 0 then
      if thisElapsedTime < thatElapsedTime then -1 else 1
    else comparePriority this that
  else comparePriority this that

/-- A time that `System.currentTimeMillis` can give. Differences of such times
are no larger than a `long`. -/
def Reading (t : Int64) : Prop := -2 ^ 62 < t.toInt ∧ t.toInt < 2 ^ 62

/-- The tasks are ordered, at any readings of the clock. -/
structure TotalPreorder (S : Set RetrievalTask) : Prop where
  sign : ∀ a ∈ S, ∀ b ∈ S, ∀ now now', Reading now → Reading now' →
    (a.compareTo now b).sign = -(b.compareTo now' a).sign
  trans : ∀ a ∈ S, ∀ b ∈ S, ∀ c ∈ S, ∀ now now' now'', Reading now → Reading now' → Reading now'' →
    a.compareTo now b ≤ 0 → b.compareTo now' c ≤ 0 → a.compareTo now'' c ≤ 0

/-! ## What a call answers -/

/-- The quotient is cut towards zero. -/
theorem tdiv_cut (x : Int) :
    (0 ≤ x ∧ x.tdiv 500 = x / 500) ∨ (x < 0 ∧ x.tdiv 500 = -(-x / 500)) := by
  by_cases h : 0 ≤ x
  · exact .inl ⟨h, Int.tdiv_eq_ediv_of_nonneg h⟩
  · have hneg : (-x).tdiv 500 = -x / 500 := Int.tdiv_eq_ediv_of_nonneg (by omega)
    refine .inr ⟨by omega, ?_⟩
    rw [← hneg, Int.neg_tdiv, Int.neg_neg]

theorem time_test {now s t : Int64} (hn : Reading now) (hs : Reading s) (ht : Reading t) :
    ((now - s) - (now - t)) / timePriorityGranularity ≠ 0 ↔ 500 ≤ t.toInt - s.toInt ∨ 500 ≤ s.toInt - t.toInt := by
  simp only [Reading] at hn hs ht
  have h1 : (now - s).toInt = now.toInt - s.toInt := toInt_sub_long (by omega) (by omega)
  have h2 : (now - t).toInt = now.toInt - t.toInt := toInt_sub_long (by omega) (by omega)
  have h3 : ((now - s) - (now - t)).toInt = t.toInt - s.toInt := by
    rw [toInt_sub_long (by omega) (by omega)]
    omega
  have h500 : timePriorityGranularity.toInt = 500 := by decide
  rw [ne_eq, ← Int64.toInt_inj, Int64.toInt_div, h3, h500]
  have hcut := tdiv_cut (t.toInt - s.toInt)
  have hsmall : ((t.toInt - s.toInt).tdiv 500).bmod (2 ^ 64) = (t.toInt - s.toInt).tdiv 500 := by
    refine Int.bmod_eq_of_le ?_ ?_ <;> omega
  rw [hsmall]
  have hzero : (0 : Int64).toInt = 0 := by decide
  omega

theorem elapsed_lt {now s t : Int64} (hn : Reading now) (hs : Reading s) (ht : Reading t) :
    now - s < now - t ↔ t.toInt < s.toInt := by
  simp only [Reading] at hn hs ht
  rw [Int64.lt_iff_toInt_lt, toInt_sub_long (by omega) (by omega), toInt_sub_long (by omega) (by omega)]
  omega

/-- The place of a priority. -/
def RetrievalTask.rank (t : RetrievalTask) : WithBot (WithTop ℚ) := t.priority.rank

/-- `a` comes no later than `b` by the submit times and, where these are close,
the priorities. -/
def Precedes (a b : RetrievalTask) : Prop := ComesBefore 500 (fun t => t.submitTime.toInt) RetrievalTask.rank a b

theorem comparePriority_le {a b : RetrievalTask} (ha : a.priority ≠ .nan) (hb : b.priority ≠ .nan) :
    comparePriority a b ≤ 0 ↔ a.rank ≤ b.rank := by
  simp only [comparePriority, JavaDouble.eq_iff ha hb, JavaDouble.lt_iff ha hb]
  change _ ↔ a.priority.rank ≤ b.priority.rank
  rcases lt_trichotomy a.priority.rank b.priority.rank with h | h | h
  · simp [h, h.ne, h.le]
  · simp [h]
  · simp [h.ne', h.not_gt, h.not_ge]

theorem comparePriority_sign {a b : RetrievalTask} (ha : a.priority ≠ .nan) (hb : b.priority ≠ .nan) :
    (comparePriority a b).sign = -(comparePriority b a).sign := by
  simp only [comparePriority, JavaDouble.eq_iff ha hb, JavaDouble.eq_iff hb ha, JavaDouble.lt_iff ha hb,
    JavaDouble.lt_iff hb ha]
  rcases lt_trichotomy a.priority.rank b.priority.rank with h | h | h
  · simp [h, h.ne, h.ne', h.not_gt]
  · simp [h]
  · simp [h, h.ne, h.ne', h.not_gt]

/-- Two tasks of which one is not positive are compared by priority. -/
theorem compareTo_of_not {a b : RetrievalTask} (h : ¬ (a.positive = true ∧ b.positive = true)) (now : Int64) :
    a.compareTo now b = comparePriority a b := by
  rw [RetrievalTask.compareTo, if_neg (by simpa using h)]

section Readings

variable {now : Int64} {a b : RetrievalTask} (hn : Reading now) (ha : Reading a.submitTime)
  (hb : Reading b.submitTime)

include hn ha hb

theorem compareTo_of_apart (hpos : a.positive = true ∧ b.positive = true)
    (h : Apart 500 (fun t : RetrievalTask => t.submitTime.toInt) a b) :
    a.compareTo now b = if b.submitTime.toInt < a.submitTime.toInt then -1 else 1 := by
  have htest := (time_test hn ha hb).2 h.symm
  simp only [RetrievalTask.compareTo, hpos.1, hpos.2, Bool.and_self, if_true, htest, elapsed_lt hn ha hb, ne_eq,
    not_false_eq_true]

theorem compareTo_of_close (hpos : a.positive = true ∧ b.positive = true)
    (h : ¬ Apart 500 (fun t : RetrievalTask => t.submitTime.toInt) a b) :
    a.compareTo now b = comparePriority a b := by
  have htest := mt (time_test hn ha hb).1 fun h' => h h'.symm
  simp only [RetrievalTask.compareTo, hpos.1, hpos.2, Bool.and_self, if_true, if_neg htest]

theorem compareTo_le_of_positive (hpos : a.positive = true ∧ b.positive = true) (ha' : a.priority ≠ .nan)
    (hb' : b.priority ≠ .nan) : a.compareTo now b ≤ 0 ↔ Precedes a b := by
  by_cases h : Apart 500 (fun t : RetrievalTask => t.submitTime.toInt) a b
  · rw [compareTo_of_apart hn ha hb hpos h, Precedes, comesBefore_of_apart h]
    split <;> simp_all
  · rw [compareTo_of_close hn ha hb hpos h, Precedes, comesBefore_of_close h, comparePriority_le ha' hb']

/-- The sign turns around with the tasks, whatever the clock says. -/
theorem compareTo_sign {now' : Int64} (hn' : Reading now') (ha' : a.priority ≠ .nan) (hb' : b.priority ≠ .nan) :
    (a.compareTo now b).sign = -(b.compareTo now' a).sign := by
  by_cases hpos : a.positive = true ∧ b.positive = true
  · by_cases h : Apart 500 (fun t : RetrievalTask => t.submitTime.toInt) a b
    · rw [compareTo_of_apart hn ha hb hpos h, compareTo_of_apart hn' hb ha hpos.symm h.symm]
      simp only [Apart] at h
      rcases h with h | h
      · rw [if_pos (by omega), if_neg (by omega)]
        rfl
      · rw [if_neg (by omega), if_pos (by omega)]
        rfl
    · rw [compareTo_of_close hn ha hb hpos h, compareTo_of_close hn' hb ha hpos.symm fun h' => h h'.symm,
        comparePriority_sign ha' hb']
  · rw [compareTo_of_not hpos, compareTo_of_not fun h => hpos h.symm, comparePriority_sign ha' hb']

end Readings

/-! ## Sets of tasks -/

/-- No priority is NaN, and no three tasks of positive priority have rising submit
times and priorities such that the outer two are half a second apart and each
is close to the one between. -/
structure Harmless (S : Set RetrievalTask) : Prop where
  number : ∀ t ∈ S, t.priority ≠ .nan
  no_rise : ∀ old ∈ S, ∀ mid ∈ S, ∀ new ∈ S, old.positive = true → mid.positive = true → new.positive = true →
    ¬ Rising 500 (fun t => t.submitTime.toInt) RetrievalTask.rank old mid new

theorem positive_iff {t : RetrievalTask} (h : t.priority ≠ .nan) :
    t.positive = true ↔ (JavaDouble.finite 0).rank < t.rank := by
  rw [RetrievalTask.positive, JavaDouble.lt_iff (by simp) h, RetrievalTask.rank]

/-- A set of tasks is ordered exactly when it is harmless. -/
theorem compareTo_totalPreorder_iff (S : Set RetrievalTask) (hS : ∀ t ∈ S, Reading t.submitTime) :
    TotalPreorder S ↔ Harmless S := by
  have hzero : Reading 0 := by
    rw [Reading]
    decide
  have htrans := @comesBefore_trans_iff _ _ _ 500 (fun t : RetrievalTask => t.submitTime.toInt) RetrievalTask.rank
    {t ∈ S | t.positive = true}
  constructor
  · intro h
    have hnumber : ∀ t ∈ S, t.priority ≠ .nan := by
      intro t ht hnan
      have hsign := h.sign t ht t ht 0 0 hzero hzero
      have hpos : ¬ (t.positive = true ∧ t.positive = true) := by simp [RetrievalTask.positive, JavaDouble.lt, hnan]
      rw [compareTo_of_not hpos] at hsign
      simp [comparePriority, JavaDouble.eq, JavaDouble.lt, hnan] at hsign
    refine ⟨hnumber, fun old ho mid hm new hn hpo hpm hpn => htrans.1 ?_ old ⟨ho, hpo⟩ mid ⟨hm, hpm⟩ new ⟨hn, hpn⟩⟩
    rintro a ⟨ha, hpa⟩ b ⟨hb, hpb⟩ c ⟨hc, hpc⟩ hab hbc
    have hac := h.trans a ha b hb c hc 0 0 0 hzero hzero hzero
    rw [compareTo_le_of_positive hzero (hS a ha) (hS b hb) ⟨hpa, hpb⟩ (hnumber a ha) (hnumber b hb),
      compareTo_le_of_positive hzero (hS b hb) (hS c hc) ⟨hpb, hpc⟩ (hnumber b hb) (hnumber c hc),
      compareTo_le_of_positive hzero (hS a ha) (hS c hc) ⟨hpa, hpc⟩ (hnumber a ha) (hnumber c hc)] at hac
    exact hac hab hbc
  · rintro ⟨hnumber, hrise⟩
    refine ⟨fun a ha b hb now now' hn hn' => compareTo_sign hn (hS a ha) (hS b hb) hn' (hnumber a ha)
      (hnumber b hb), ?_⟩
    intro a ha b hb c hc now now' now'' hn hn' hn'' hab hbc
    have hna := hnumber a ha
    have hnb := hnumber b hb
    have hnc := hnumber c hc
    -- A task that is not positive comes before all that are.
    have hdown : ∀ {x y : RetrievalTask} {now}, x.priority ≠ .nan → y.priority ≠ .nan → x.compareTo now y ≤ 0 →
        y.positive ≠ true → x.positive ≠ true := by
      intro x y now hx hy hle hnot hpos
      rw [compareTo_of_not fun h => hnot h.2, comparePriority_le hx hy] at hle
      rw [positive_iff hx] at hpos
      rw [Ne, positive_iff hy] at hnot
      exact hnot (hpos.trans_le hle)
    by_cases hpb : b.positive = true
    · have hpc : c.positive = true := by_contra fun hpc => hdown hnb hnc hbc hpc hpb
      by_cases hpa : a.positive = true
      · rw [compareTo_le_of_positive hn (hS a ha) (hS b hb) ⟨hpa, hpb⟩ hna hnb] at hab
        rw [compareTo_le_of_positive hn' (hS b hb) (hS c hc) ⟨hpb, hpc⟩ hnb hnc] at hbc
        rw [compareTo_le_of_positive hn'' (hS a ha) (hS c hc) ⟨hpa, hpc⟩ hna hnc]
        exact htrans.2 (fun old ho mid hm new hn => hrise old ho.1 mid hm.1 new hn.1 ho.2 hm.2 hn.2) a ⟨ha, hpa⟩ b
          ⟨hb, hpb⟩ c ⟨hc, hpc⟩ hab hbc
      · rw [compareTo_of_not fun h => hpa h.1, comparePriority_le hna hnc]
        rw [positive_iff hna] at hpa
        rw [positive_iff hnc] at hpc
        exact (not_lt.1 hpa).trans hpc.le
    · have hpa := hdown hna hnb hab hpb
      rw [compareTo_of_not fun h => hpa h.1, comparePriority_le hna hnb] at hab
      rw [compareTo_of_not fun h => hpb h.1, comparePriority_le hnb hnc] at hbc
      rw [compareTo_of_not fun h => hpa h.1, comparePriority_le hna hnc]
      exact hab.trans hbc

/-- Of two tasks no three are there. -/
theorem compareTo_totalPreorder_two :
    TotalPreorder {t | t = ⟨.finite 3, 0⟩ ∨ t = ⟨.finite 1, 800⟩} := by
  refine (compareTo_totalPreorder_iff _ ?_).2 ⟨?_, ?_⟩
  · rintro t (rfl | rfl) <;> rw [Reading] <;> decide
  · rintro t (rfl | rfl) <;> simp
  · rintro old (rfl | rfl) mid (rfl | rfl) new (rfl | rfl) - - - ⟨h1, h2, h3, -, -⟩ <;>
      revert h1 h2 h3 <;> decide

/-- Each of the three tasks comes before the next by priority, and the last before
the first by time. -/
theorem compareTo_not_transitive :
    (⟨.finite 1, 0⟩ : RetrievalTask).compareTo 1000 ⟨.finite 2, 400⟩ ≤ 0 ∧
      (⟨.finite 2, 400⟩ : RetrievalTask).compareTo 1000 ⟨.finite 3, 800⟩ ≤ 0 ∧
      ¬ (⟨.finite 1, 0⟩ : RetrievalTask).compareTo 1000 ⟨.finite 3, 800⟩ ≤ 0 := by
  decide +kernel

end WorldWind.RetrievalQueue
