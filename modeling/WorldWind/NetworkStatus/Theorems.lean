import WorldWind.NetworkStatus.Model
/-!
# When a host is unavailable

A host should be unavailable while enough of its failures have been logged
since its last success and the last of them is recent. But a query that comes
late sets the count to zero, and forgets the failures logged until then. So an
answer is wrong exactly when too few were logged after the last late query
(`answers_right_iff`).
-/

namespace WorldWind.NetworkStatus

open BasicNetworkStatus

variable {U H : Type} [DecidableEq H] (getHost : U → H) (attemptLimit tryAgainInterval : Int)

/-! ## What was logged -/

/-- The times of the failures of a host since its last success, the latest
first. -/
def failures (host : H) : List (Call U) → List Int
  | [] => []
  | .logUnavailableHost url now :: past =>
    if getHost url = host then now :: failures host past else failures host past
  | .logAvailableHost url _ :: past => if getHost url = host then [] else failures host past
  | .isHostUnavailable _ _ :: past => failures host past

/-- The last failure of a host is less than the interval ago. -/
def Recent (host : H) (past : List (Call U)) (now : Int) : Prop :=
  ∃ last ∈ (failures getHost host past).head?, now - last < tryAgainInterval

instance (host : H) (past : List (Call U)) (now : Int) : Decidable (Recent getHost tryAgainInterval host past now) :=
  inferInstanceAs (Decidable (∃ last ∈ (failures getHost host past).head?, now - last < tryAgainInterval))

/-- The failures since the last success and since the last query that was not
recent. -/
def sinceLate (host : H) : List (Call U) → List Int
  | [] => []
  | .logUnavailableHost url now :: past =>
    if getHost url = host then now :: sinceLate host past else sinceLate host past
  | .logAvailableHost url _ :: past => if getHost url = host then [] else sinceLate host past
  | .isHostUnavailable url now :: past =>
    if getHost url = host ∧ ¬ Recent getHost tryAgainInterval host past now then [] else sinceLate host past

/-- What `isHostUnavailable` should answer. -/
def Unavailable (host : H) (past : List (Call U)) (now : Int) : Prop :=
  attemptLimit ≤ (failures getHost host past).length ∧ Recent getHost tryAgainInterval host past now

/-- Enough failures were logged, but not enough after a late query. -/
def Forgotten (host : H) (past : List (Call U)) (now : Int) : Prop :=
  Unavailable getHost attemptLimit tryAgainInterval host past now ∧
    (sinceLate getHost tryAgainInterval host past).length < attemptLimit

def AnswerRight (past : List (Call U)) (url : U) (now : Int) : Prop :=
  (isHostUnavailable getHost (after getHost attemptLimit tryAgainInterval past) url now).2 = true ↔
    Unavailable getHost attemptLimit tryAgainInterval (getHost url) past now

/-! ## What the table holds -/

/-- What an entry says of the failures of its host. -/
structure Counts (hi : HostInfo) (last : Int) (n : Nat) : Prop where
  interval_eq : hi.tryAgainInterval = tryAgainInterval
  limit_eq : hi.attemptLimit = attemptLimit
  time_eq : hi.lastLogTime = last
  limit_le : attemptLimit ≤ hi.logCount ↔ attemptLimit ≤ n
  count_eq : hi.logCount < attemptLimit → hi.logCount = n

/-- The entry of a host that has failed since its last success. -/
def Entry (hi : Option HostInfo) (failures sinceLate : List Int) : Prop :=
  match failures with
  | [] => hi = none ∧ sinceLate = []
  | last :: _ => ∃ i, hi = some i ∧ Counts attemptLimit tryAgainInterval i last sinceLate.length

structure Holds (s : BasicNetworkStatus H) (past : List (Call U)) : Prop where
  online : s.offlineMode = false
  limit_eq : s.attemptLimit = attemptLimit
  interval_eq : s.tryAgainInterval = tryAgainInterval
  entry : ∀ host, Entry attemptLimit tryAgainInterval (s.hostMap host) (failures getHost host past)
    (sinceLate getHost tryAgainInterval host past)

variable {getHost attemptLimit tryAgainInterval}

/-- One more failure of a host that has failed before. -/
theorem Counts.log {i : HostInfo} {last : Int} {n : Nat} (hc : Counts attemptLimit tryAgainInterval i last n)
    (now : Int) :
    Counts attemptLimit tryAgainInterval
      { (if ¬ i.isUnavailable then { i with logCount := i.logCount + 1 } else i) with lastLogTime :=
        now } now (n + 1) := by
  have hle := hc.limit_le
  have heq := hc.count_eq
  by_cases hu : attemptLimit ≤ i.logCount
  · have hunavailable : i.isUnavailable = true := by simpa [HostInfo.isUnavailable, hc.limit_eq] using hu
    simp only [hunavailable, not_true_eq_false, if_false]
    refine ⟨hc.interval_eq, hc.limit_eq, rfl, ?_, fun hlt => absurd hu (by simpa using hlt)⟩
    show attemptLimit ≤ i.logCount ↔ _
    omega
  · have havailable : i.isUnavailable = false := by simpa [HostInfo.isUnavailable, hc.limit_eq] using hu
    simp only [havailable, Bool.false_eq_true, not_false_eq_true, if_true]
    refine ⟨hc.interval_eq, hc.limit_eq, rfl, ?_, fun _ => ?_⟩
    · show attemptLimit ≤ i.logCount + 1 ↔ _
      omega
    · show i.logCount + 1 = _
      omega

theorem put_self (s : BasicNetworkStatus H) (host : H) (hi : HostInfo) :
    (s.put host hi).hostMap host = some hi := by
  simp [put]

theorem put_other (s : BasicNetworkStatus H) {hostName host : H} (hne : hostName ≠ host) (hi : HostInfo) :
    (s.put hostName hi).hostMap host = s.hostMap host := by
  simp [put, Function.update_of_ne hne.symm]

theorem Holds.logUnavailable {s : BasicNetworkStatus H} {past : List (Call U)}
    (h : Holds getHost attemptLimit tryAgainInterval s past) (url : U) (now : Int) :
    Holds getHost attemptLimit tryAgainInterval (logUnavailableHost getHost s url now)
      (.logUnavailableHost url now :: past) := by
  have hput : ∃ hi, logUnavailableHost getHost s url now = s.put (getHost url) hi ∧
      Entry attemptLimit tryAgainInterval (some hi) (now :: failures getHost (getHost url) past)
        (now :: sinceLate getHost tryAgainInterval (getHost url) past) := by
    have hentry := h.entry (getHost url)
    rw [logUnavailableHost, h.online, if_neg (by simp)]
    cases hf : failures getHost (getHost url) past with
    | nil =>
      rw [hf] at hentry
      obtain ⟨hm, hg⟩ := hentry
      rw [hm, hg]
      exact ⟨_, rfl, _, rfl, h.interval_eq, h.limit_eq, rfl, by simp, by simp⟩
    | cons last fs =>
      rw [hf] at hentry
      obtain ⟨hi, hm, hc⟩ := hentry
      rw [hm]
      exact ⟨_, rfl, _, rfl, hc.log now⟩
  obtain ⟨hi, hs, hentry⟩ := hput
  rw [hs]
  refine ⟨h.online, h.limit_eq, h.interval_eq, fun host => ?_⟩
  rw [failures, sinceLate]
  by_cases heq : getHost url = host
  · subst heq
    rw [if_pos rfl, if_pos rfl, put_self]
    exact hentry
  · rw [if_neg heq, if_neg heq, put_other _ heq]
    exact h.entry host

theorem Holds.logAvailable {s : BasicNetworkStatus H} {past : List (Call U)}
    (h : Holds getHost attemptLimit tryAgainInterval s past) (url : U) (now : Int) :
    Holds getHost attemptLimit tryAgainInterval (logAvailableHost getHost s url)
      (.logAvailableHost url now :: past) := by
  rw [logAvailableHost, h.online, if_neg (by simp)]
  refine ⟨rfl, h.limit_eq, h.interval_eq, fun host => ?_⟩
  rw [failures, sinceLate]
  by_cases heq : getHost url = host
  · subst heq
    rw [if_pos rfl, if_pos rfl]
    exact ⟨Function.update_self .., rfl⟩
  · rw [if_neg heq, if_neg heq]
    show Entry _ _ (Function.update s.hostMap (getHost url) none host) _ _
    rw [Function.update_of_ne (Ne.symm heq)]
    exact h.entry host

/-- The entry's time tells whether a query is late. -/
theorem Counts.recent_iff {hi : HostInfo} {last : Int} {n : Nat} (hc : Counts attemptLimit tryAgainInterval hi last n)
    {host : H} {past : List (Call U)} {fs : List Int} (hf : failures getHost host past = last :: fs) (now : Int) :
    hi.isTimeToTryAgain now = true ↔ ¬ Recent getHost tryAgainInterval host past now := by
  rw [Recent, hf]
  simp [HostInfo.isTimeToTryAgain, hc.interval_eq, hc.time_eq]

theorem Holds.query {s : BasicNetworkStatus H} {past : List (Call U)}
    (h : Holds getHost attemptLimit tryAgainInterval s past) (url : U) (now : Int) :
    Holds getHost attemptLimit tryAgainInterval (isHostUnavailable getHost s url now).1
      (.isHostUnavailable url now :: past) := by
  have hentry := h.entry (getHost url)
  -- a query whose answer does not change the table
  have hsame : (∀ host, getHost url = host → ¬ Recent getHost tryAgainInterval host past now →
      failures getHost host past = []) →
      Holds getHost attemptLimit tryAgainInterval s (.isHostUnavailable url now :: past) := by
    intro hnone
    refine ⟨h.online, h.limit_eq, h.interval_eq, fun host => ?_⟩
    rw [failures, sinceLate]
    split
    · rename_i hlate
      have := h.entry host
      rw [hnone host hlate.1 hlate.2] at this ⊢
      exact ⟨this.1, rfl⟩
    · exact h.entry host
  rw [isHostUnavailable, h.online, if_neg (by simp)]
  cases hf : failures getHost (getHost url) past with
  | nil =>
    rw [hf] at hentry
    rw [hentry.1]
    exact hsame fun host heq _ => heq ▸ hf
  | cons last fs =>
    rw [hf] at hentry
    obtain ⟨hi, hm, hc⟩ := hentry
    rw [hm]
    by_cases hlate : hi.isTimeToTryAgain now = true
    · simp only [hlate, if_true]
      refine ⟨h.online, h.limit_eq, h.interval_eq, fun host => ?_⟩
      by_cases heq : getHost url = host
      · subst heq
        rw [failures, sinceLate, if_pos ⟨rfl, (hc.recent_iff hf now).1 hlate⟩, put_self, hf]
        exact ⟨_, rfl, hc.interval_eq, hc.limit_eq, hc.time_eq, by simp, by simp⟩
      · rw [failures, sinceLate, if_neg fun hl => heq hl.1, put_other _ heq]
        exact h.entry host
    · simp only [hlate, Bool.false_eq_true, if_false]
      exact hsame fun host heq hnot => absurd ((hc.recent_iff hf now).2 (heq ▸ hnot)) hlate

variable (getHost attemptLimit tryAgainInterval)

theorem holds_after (past : List (Call U)) :
    Holds getHost attemptLimit tryAgainInterval (after getHost attemptLimit tryAgainInterval past) past := by
  induction past with
  | nil => exact ⟨rfl, rfl, rfl, fun _ => ⟨rfl, rfl⟩⟩
  | cons call past ih =>
    cases call with
    | logUnavailableHost url now => exact ih.logUnavailable url now
    | logAvailableHost url now => exact ih.logAvailable url now
    | isHostUnavailable url now => exact ih.query url now

/-- Failures since a late query are among those since the last success. -/
theorem length_sinceLate_le (host : H) (past : List (Call U)) :
    (sinceLate getHost tryAgainInterval host past).length ≤ (failures getHost host past).length := by
  induction past with
  | nil => simp [sinceLate, failures]
  | cons call past ih =>
    cases call with
    | logUnavailableHost url now =>
      rw [sinceLate, failures]
      split <;> simpa using ih
    | logAvailableHost url now =>
      rw [sinceLate, failures]
      split
      · simp
      · exact ih
    | isHostUnavailable url now =>
      rw [sinceLate, failures]
      split
      · simp
      · exact ih

/-- An answer is wrong exactly when failures were forgotten. -/
theorem answerRight_iff (past : List (Call U)) (url : U) (now : Int) :
    AnswerRight getHost attemptLimit tryAgainInterval past url now ↔
      ¬ Forgotten getHost attemptLimit tryAgainInterval (getHost url) past now := by
  have h := holds_after getHost attemptLimit tryAgainInterval past
  have hentry := h.entry (getHost url)
  have hle := length_sinceLate_le getHost tryAgainInterval (getHost url) past
  rw [AnswerRight, Forgotten, Unavailable, isHostUnavailable, h.online, if_neg (by simp)]
  cases hf : failures getHost (getHost url) past with
  | nil =>
    rw [hf] at hentry
    have hnot : ¬ Recent getHost tryAgainInterval (getHost url) past now := by simp [Recent, hf]
    rw [hentry.1]
    simp [hnot]
  | cons last fs =>
    rw [hf] at hentry hle
    obtain ⟨hi, hm, hc⟩ := hentry
    have hrecent := hc.recent_iff hf now
    have hcount := hc.limit_le
    rw [hm]
    by_cases hlate : hi.isTimeToTryAgain now = true
    · simp [hlate, hrecent.1 hlate]
    · have hr : Recent getHost tryAgainInterval (getHost url) past now := by
        by_contra hnot
        exact hlate (hrecent.2 hnot)
      simp only [hlate, Bool.false_eq_true, if_false, HostInfo.isUnavailable, hc.limit_eq, decide_eq_true_eq, hr,
        and_true]
      omega

/-- All answers of a sequence of calls are right exactly when none of them
forgot failures. -/
theorem answers_right_iff (calls : List (Call U)) :
    (∀ url now past, .isHostUnavailable url now :: past <:+ calls →
      AnswerRight getHost attemptLimit tryAgainInterval past url now) ↔
    ∀ url now past, .isHostUnavailable url now :: past <:+ calls →
      ¬ Forgotten getHost attemptLimit tryAgainInterval (getHost url) past now :=
  forall_congr' fun url => forall_congr' fun now => forall_congr' fun past =>
    imp_congr_right fun _ => answerRight_iff getHost attemptLimit tryAgainInterval past url now

/-- Two failures, a query after the interval, a third failure, and a query. -/
def oneMore : List (Call Unit) :=
  [.isHostUnavailable () 202, .logUnavailableHost () 201, .isHostUnavailable () 200, .logUnavailableHost () 1,
    .logUnavailableHost () 0]

/-- The third failure does not return the host to the unavailable state. -/
theorem oneMore_available : ¬ ∀ url now past, .isHostUnavailable url now :: past <:+ oneMore →
    AnswerRight id 2 100 past url now := by
  intro h
  have hright := h () 202 _ (List.suffix_refl oneMore)
  rw [AnswerRight] at hright
  exact absurd (hright.2 ⟨by decide, by decide⟩) (by decide)

end WorldWind.NetworkStatus
