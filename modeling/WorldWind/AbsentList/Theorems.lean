import WorldWind.AbsentList.Model
/-!
# Do queries change answers?

A query for a resource whose try-again interval is over removes its entry, and
with it the number of tries. A mark does not look at the interval: it counts
up the number that is still there. So if the interval passes between two marks
it depends on a query in between whether the count starts again.

While no more resources are named than the list holds, the entry of one
resource depends on the calls about that resource alone (`get_run`). The answer
to a query is then the same whatever other queries are made exactly when it
does not depend on where the count started (`determined_iff`).
-/

namespace WorldWind.AbsentList

open SessionCache AbsentResourceList

variable {K : Type}

/-! ## Histories -/

def Op.isQuery : Op K → Bool
  | .query _ => true
  | _ => false

/-- The calls without the queries. -/
def history (calls : List (Call K)) : List (Call K) := calls.filter fun c => ¬ c.op.isQuery

section
variable [DecidableEq K]

/-- The marks of `r` after one more call: an unmark clears them. -/
def markStep (r : K) (l : List Int) (c : Call K) : List Int :=
  if c.op = .mark r then l ++ [c.time] else if c.op = .unmark r then [] else l

/-- The times `r` was marked at since it was last unmarked. -/
def marks (r : K) (calls : List (Call K)) : List Int := calls.foldl (markStep r) []

/-- Calls in the order of their times, until `t`, on no more resources than the
list holds, `r` included. -/
def Legal (cacheSize : Nat) (r : K) (t : Int) (calls : List (Call K)) : Prop :=
  (calls.map (·.time)).Pairwise (· ≤ ·) ∧ (∀ c ∈ calls, c.time ≤ t) ∧
    (insert r (calls.map (·.op.resource)).toFinset).card ≤ cacheSize

/-- `isResourceAbsent(r)` at time `t`, after the calls. -/
def answer (cacheSize : Nat) (s : Settings) (calls : List (Call K)) (r : K) (t : Int) : Bool :=
  (((new cacheSize s).run calls).isResourceAbsent r t).2

instance (cacheSize : Nat) (r : K) (t : Int) (calls : List (Call K)) : Decidable (Legal cacheSize r t calls) :=
  inferInstanceAs (Decidable (_ ∧ _ ∧ _))

/-- Whatever legal queries are made between the marks and unmarks of `H`, a
query for `r` at time `t` gets the same answer. -/
def Determined (cacheSize : Nat) (s : Settings) (H : List (Call K)) (r : K) (t : Int) : Prop :=
  ∀ calls calls', Legal cacheSize r t calls → Legal cacheSize r t calls' → history calls = H → history calls' = H →
    answer cacheSize s calls r t = answer cacheSize s calls' r t
end

/-- The try-again interval passes between mark `i` and the next. -/
def Gap (s : Settings) (l : List Int) (i : Nat) : Prop :=
  ∃ a ∈ l[i]?, ∃ b ∈ l[i + 1]?, s.tryAgainInterval < b - a

/-- At time `t` the answer for a resource marked at the times `l` depends on
the number of tries, and then it does not matter whether they are counted from
the first mark or from one behind a gap. -/
def CountsAgree (s : Settings) (l : List Int) (t : Int) : Prop :=
  ∀ last ∈ l.getLast?, s.minCheckInterval ≤ t - last → t - last ≤ s.tryAgainInterval →
    ∀ i < l.length, Gap s l i →
      (s.maxTries < Int32.ofNat l.length ↔ s.maxTries < Int32.ofNat (l.length - (i + 1)))

instance (s : Settings) (l : List Int) (i : Nat) : Decidable (Gap s l i) :=
  inferInstanceAs (Decidable (∃ a ∈ l[i]?, ∃ b ∈ l[i + 1]?, _))

instance (s : Settings) (l : List Int) (t : Int) : Decidable (CountsAgree s l t) :=
  inferInstanceAs (Decidable (∀ last ∈ l.getLast?, _ → _ → ∀ i < l.length, _ → _))

/-! ## One resource at a time -/

/-- No entry is driven out: the keys are among the resources `F`, and the map
has room for all of `F`. -/
structure Roomy (F : Finset K) (l : AbsentResourceList K) : Prop where
  nodup : (l.possiblyAbsent.entries.map (·.1)).Nodup
  keys : ∀ k ∈ l.possiblyAbsent.entries.map (·.1), k ∈ F
  room : F.card ≤ l.possiblyAbsent.capacity

theorem Roomy.of_keys {F : Finset K} {l l' : AbsentResourceList K} (h : Roomy F l)
    (hk : l'.possiblyAbsent.entries.map (·.1) = l.possiblyAbsent.entries.map (·.1))
    (hc : l'.possiblyAbsent.capacity = l.possiblyAbsent.capacity) : Roomy F l' :=
  ⟨hk ▸ h.nodup, hk ▸ h.keys, hc ▸ h.room⟩

theorem Roomy.sublist {F : Finset K} {l l' : AbsentResourceList K} (h : Roomy F l)
    (hk : l'.possiblyAbsent.entries.Sublist l.possiblyAbsent.entries)
    (hc : l'.possiblyAbsent.capacity = l.possiblyAbsent.capacity) : Roomy F l' :=
  ⟨h.nodup.sublist (hk.map _), fun k hkk => h.keys k ((hk.map _).subset hkk), hc ▸ h.room⟩

section
variable [DecidableEq K]

/-- The entry of `r` after a call. -/
def track (s : Settings) (r : K) (e : Option AbsentResourceEntry) (c : Call K) : Option AbsentResourceEntry :=
  match c.op with
  | .mark q => if q = r then some ⟨c.time, (e.elim 0 (·.numTries)) + 1⟩ else e
  | .unmark q => if q = r then none else e
  | .query q =>
    if q = r then e.bind fun e => if s.tryAgainInterval < c.time - e.timeOfLastMark then none else some e else e

theorem modify_keys {V : Type} (m : BoundedHashMap K V) (key : K) (f : V → V) :
    (m.modify key f).entries.map (·.1) = m.entries.map (·.1) := by
  simp only [BoundedHashMap.modify, List.map_map]
  refine List.map_congr_left fun e _ => ?_
  simp only [Function.comp]
  split <;> rfl

/-- A call about a resource of `F` changes the entries as `track` says. -/
theorem apply_spec {F : Finset K} {l : AbsentResourceList K} (h : Roomy F l) {c : Call K} (hc : c.op.resource ∈ F) :
    Roomy F (l.apply c) ∧ (l.apply c).settings = l.settings ∧
      ∀ r, (l.apply c).possiblyAbsent.get r = track l.settings r (l.possiblyAbsent.get r) c := by
  obtain ⟨time, op⟩ := c
  cases op with
  | unmark q =>
    refine ⟨h.sublist List.filter_sublist rfl, rfl, fun r => ?_⟩
    simp only [apply, unmarkResourceAbsent, BoundedHashMap.get_remove, track, eq_comm]
  | query q =>
    cases hq : l.possiblyAbsent.get q with
    | none =>
      have happ : l.apply ⟨time, .query q⟩ = l := by simp only [apply, isResourceAbsent, hq]
      rw [happ]
      refine ⟨h, rfl, fun r => ?_⟩
      simp only [track]
      split
      · rename_i hr
        rw [← hr, hq]
        rfl
      · rfl
    | some e =>
      by_cases hexp : l.settings.tryAgainInterval < time - e.timeOfLastMark
      · have happ : l.apply ⟨time, .query q⟩ = { l with possiblyAbsent := l.possiblyAbsent.remove q } := by
          simp only [apply, isResourceAbsent, hq, if_pos hexp]
        rw [happ]
        refine ⟨h.sublist List.filter_sublist rfl, rfl, fun r => ?_⟩
        simp only [BoundedHashMap.get_remove, track]
        by_cases hr : q = r
        · subst hr
          rw [if_pos rfl, if_pos rfl, hq, Option.bind_some, if_pos hexp]
        · simp [hr, Ne.symm hr]
      · have happ : l.apply ⟨time, .query q⟩ = l := by simp only [apply, isResourceAbsent, hq, if_neg hexp]
        rw [happ]
        refine ⟨h, rfl, fun r => ?_⟩
        simp only [track]
        split
        · rename_i hr
          rw [← hr, hq, Option.bind_some, if_neg hexp]
        · rfl
  | mark q =>
    have hm : ∀ {m : BoundedHashMap K AbsentResourceEntry} {e0 : AbsentResourceEntry}, m.get q = some e0 →
        (∀ r, r ≠ q → m.get r = l.possiblyAbsent.get r) →
        e0.numTries = (l.possiblyAbsent.get q).elim 0 (·.numTries) → ∀ r,
        (m.modify q fun e => ⟨time, e.numTries + 1⟩).get r =
          track l.settings r (l.possiblyAbsent.get r) ⟨time, .mark q⟩ := by
      intro m e0 he hother htries r
      rw [BoundedHashMap.get_modify]
      simp only [track]
      by_cases hr : r = q
      · subst hr
        rw [if_pos rfl, if_pos rfl, he, Option.map_some, htries]
      · rw [if_neg hr, if_neg (Ne.symm hr), hother r hr]
    cases hq : l.possiblyAbsent.get q with
    | none =>
      -- The map has room for `q`, which is in `F` and not among the keys.
      have hnew := BoundedHashMap.get_eq_none.1 hq
      have hfit : l.possiblyAbsent.size < l.possiblyAbsent.capacity := by
        have hsub : insert q (l.possiblyAbsent.entries.map (·.1)).toFinset ⊆ F := by
          intro k hk
          rcases Finset.mem_insert.1 hk with rfl | hk
          · exact hc
          · exact h.keys k (List.mem_toFinset.1 hk)
        have hcard := Finset.card_le_card hsub
        rw [Finset.card_insert_of_notMem (fun hin => hnew (List.mem_toFinset.1 hin)),
          List.toFinset_card_of_nodup h.nodup, List.length_map] at hcard
        exact Nat.lt_of_lt_of_le hcard h.room
      have hget := BoundedHashMap.get_put_new hq hfit (⟨0, 0⟩ : AbsentResourceEntry)
      have happ : l.apply ⟨time, .mark q⟩ =
          ⟨(l.possiblyAbsent.put q ⟨0, 0⟩).modify q fun e => ⟨time, e.numTries + 1⟩, l.settings⟩ := by
        simp only [apply, markResourceAbsent, hq]
      rw [happ]
      refine ⟨⟨?_, ?_, ?_⟩, rfl, ?_⟩
      · rw [modify_keys, BoundedHashMap.put_new hq hfit, List.map_append, List.nodup_append]
        refine ⟨h.nodup, by simp, fun a ha b hb => ?_⟩
        simp only [List.map_cons, List.map_nil, List.mem_singleton] at hb
        rintro rfl
        exact hnew (hb ▸ ha)
      · intro k hk
        rw [modify_keys, BoundedHashMap.put_new hq hfit, List.map_append, List.mem_append] at hk
        rcases hk with hk | hk
        · exact h.keys k hk
        · simp only [List.map_cons, List.map_nil, List.mem_singleton] at hk
          exact hk ▸ hc
      · rw [BoundedHashMap.put_new hq hfit]
        exact h.room
      · exact hm (by rw [hget, if_pos rfl]) (fun r hr => by rw [hget, if_neg hr]) (by rw [hq]; rfl)
    | some e =>
      have happ : l.apply ⟨time, .mark q⟩ =
          ⟨l.possiblyAbsent.modify q fun e => ⟨time, e.numTries + 1⟩, l.settings⟩ := by
        simp only [apply, markResourceAbsent, hq]
      rw [happ]
      exact ⟨h.of_keys (modify_keys _ _ _) rfl, rfl, hm hq (fun _ _ => rfl) (by rw [hq]; rfl)⟩

/-- The entry of `r` after a list of calls. -/
def entryOf (s : Settings) (r : K) (calls : List (Call K)) : Option AbsentResourceEntry :=
  calls.foldl (track s r) none

theorem run_spec {F : Finset K} {calls : List (Call K)} (hF : ∀ c ∈ calls, c.op.resource ∈ F) :
    ∀ {l : AbsentResourceList K}, Roomy F l → (l.run calls).settings = l.settings ∧
      ∀ r, (l.run calls).possiblyAbsent.get r = calls.foldl (track l.settings r) (l.possiblyAbsent.get r) := by
  induction calls with
  | nil => exact fun _ => ⟨rfl, fun _ => rfl⟩
  | cons c calls ih =>
    intro l h
    obtain ⟨h1, hs, hget⟩ := apply_spec h (hF c List.mem_cons_self)
    obtain ⟨hs', hget'⟩ := ih (fun c hc => hF c (List.mem_cons_of_mem _ hc)) h1
    refine ⟨hs'.trans hs, fun r => ?_⟩
    rw [List.foldl_cons, ← hget, ← hs]
    exact hget' r

/-- The entry of a resource depends on the calls about it alone. -/
theorem get_run {cacheSize : Nat} {s : Settings} {calls : List (Call K)} {r : K} {t : Int}
    (h : Legal cacheSize r t calls) :
    ((new cacheSize s).run calls).settings = s ∧
      ((new cacheSize s).run calls).possiblyAbsent.get r = entryOf s r calls := by
  obtain ⟨hs, hget⟩ := run_spec (F := insert r (calls.map (·.op.resource)).toFinset) (l := new cacheSize s)
    (fun c hc => Finset.mem_insert_of_mem (List.mem_toFinset.2 (List.mem_map_of_mem hc)))
    ⟨List.nodup_nil, nofun, h.2.2⟩
  exact ⟨hs, hget r⟩

/-- The answer for an entry. -/
def verdict (s : Settings) (e : Option AbsentResourceEntry) (t : Int) : Bool :=
  e.elim false fun e => ¬ s.tryAgainInterval < t - e.timeOfLastMark ∧
    (t - e.timeOfLastMark < s.minCheckInterval ∨ s.maxTries < e.numTries)

theorem verdict_expired {s : Settings} {e : AbsentResourceEntry} {t : Int}
    (hexp : s.tryAgainInterval < t - e.timeOfLastMark) : verdict s (some e) t = false :=
  decide_eq_false fun h => h.1 hexp

theorem verdict_live {s : Settings} {e : AbsentResourceEntry} {t : Int}
    (hlive : ¬ s.tryAgainInterval < t - e.timeOfLastMark) : verdict s (some e) t =
      decide (t - e.timeOfLastMark < s.minCheckInterval ∨ s.maxTries < e.numTries) := by
  simp only [verdict, Option.elim_some, hlive, not_false_eq_true, true_and]

theorem answer_eq {cacheSize : Nat} {s : Settings} {calls : List (Call K)} {r : K} {t : Int}
    (h : Legal cacheSize r t calls) : answer cacheSize s calls r t = verdict s (entryOf s r calls) t := by
  obtain ⟨hs, hget⟩ := get_run (s := s) h
  rw [answer, isResourceAbsent, hs, hget]
  cases entryOf s r calls with
  | none => rfl
  | some e =>
    dsimp only
    split
    · rename_i hexp
      rw [verdict_expired hexp]
    · rename_i hexp
      rw [verdict_live hexp]

end

/-! ## Counts -/

theorem Gap.lt {s : Settings} {l : List Int} {i : Nat} (h : Gap s l i) : i + 1 < l.length := by
  obtain ⟨a, -, b, hb, -⟩ := h
  exact (List.getElem?_eq_some_iff.1 hb).1

theorem Gap.append {s : Settings} {l : List Int} {i : Nat} (h : Gap s l i) (x : Int) : Gap s (l ++ [x]) i := by
  have hlt := h.lt
  rwa [Gap, List.getElem?_append_left hlt, List.getElem?_append_left (Nat.lt_of_succ_lt hlt)]

/-- The count may start at mark `j`: it is the first, or behind a gap. -/
def Start (s : Settings) (l : List Int) (j : Nat) : Prop := j = 0 ∨ ∃ i, j = i + 1 ∧ Gap s l i

theorem Start.le {s : Settings} {l : List Int} {j : Nat} (h : Start s l j) : j ≤ l.length := by
  rcases h with rfl | ⟨i, rfl, hgap⟩
  · exact Nat.zero_le _
  · exact Nat.le_of_lt hgap.lt

/-- An entry for a resource marked at the times `l`. It may count from a mark
behind a gap, and is missing only if the last mark has expired. -/
def Reflects (s : Settings) (l : List Int) (t : Int) : Option AbsentResourceEntry → Prop
  | none => ∀ last ∈ l.getLast?, s.tryAgainInterval < t - last
  | some e => l.getLast? = some e.timeOfLastMark ∧ ∃ j, Start s l j ∧ e.numTries = Int32.ofNat (l.length - j)

theorem Reflects.mono {s : Settings} {l : List Int} {t t' : Int} {e : Option AbsentResourceEntry}
    (h : Reflects s l t e) (ht : t ≤ t') : Reflects s l t' e := by
  cases e with
  | none =>
    intro last hlast
    have := h last hlast
    omega
  | some e => exact h

/-- The entry of a resource that is never asked about. -/
def untouched (l : List Int) : Option AbsentResourceEntry :=
  l.getLast?.map fun last => ⟨last, Int32.ofNat l.length⟩

/-- If the counts agree, every entry gives the answer of the untouched one. -/
theorem verdict_of_agree {s : Settings} {l : List Int} {t : Int} {e : Option AbsentResourceEntry}
    (h : Reflects s l t e) (ha : CountsAgree s l t) : verdict s e t = verdict s (untouched l) t := by
  cases e with
  | none =>
    cases hl : l.getLast? with
    | none => simp [untouched, hl]
    | some last =>
      rw [untouched, hl, Option.map_some, verdict_expired (h last hl)]
      rfl
  | some e =>
    obtain ⟨hlast, j, hstart, htries⟩ := h
    simp only [untouched, hlast, Option.map_some, verdict, Option.elim_some]
    by_cases hexp : s.tryAgainInterval < t - e.timeOfLastMark
    · simp [hexp]
    by_cases hmin : t - e.timeOfLastMark < s.minCheckInterval
    · simp [hmin]
    have hcount : s.maxTries < e.numTries ↔ s.maxTries < Int32.ofNat l.length := by
      rcases hstart with rfl | ⟨i, rfl, hgap⟩
      · rw [htries, Nat.sub_zero]
      · rw [htries]
        exact (ha _ hlast (Int.not_lt.1 hmin) (Int.not_lt.1 hexp) i (Nat.lt_of_succ_lt hgap.lt) hgap).symm
    simp only [hcount]

/-! ## Entries and marks -/

section
variable [DecidableEq K]

theorem reflects_step {s : Settings} {r : K} {l : List Int} {t : Int} {e : Option AbsentResourceEntry}
    (h : Reflects s l t e) {c : Call K} (ht : t ≤ c.time) : Reflects s (markStep r l c) c.time (track s r e c) := by
  obtain ⟨time, op⟩ := c
  have hmono : Reflects s l time e := h.mono ht
  cases op with
  | unmark q =>
    by_cases hq : q = r
    · simp [markStep, track, hq, Reflects]
    · simpa [markStep, track, hq] using hmono
  | query q =>
    by_cases hq : q = r
    · simp only [markStep, track, hq, if_true, reduceCtorEq, if_false]
      cases e with
      | none => exact hmono
      | some e =>
        rw [Option.bind_some]
        split
        · rename_i hexp
          intro last hlast
          rw [Option.mem_def, h.1] at hlast
          exact Option.some.inj hlast ▸ hexp
        · exact hmono
    · simpa [markStep, track, hq] using hmono
  | mark q =>
    by_cases hq : q = r
    · have hstep : markStep r l ⟨time, .mark q⟩ = l ++ [time] := by simp [markStep, hq]
      have hlen : (l ++ [time]).length = l.length + 1 := by simp
      simp only [hstep, track, if_pos hq]
      refine ⟨by simp, ?_⟩
      cases e with
      | none =>
        -- The count starts with this mark: it is the first, or behind a gap.
        refine ⟨l.length, ?_, by rw [hlen, Nat.add_sub_cancel_left]; rfl⟩
        cases hl : l.getLast? with
        | none => exact .inl (by rw [List.getLast?_eq_none_iff.1 hl]; rfl)
        | some last =>
          have hne : l ≠ [] := by
            rintro rfl
            cases hl
          have hpos := List.length_pos_iff.2 hne
          refine .inr ⟨l.length - 1, by omega, last, ?_, time, ?_, hmono last hl⟩
          · rw [Option.mem_def, List.getElem?_append_left (by omega), ← List.getLast?_eq_getElem?, hl]
          · rw [Option.mem_def, Nat.sub_add_cancel hpos, List.getElem?_concat_length]
      | some e =>
        obtain ⟨-, j, hstart, htries⟩ := h
        have hle := hstart.le
        refine ⟨j, ?_, ?_⟩
        · rcases hstart with h0 | ⟨i, hi, hgap⟩
          · exact .inl h0
          · exact .inr ⟨i, hi, hgap.append time⟩
        · rw [hlen, Nat.sub_add_comm hle, Int32.ofNat_add, ← htries]
          rfl
    · simpa [markStep, track, hq] using hmono

/-- After any calls until `t` the entry reflects the marks. -/
theorem reflects_run {s : Settings} {r : K} {calls : List (Call K)} {t : Int}
    (hord : (calls.map (·.time)).Pairwise (· ≤ ·)) (ht : ∀ c ∈ calls, c.time ≤ t) :
    Reflects s (marks r calls) t (entryOf s r calls) := by
  induction calls using List.reverseRecOn generalizing t with
  | nil => exact fun last hlast => by cases hlast
  | append_singleton calls c ih =>
    rw [List.map_append, List.pairwise_append] at hord
    have hc : ∀ d ∈ calls, d.time ≤ c.time := fun d hd =>
      hord.2.2 _ (List.mem_map_of_mem hd) _ (by simp)
    rw [marks, entryOf, List.foldl_append, List.foldl_append]
    exact (reflects_step (ih hord.1 hc) (Int.le_refl _)).mono (ht c (by simp))

/-- Queries are not among the marks. -/
theorem marks_history (r : K) (calls : List (Call K)) : marks r (history calls) = marks r calls := by
  have hgo : ∀ l, (history calls).foldl (markStep r) l = calls.foldl (markStep r) l := by
    induction calls with
    | nil => exact fun _ => rfl
    | cons c calls ih =>
      intro l
      obtain ⟨time, op⟩ := c
      cases op with
      | query q => simpa [history, Op.isQuery, markStep] using ih l
      | mark q => simpa [history, Op.isQuery] using ih _
      | unmark q => simpa [history, Op.isQuery] using ih _
  exact hgo []

theorem marks_concat (r : K) (calls : List (Call K)) (c : Call K) :
    marks r (calls ++ [c]) = markStep r (marks r calls) c := by
  rw [marks, List.foldl_append]
  rfl

/-- Without queries the count starts at the first mark. -/
theorem entryOf_untouched {s : Settings} {r : K} {H : List (Call K)} (hH : ∀ c ∈ H, ¬ c.op.isQuery) :
    entryOf s r H = untouched (marks r H) := by
  induction H using List.reverseRecOn with
  | nil => rfl
  | append_singleton H c ih =>
    have ih := ih fun d hd => hH d (by simp [hd])
    have hc := hH c (by simp)
    obtain ⟨time, op⟩ := c
    rw [marks_concat, entryOf, List.foldl_append, List.foldl_cons, List.foldl_nil]
    change track s r (entryOf s r H) _ = _
    rw [ih]
    cases op with
    | query q => exact absurd rfl hc
    | unmark q =>
      by_cases hq : q = r
      · simp [track, markStep, hq, untouched]
      · simp [track, markStep, hq]
    | mark q =>
      by_cases hq : q = r
      · have htries : (untouched (marks r H)).elim 0 (·.numTries) = Int32.ofNat (marks r H).length := by
          cases hl : (marks r H).getLast? with
          | none => simp [untouched, List.getLast?_eq_none_iff.1 hl]
          | some last => simp [untouched, hl]
        simp only [track, markStep, hq, if_true, htries]
        simp [untouched, Int32.ofNat_add]
      · simp [track, markStep, hq]

/-- A history split at the mark with number `i` since the last unmark. -/
theorem split_marks (r : K) (H : List (Call K)) (i : Nat) (time : Int) (hi : (marks r H)[i]? = some time) :
    ∃ H1 H2, H = H1 ++ ⟨time, .mark r⟩ :: H2 ∧ marks r H1 = (marks r H).take i ∧
      marks r (⟨time, .mark r⟩ :: H2) = (marks r H).drop i := by
  induction H using List.reverseRecOn with
  | nil => cases hi
  | append_singleton H c ih =>
    rw [marks_concat] at hi ⊢
    by_cases hmark : c.op = .mark r
    · have hstep : markStep r (marks r H) c = marks r H ++ [c.time] := if_pos hmark
      rw [hstep] at hi ⊢
      by_cases hlt : i < (marks r H).length
      · rw [List.getElem?_append_left hlt] at hi
        obtain ⟨H1, H2, hH, h1, h2⟩ := ih hi
        refine ⟨H1, H2 ++ [c], by rw [hH, List.append_assoc]; rfl, ?_, ?_⟩
        · rw [h1, List.take_append_of_le_length (Nat.le_of_lt hlt)]
        · rw [← List.cons_append, marks_concat, h2, List.drop_append_of_le_length (Nat.le_of_lt hlt)]
          exact if_pos hmark
      · -- The call is the mark.
        have hlen := (List.getElem?_eq_some_iff.1 hi).1
        simp only [List.length_append, List.length_singleton] at hlen
        obtain rfl : i = (marks r H).length := by omega
        rw [List.getElem?_concat_length] at hi
        obtain rfl : c = ⟨time, .mark r⟩ := by
          obtain ⟨t, op⟩ := c
          cases hmark
          cases hi
          rfl
        exact ⟨H, [], rfl, List.take_left.symm, by rw [List.drop_left]; simp [marks, markStep]⟩
    · by_cases hunmark : c.op = .unmark r
      · rw [markStep, if_neg hmark, if_pos hunmark] at hi
        cases hi
      · have hstep : ∀ l, markStep r l c = l := fun l => by rw [markStep, if_neg hmark, if_neg hunmark]
        rw [hstep] at hi ⊢
        obtain ⟨H1, H2, hH, h1, h2⟩ := ih hi
        refine ⟨H1, H2 ++ [c], by rw [hH, List.append_assoc]; rfl, h1, ?_⟩
        rw [← List.cons_append, marks_concat, h2, hstep]

/-! ## The answer and the history -/

/-- A query may be put in where it finds the entry expired: the count then
starts behind the gap. -/
theorem exists_restart {cacheSize : Nat} {s : Settings} {H : List (Call K)} {r : K} {t : Int}
    (hH : ∀ c ∈ H, ¬ c.op.isQuery) (hlegal : Legal cacheSize r t H) {i : Nat} (hgap : Gap s (marks r H) i) :
    ∃ calls, Legal cacheSize r t calls ∧ history calls = H ∧
      entryOf s r calls = untouched ((marks r H).drop (i + 1)) := by
  obtain ⟨a, ha, b, hb, hab⟩ := hgap
  obtain ⟨H1, H2, hsplit, h1, h2⟩ := split_marks r H (i + 1) b hb
  have hhist : ∀ {L : List (Call K)}, (∀ c ∈ L, ¬ c.op.isQuery) → history L = L := fun hL =>
    List.filter_eq_self.2 fun c hc => by simpa using hL c hc
  have hH1 : ∀ c ∈ H1, ¬ c.op.isQuery := fun c hc => hH c (by simp [hsplit, hc])
  have hH2 : ∀ c ∈ (⟨b, .mark r⟩ : Call K) :: H2, ¬ c.op.isQuery := fun c hc =>
    hH c (by rw [hsplit]; exact List.mem_append_right _ hc)
  refine ⟨H1 ++ ⟨b, .query r⟩ :: ⟨b, .mark r⟩ :: H2, ⟨?_, ?_, ?_⟩, ?_, ?_⟩
  · have hord := hlegal.1
    rw [hsplit] at hord
    simp only [List.map_append, List.map_cons, List.pairwise_append, List.pairwise_cons] at hord ⊢
    refine ⟨hord.1, ⟨?_, hord.2.1⟩, ?_⟩
    · intro x hx
      rcases List.mem_cons.1 hx with rfl | hx
      · exact Int.le_refl _
      · exact hord.2.1.1 x hx
    · intro x hx y hy
      rcases List.mem_cons.1 hy with rfl | hy
      · exact hord.2.2 x hx _ List.mem_cons_self
      · exact hord.2.2 x hx y hy
  · intro c hc
    have hle := hlegal.2.1
    rw [hsplit] at hle
    rcases List.mem_append.1 hc with hc | hc
    · exact hle c (List.mem_append_left _ hc)
    · rcases List.mem_cons.1 hc with rfl | hc
      · exact hle ⟨b, .mark r⟩ (by simp)
      · exact hle c (List.mem_append_right _ hc)
  · have hcard := hlegal.2.2
    rw [hsplit] at hcard
    refine Nat.le_trans (Finset.card_le_card fun k hk => ?_) hcard
    simp only [List.map_append, List.map_cons, List.toFinset_append, List.toFinset_cons, Op.resource,
      Finset.mem_insert, Finset.mem_union] at hk ⊢
    tauto
  · have hfil : history (H1 ++ ⟨b, .query r⟩ :: ⟨b, .mark r⟩ :: H2) = history H1 ++ history (⟨b, .mark r⟩ :: H2) := by
      simp [history, Op.isQuery]
    rw [hfil, hhist hH1, hhist hH2, hsplit]
  · have hlast : (marks r H1).getLast? = some a := by
      rw [h1, List.getLast?_take, if_neg (Nat.succ_ne_zero i), Nat.add_sub_cancel, ha]
      rfl
    have hquery : track s r (entryOf s r H1) ⟨b, .query r⟩ = none := by
      rw [entryOf_untouched hH1, untouched, hlast]
      simp only [track, if_true, Option.map_some, Option.bind_some, if_pos hab]
    have hrest := entryOf_untouched (s := s) (r := r) hH2
    rw [h2] at hrest
    rw [← hrest, entryOf, List.foldl_append, List.foldl_cons]
    change List.foldl _ (track s r (entryOf s r H1) ⟨b, .query r⟩) _ = _
    rw [hquery]
    rfl

/-- The answer to a query is the same under all queries made before, exactly
when the counts from all possible starts agree. -/
theorem determined_iff {cacheSize : Nat} (s : Settings) {H : List (Call K)} {r : K} {t : Int}
    (hH : ∀ c ∈ H, ¬ c.op.isQuery) (hlegal : Legal cacheSize r t H) :
    Determined cacheSize s H r t ↔ CountsAgree s (marks r H) t := by
  have hhist : history H = H := List.filter_eq_self.2 fun c hc => by simpa using hH c hc
  constructor
  · intro hdet last hlast hmin htry i hi hgap
    obtain ⟨calls, hcalls, hhis, hentry⟩ := exists_restart hH hlegal hgap
    have hans := hdet H calls hlegal hcalls hhist hhis
    have hdrop : ((marks r H).drop (i + 1)).getLast? = some last := by
      rw [List.getLast?_drop, if_neg (Nat.not_le.2 hgap.lt), hlast]
    rw [answer_eq hlegal, answer_eq hcalls, hentry, entryOf_untouched hH, untouched, untouched, hdrop, hlast,
      Option.map_some, Option.map_some, verdict_live (Int.not_lt.2 htry), verdict_live (Int.not_lt.2 htry),
      decide_eq_decide, List.length_drop] at hans
    simpa only [Int.not_lt.2 hmin, false_or] using hans
  · intro hagree calls calls' hcalls hcalls' hhis hhis'
    have hverdict : ∀ {L : List (Call K)}, Legal cacheSize r t L → history L = H →
        answer cacheSize s L r t = verdict s (untouched (marks r H)) t := by
      intro L hL hLH
      have hmarks : marks r L = marks r H := by rw [← hLH, marks_history]
      rw [answer_eq hL, ← hmarks]
      exact verdict_of_agree (reflects_run hL.1 hL.2.1) (hmarks ▸ hagree)
    rw [hverdict hcalls hhis, hverdict hcalls' hhis']

end

/-- Marks at 0, 100 and 110: counted from the first or from the second, the
tries are more than the one allowed. -/
theorem determined_small : Determined 2 ⟨1, 10, 60, by decide, by decide, by decide⟩
    [⟨0, .mark 7⟩, ⟨50, .mark 8⟩, ⟨100, .mark 7⟩, ⟨105, .unmark 8⟩, ⟨110, .mark 7⟩] 7 130 :=
  (determined_iff _ (by decide) (by decide)).2 (by decide)

/-- A query at 100 lets the fourth mark count as the first. -/
theorem query_resets_tries : ¬ Determined 5 ⟨3, 10, 60, by decide, by decide, by decide⟩
    [⟨0, .mark 7⟩, ⟨0, .mark 7⟩, ⟨0, .mark 7⟩, ⟨100, .mark 7⟩] 7 115 := by
  intro h
  have hans := h [⟨0, .mark 7⟩, ⟨0, .mark 7⟩, ⟨0, .mark 7⟩, ⟨100, .mark 7⟩]
    [⟨0, .mark 7⟩, ⟨0, .mark 7⟩, ⟨0, .mark 7⟩, ⟨100, .query 7⟩, ⟨100, .mark 7⟩]
    (by decide) (by decide) (by decide) (by decide)
  revert hans
  decide

end WorldWind.AbsentList
