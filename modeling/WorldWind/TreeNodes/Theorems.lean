import WorldWind.Lib.Acyclic
import WorldWind.Lib.Runs
import WorldWind.TreeNodes.Model
/-!
# Cached answers about selected subtrees

What a node should answer depends on the children and the selection of the
nodes below it only (`Shape.status`). The code caches answers and forgets them
along listeners. As long as the listeners of a node mirror the child lists it
is in, a change reaches all nodes above it, and no wrong answer stays
(`Sound`).

`removeChild` of a child that has another parent by now takes it off the list
and tells nobody. Without such a call every answer is right (`faithful`).
-/

namespace WorldWind.TreeNodes

open Relation Lib Lib.Runs

/-! ## What a node should answer -/

/-- The children and the selection of every node. -/
abbrev Shape (N : Type) := N → List N × Bool

namespace Shape

variable {N : Type}

def Child (f : Shape N) (p c : N) : Prop := c ∈ (f p).1

/-- The node and all its descendants agree. -/
def AllBelow (f : Shape N) (n : N) (selected : Bool) : Prop := ∀ d, ReflTransGen f.Child n d → (f d).2 = selected

open Classical in
noncomputable def status (f : Shape N) (n : N) : TreeSelected :=
  if f.AllBelow n true then .SELECTED else if f.AllBelow n false then .NOT_SELECTED else .PARTIALLY_SELECTED

/-- The answer of a node alone. -/
def own (selected : Bool) : TreeSelected := if selected then .SELECTED else .NOT_SELECTED

variable {f g : Shape N} {n : N}

theorem own_ne_partially (selected : Bool) : own selected ≠ .PARTIALLY_SELECTED := by
  cases selected <;> decide

theorem AllBelow.self {b : Bool} (h : f.AllBelow n b) : (f n).2 = b := h n .refl

theorem allBelow_iff {b : Bool} : f.AllBelow n b ↔ (f n).2 = b ∧ ∀ c ∈ (f n).1, f.AllBelow c b := by
  constructor
  · exact fun h => ⟨h.self, fun c hc d hd => h d (.head hc hd)⟩
  · rintro ⟨hn, hc⟩ d hd
    rcases hd.cases_head with rfl | ⟨c, hnc, hcd⟩
    · exact hn
    · exact hc c hnc d hcd

theorem status_eq_own {b : Bool} : f.status n = own b ↔ f.AllBelow n b := by
  unfold status
  by_cases ht : f.AllBelow n true
  · rw [if_pos ht]
    cases b with
    | true => exact iff_of_true rfl ht
    | false => exact iff_of_false (by decide) fun h => by simpa [ht.self] using h.self
  · rw [if_neg ht]
    by_cases hf : f.AllBelow n false
    · rw [if_pos hf]
      cases b with
      | true => exact iff_of_false (by decide) ht
      | false => exact iff_of_true rfl hf
    · rw [if_neg hf]
      cases b with
      | true => exact iff_of_false (by decide) ht
      | false => exact iff_of_false (by decide) hf

/-- The status of a node is its own answer if all its children have it. -/
theorem status_eq : f.status n =
    if ∀ c ∈ (f n).1, f.status c = own (f n).2 then own (f n).2 else .PARTIALLY_SELECTED := by
  have hall : f.AllBelow n (f n).2 ↔ ∀ c ∈ (f n).1, f.status c = own (f n).2 := by
    rw [allBelow_iff]
    simp only [status_eq_own, true_and]
  split
  · rename_i h
    exact status_eq_own.2 (hall.2 h)
  · rename_i h
    have hnot : ∀ b, ¬ f.AllBelow n b := fun b hb => h (hall.1 (hb.self ▸ hb))
    rw [status, if_neg (hnot true), if_neg (hnot false)]

/-- Only the nodes below matter. -/
theorem status_congr (h : ∀ d, ReflTransGen f.Child n d → f d = g d) : f.status n = g.status n := by
  have hreach : ∀ d, ReflTransGen f.Child n d ↔ ReflTransGen g.Child n d := by
    refine fun d => ⟨fun hd => ?_, fun hd => ?_⟩
    · induction hd with
      | refl => exact .refl
      | tail hb hbc ih => exact ih.tail (by unfold Child at hbc ⊢; rwa [← h _ hb])
    · induction hd with
      | refl => exact .refl
      | tail _ hbc ih => exact ih.tail (by unfold Child at hbc ⊢; rwa [h _ ih])
  have hall : ∀ b, f.AllBelow n b ↔ g.AllBelow n b := fun b =>
    forall_congr' fun d => ⟨fun hd hr => h d ((hreach d).2 hr) ▸ hd ((hreach d).2 hr),
      fun hd hr => (h d hr).symm ▸ hd ((hreach d).1 hr)⟩
  classical
  unfold status
  exact if_congr (hall true) rfl (if_congr (hall false) rfl rfl)

end Shape

namespace Forest

variable {N : Type}

def shape (s : Forest N) : Shape N := fun n => (s.getChildren n, (s n).selected)

/-- A forest that differs in its cached answers only. -/
def Same (s s' : Forest N) : Prop := ∀ m, s' m = { s m with treeSelected := (s' m).treeSelected }

/-- Every cached answer is right. -/
def Right (s : Forest N) : Prop := ∀ n v, (s n).treeSelected = some v → v = s.shape.status n

theorem Same.refl (s : Forest N) : Same s s := fun _ => rfl

theorem Same.trans {s t u : Forest N} (h : Same s t) (h' : Same t u) : Same s u := fun m => by rw [h' m, h m]

theorem Same.listeners {s s' : Forest N} (h : Same s s') (m : N) : (s' m).listeners = (s m).listeners := by rw [h m]

theorem Same.shape {s s' : Forest N} (h : Same s s') : s'.shape = s.shape := by
  funext m
  unfold Forest.shape getChildren
  rw [h m]

/-- The forest differs in that some answers are forgotten. -/
structure Cleared (s s' : Forest N) : Prop where
  same : Same s s'
  cache : ∀ m v, (s' m).treeSelected = some v → (s m).treeSelected = some v

theorem Cleared.refl (s : Forest N) : Cleared s s := ⟨.refl s, fun _ _ h => h⟩

theorem Cleared.trans {s t u : Forest N} (h : Cleared s t) (h' : Cleared t u) : Cleared s u :=
  ⟨h.same.trans h'.same, fun m v hv => h.cache m v (h'.cache m v hv)⟩

theorem Cleared.none {s s' : Forest N} (h : Cleared s s') {m : N} (hm : (s m).treeSelected = none) :
    (s' m).treeSelected = none := by
  cases hv : (s' m).treeSelected with
  | none => rfl
  | some v => rw [h.cache m v hv] at hm; cases hm

variable [DecidableEq N]

theorem update_apply (s : Forest N) (n m : N) (f : BasicTreeNode N → BasicTreeNode N) :
    s.update n f m = if m = n then f (s n) else s m := Function.update_apply ..

theorem same_cache (s : Forest N) (n : N) (v : Option TreeSelected) :
    Same s (s.update n fun x => { x with treeSelected := v }) := by
  intro m
  rw [update_apply]
  split
  · rename_i h
    rw [h]
  · rfl

theorem same_forget (s : Forest N) (n : N) : Same s (s.forget n) := same_cache s n none

/-! ## Events -/

theorem forget_treeSelected (s : Forest N) (n m : N) :
    (s.forget n m).treeSelected = if m = n then none else (s m).treeSelected := by
  rw [forget, update_apply]
  split <;> rfl

theorem cleared_forget (s : Forest N) (n : N) : Cleared s (s.forget n) := by
  refine ⟨same_forget s n, fun m v hv => ?_⟩
  rw [forget_treeSelected] at hv
  split at hv
  · cases hv
  · exact hv

section Events
variable [Fintype N]

/-- An event reaches every node that listens, directly or through others. -/
theorem firePropertyChange_spec {L : N → List N} (hL : Acyclic fun n l => l ∈ L n) :
    ∀ depth (s : Forest N) n, (∀ m, (s m).listeners = L m) → rank (fun n l => l ∈ L n) n < depth →
      ∃ s', s.firePropertyChange depth n = some s' ∧ Cleared s s' ∧
        ∀ m, TransGen (fun n l => l ∈ L n) n m → (s' m).treeSelected = none := by
  intro depth
  induction depth with
  | zero => exact fun s n _ h => absurd h (Nat.not_lt_zero _)
  | succ depth ih =>
    intro s n hs hrank
    -- The listeners one after the other.
    have hfold : ∀ (ls : List N) (s : Forest N), (∀ l ∈ ls, l ∈ L n) → (∀ m, (s m).listeners = L m) →
        ∃ s', ls.foldlM (fun s l => firePropertyChange depth (s.forget l) l) s = some s' ∧ Cleared s s' ∧
          ∀ l ∈ ls, (s' l).treeSelected = none ∧
            ∀ m, TransGen (fun n l => l ∈ L n) l m → (s' m).treeSelected = none := by
      intro ls
      induction ls with
      | nil => exact fun s _ _ => ⟨s, rfl, .refl s, nofun⟩
      | cons l ls ihl =>
        intro s hls hs
        have hl : l ∈ L n := hls l List.mem_cons_self
        have hforget := cleared_forget s l
        obtain ⟨s1, h1, hc1, hm1⟩ := ih (s.forget l) l (fun m => (hforget.same.listeners m).trans (hs m))
          (Nat.lt_of_lt_of_le (hL.rank_lt hl) (Nat.le_of_lt_succ hrank))
        obtain ⟨s2, h2, hc2, hm2⟩ := ihl s1 (fun x hx => hls x (List.mem_cons_of_mem _ hx))
          (fun m => ((hforget.trans hc1).same.listeners m).trans (hs m))
        refine ⟨s2, ?_, (hforget.trans hc1).trans hc2, fun x hx => ?_⟩
        · rw [List.foldlM_cons, h1]
          exact h2
        · rcases List.mem_cons.1 hx with rfl | hx
          · have hx : (s.forget x x).treeSelected = none := by rw [forget_treeSelected, if_pos rfl]
            exact ⟨hc2.none (hc1.none hx), fun m hm => hc2.none (hm1 m hm)⟩
          · exact hm2 x hx
    obtain ⟨s', h', hc, hm⟩ := hfold (L n) s (fun _ h => h) hs
    refine ⟨s', by rw [firePropertyChange, hs]; exact h', hc, fun m hnm => ?_⟩
    rcases TransGen.head'_iff.1 hnm with ⟨l, hl, hlm⟩
    rcases reflTransGen_iff_eq_or_transGen.1 hlm with rfl | hlm
    · exact (hm m hl).1
    · exact (hm l hl).2 m hlm

end Events

/-! ## The invariant -/

/-- A node is a listener of another as often as it lists it as a child. -/
def Mirrored (s : Forest N) : Prop := ∀ p c, (s c).listeners.count p = (s.getChildren p).count c

structure Sound (s : Forest N) : Prop where
  mirrored : s.Mirrored
  acyclic : Acyclic s.shape.Child
  right : s.Right

theorem Mirrored.listens {s : Forest N} (h : s.Mirrored) (n l : N) : l ∈ (s n).listeners ↔ s.shape.Child l n := by
  rw [Shape.Child, ← List.count_pos_iff, h, List.count_pos_iff]
  rfl

theorem Same.mirrored {s s' : Forest N} (h : Same s s') (hm : s.Mirrored) : s'.Mirrored := by
  intro p c
  rw [h.listeners, hm]
  unfold getChildren
  rw [h p]

theorem Same.sound {s s' : Forest N} (h : Same s s') (hs : s.Sound) (hr : s'.Right) : s'.Sound :=
  ⟨h.mirrored hs.mirrored, h.shape ▸ hs.acyclic, hr⟩

omit [DecidableEq N] in
/-- The loop over the children of a node. -/
theorem compareChildren_spec (query : Forest N → N → Option (Forest N × TreeSelected)) {f : Shape N} {b : Bool} :
    ∀ (cs : List N) (s : Forest N), s.shape = f → s.Right →
      (∀ c ∈ cs, ∀ t : Forest N, t.shape = f → t.Right →
        ∃ t', query t c = some (t', f.status c) ∧ Same t t' ∧ t'.Right) →
      ∃ s', compareChildren query (Shape.own b) s cs =
          some (s', if ∀ c ∈ cs, f.status c = Shape.own b then Shape.own b else .PARTIALLY_SELECTED) ∧
        Same s s' ∧ s'.Right := by
  intro cs
  induction cs with
  | nil => exact fun s _ hr _ => ⟨s, by simp [compareChildren], .refl s, hr⟩
  | cons c cs ih =>
    intro s hs hr hq
    obtain ⟨s1, h1, hsame1, hr1⟩ := hq c List.mem_cons_self s hs hr
    by_cases hc : f.status c = Shape.own b
    · obtain ⟨s2, h2, hsame2, hr2⟩ := ih s1 (hsame1.shape.trans hs) hr1 fun x hx => hq x (List.mem_cons_of_mem _ hx)
      refine ⟨s2, ?_, hsame1.trans hsame2, hr2⟩
      rw [compareChildren, h1, Option.bind_some, if_neg (by rw [hc]; exact not_not.2 rfl), h2]
      simp only [List.forall_mem_cons, hc, true_and]
    · refine ⟨s1, ?_, hsame1, hr1⟩
      rw [compareChildren, h1, Option.bind_some, if_pos (Ne.symm hc),
        if_neg fun h => hc (h c List.mem_cons_self)]

section Ops
variable [Fintype N]

/-- After a change at `n` that is announced, all answers are right, if those of
the nodes that are not at or above `n` are. -/
theorem fire_sound {s : Forest N} {n : N} (hm : s.Mirrored) (ha : Acyclic s.shape.Child)
    (hn : (s n).treeSelected = none)
    (hr : ∀ m v, (s m).treeSelected = some v → ¬ ReflTransGen s.shape.Child m n → v = s.shape.status m) :
    ∃ s', s.fire n = some s' ∧ s'.Sound := by
  have hlistens : (fun n l => l ∈ (s n).listeners) = Function.swap s.shape.Child := by
    funext n l
    exact propext (hm.listens n l)
  have hL : Acyclic fun n l => l ∈ (s n).listeners := hlistens ▸ ha.swap
  obtain ⟨s', hs', hc, hreach⟩ := firePropertyChange_spec hL (Fintype.card N) s n (fun _ => rfl) (hL.rank_lt_card n)
  refine ⟨s', hs', hc.same.mirrored hm, hc.same.shape ▸ ha, fun m v hv => ?_⟩
  rw [hc.same.shape]
  refine hr m v (hc.cache m v hv) fun habove => ?_
  rcases reflTransGen_iff_eq_or_transGen.1 habove with rfl | habove
  · rw [hc.none hn] at hv
    cases hv
  · rw [hreach m (hlistens ▸ transGen_swap.2 habove)] at hv
    cases hv

/-! ## Queries -/

/-- A query returns the status, and caches right answers only. -/
theorem isTreeSelected_spec {f : Shape N} (ha : Acyclic f.Child) :
    ∀ depth (s : Forest N) n, s.shape = f → s.Right → rank f.Child n < depth →
      ∃ s', s.isTreeSelected depth n = some (s', f.status n) ∧ Same s s' ∧ s'.Right := by
  intro depth
  induction depth with
  | zero => exact fun s n _ _ h => absurd h (Nat.not_lt_zero _)
  | succ depth ih =>
    intro s n hs hr hrank
    cases hv : (s n).treeSelected with
    | some v =>
      refine ⟨s, ?_, .refl s, hr⟩
      rw [isTreeSelected, hv, hr n v hv, hs]
    | none =>
      have hchildren : s.getChildren n = (f n).1 := hs ▸ rfl
      have hselected : (s n).selected = (f n).2 := hs ▸ rfl
      obtain ⟨s1, h1, hsame1, hr1⟩ := compareChildren_spec (isTreeSelected depth) (b := (f n).2) (f n).1 s hs hr
        fun c hc t ht hrt => ih t c ht hrt (Nat.lt_of_lt_of_le (ha.rank_lt hc) (Nat.le_of_lt_succ hrank))
      rw [← Shape.status_eq] at h1
      have hsame2 := same_cache s1 n (some (f.status n))
      refine ⟨_, ?_, hsame1.trans hsame2, fun m v hm => ?_⟩
      · rw [isTreeSelected, hv]
        show Option.map _ (compareChildren (isTreeSelected depth) (Shape.own (s n).selected) s (s.getChildren n)) = _
        rw [hchildren, hselected, h1]
        rfl
      · rw [hsame2.shape, hsame1.shape, hs]
        rw [update_apply] at hm
        split at hm
        · rename_i h
          rw [h]
          exact (Option.some.inj hm).symm
        · rw [hr1 m v hm, hsame1.shape, hs]

/-- The invariant makes every query return the status. -/
theorem Sound.isTreeSelected {s : Forest N} (h : s.Sound) (n : N) :
    ∃ s', s.isTreeSelected (Fintype.card N) n = some (s', s.shape.status n) ∧ Same s s' ∧ s'.Right :=
  isTreeSelected_spec h.acyclic _ s n rfl h.right (h.acyclic.rank_lt_card n)

/-! ## Changes -/

/-- A change of one node that is announced and keeps the mirror. -/
theorem change_sound {s s1 : Forest N} {n : N} (h : s.Sound) (hm : s1.Mirrored) (ha : Acyclic s1.shape.Child)
    (hn : (s1 n).treeSelected = none) (hshape : ∀ m, m ≠ n → s1.shape m = s.shape m)
    (hcache : ∀ m v, (s1 m).treeSelected = some v → (s m).treeSelected = some v) :
    ∃ s', s1.fire n = some s' ∧ s'.Sound := by
  refine fire_sound hm ha hn fun m v hv habove => ?_
  rw [h.right m v (hcache m v hv)]
  refine (Shape.status_congr fun d hd => hshape d ?_).symm
  rintro rfl
  exact habove hd

theorem setSelected_sound {s : Forest N} (h : s.Sound) (n : N) (b : Bool) :
    ∃ s', s.setSelected n b = some s' ∧ s'.Sound := by
  unfold setSelected
  dsimp only
  generalize hs1 : (s.update n fun x => { x with selected := b, treeSelected := none }) = s1
  have happly : ∀ m, s1 m = if m = n then { s n with selected := b, treeSelected := none } else s m := fun m => by
    rw [← hs1, update_apply]
  have hchildren : ∀ m, s1.getChildren m = s.getChildren m := fun m => by
    unfold getChildren
    rw [happly]
    split
    · rename_i hm
      rw [hm]
    · rfl
  have hm : s1.Mirrored := by
    intro p c
    rw [hchildren, ← h.mirrored, happly]
    split
    · rename_i hc
      rw [hc]
    · rfl
  have ha : Acyclic s1.shape.Child := h.acyclic.mono fun p c hc => by
    unfold Shape.Child Forest.shape at hc ⊢
    rwa [hchildren] at hc
  have hcache : ∀ m v, (s1 m).treeSelected = some v → (s m).treeSelected = some v := by
    intro m v hv
    rw [happly] at hv
    split at hv
    · cases hv
    · exact hv
  split
  · refine change_sound h hm ha (by rw [happly, if_pos rfl]) (fun m hne => ?_) hcache
    unfold Forest.shape
    rw [hchildren, happly, if_neg hne]
  · -- The selection is what it was.
    rename_i hb
    refine ⟨s1, rfl, hm, ha, fun m v hv => ?_⟩
    have hshape : s1.shape = s.shape := by
      funext m
      unfold Forest.shape
      rw [hchildren, happly]
      split
      · rename_i hm
        rw [hm, not_not.1 hb]
      · rfl
    rw [hshape]
    exact h.right m v (hcache m v hv)

/-- The child is not the node itself, nor above it. -/
def ChildOk (s : Forest N) (n child : N) : Prop := ¬ ReflTransGen s.shape.Child child n

theorem addChildAt_sound {s : Forest N} (h : s.Sound) {n child : N} (index : Nat) (hok : s.ChildOk n child) :
    ∃ s', s.addChildAt n index child = some s' ∧ s'.Sound := by
  unfold addChildAt
  dsimp only
  split
  · -- The list of children is created, and empty.
    refine ⟨_, rfl, ?_⟩
    generalize hs1 : (s.update n fun x => { x with children := some (s.getChildren n) }) = s1
    have happly : ∀ m, s1 m = if m = n then { s n with children := some (s.getChildren n) } else s m := fun m => by
      rw [← hs1, update_apply]
    have hfields : ∀ m, s1.getChildren m = s.getChildren m ∧ (s1 m).selected = (s m).selected ∧
        (s1 m).listeners = (s m).listeners ∧ (s1 m).treeSelected = (s m).treeSelected := fun m => by
      rw [getChildren, happly]
      split
      · rename_i hm
        subst hm
        exact ⟨rfl, rfl, rfl, rfl⟩
      · exact ⟨rfl, rfl, rfl, rfl⟩
    have hshape : s1.shape = s.shape := by
      funext m
      unfold Forest.shape
      rw [(hfields m).1, (hfields m).2.1]
    refine ⟨fun p c => ?_, hshape ▸ h.acyclic, fun m v hv => ?_⟩
    · rw [(hfields c).2.2.1, (hfields p).1, h.mirrored]
    · rw [(hfields m).2.2.2] at hv
      rw [hshape, h.right m v hv]
  · rename_i hindex
    have hne : child ≠ n := by
      rintro rfl
      exact hok .refl
    generalize hs1 : (Forest.update _ child _ : Forest N) = s1
    have happly : ∀ m, s1 m = if m = child then { s child with parent := some n, listeners :=
        (s child).listeners ++ [n] }
        else if m = n then { s n with children := some ((s.getChildren n).insertIdx index child), treeSelected :=
          none }
        else s m := fun m => by
      rw [← hs1]
      simp only [update_apply, if_neg hne]
    have hchildren : ∀ m, s1.getChildren m =
        if m = n then (s.getChildren n).insertIdx index child else s.getChildren m := fun m => by
      unfold getChildren
      rw [happly]
      by_cases hm : m = child
      · rw [if_pos hm, if_neg (hm ▸ hne), hm]
      · rw [if_neg hm]
        split <;> rfl
    have hperm : ((s.getChildren n).insertIdx index child).Perm (child :: s.getChildren n) :=
      List.perm_insertIdx _ _ (Nat.not_lt.1 hindex)
    have hm : s1.Mirrored := by
      intro p c
      have hold := h.mirrored p c
      rw [hchildren, happly]
      by_cases hc : c = child
      · subst hc
        rw [if_pos rfl, List.count_append, List.count_singleton, hold]
        by_cases hp : p = n
        · subst hp
          simp [hperm.count_eq]
        · rw [if_neg hp]
          simp [Ne.symm hp]
      · have hlisteners : (if c = n then
            ({ s n with children := some ((s.getChildren n).insertIdx index child), treeSelected := none } :
              BasicTreeNode N) else s c).listeners = (s c).listeners := by
          split
          · rename_i hcn
            rw [hcn]
          · rfl
        rw [if_neg hc, hlisteners, hold]
        split
        · rename_i hp
          rw [hp, hperm.count_eq, List.count_cons_of_ne (Ne.symm hc)]
        · rfl
    have ha : Acyclic s1.shape.Child := by
      refine h.acyclic.insert hok fun p c hc => ?_
      unfold Shape.Child Forest.shape at hc ⊢
      dsimp only at hc
      rw [hchildren] at hc
      split at hc
      · rename_i hp
        rcases List.mem_cons.1 (hperm.mem_iff.1 hc) with rfl | hc
        · exact .inr ⟨hp, rfl⟩
        · exact .inl (hp ▸ hc)
      · exact .inl hc
    refine change_sound h hm ha (by rw [happly, if_neg (Ne.symm hne), if_pos rfl]) (fun m hmn => ?_) fun m v hv => ?_
    · unfold Forest.shape
      rw [hchildren, if_neg hmn, happly, if_neg hmn]
      split
      · rename_i hmc
        rw [hmc]
      · rfl
    · rw [happly] at hv
      split at hv
      · rename_i hmc
        rw [hmc]
        exact hv
      · split at hv
        · cases hv
        · exact hv

/-- A node that leaves a parent only changes its parent and its listeners. -/
structure Left (s s' : Forest N) : Prop where
  children : ∀ m, s'.getChildren m = s.getChildren m
  selected : ∀ m, (s' m).selected = (s m).selected
  treeSelected : ∀ m, (s' m).treeSelected = (s m).treeSelected

omit [Fintype N] in
theorem left_leave (s : Forest N) (n child : N) : Left s (s.leave n child) := by
  refine ⟨fun m => ?_, fun m => ?_, fun m => ?_⟩ <;> simp only [getChildren, leave, update_apply] <;> split
  all_goals
    first
    | rfl
    | rename_i hm
      rw [hm]

omit [Fintype N] in
theorem leave_listeners (s : Forest N) (n child m : N) :
    (s.leave n child m).listeners = if m = child then (s m).listeners.erase n else (s m).listeners := by
  unfold leave
  rw [update_apply]
  split
  · rename_i hm
    rw [hm]
  · rfl

omit [Fintype N] in
/-- After all children of a list left, one by one. -/
theorem foldl_leave (n : N) (l : List N) (s : Forest N) :
    Left s (l.foldl (fun s child => s.leave n child) s) ∧ ∀ m p,
      ((l.foldl (fun s child => s.leave n child) s) m).listeners.count p =
        (s m).listeners.count p - if p = n then l.count m else 0 := by
  induction l generalizing s with
  | nil => exact ⟨⟨fun _ => rfl, fun _ => rfl, fun _ => rfl⟩, fun m p => by simp⟩
  | cons child l ih =>
    obtain ⟨hleft, hcount⟩ := ih (s.leave n child)
    have hone := left_leave s n child
    refine ⟨⟨fun m => (hleft.children m).trans (hone.children m), fun m => (hleft.selected m).trans (hone.selected m),
      fun m => (hleft.treeSelected m).trans (hone.treeSelected m)⟩, fun m p => ?_⟩
    rw [List.foldl_cons, hcount, leave_listeners, List.count_cons]
    by_cases hm : m = child
    · subst hm
      rw [if_pos rfl, List.count_erase]
      by_cases hp : p = n
      · subst hp
        simp only [beq_self_eq_true, if_true]
        omega
      · simp [hp, Ne.symm hp]
    · simp [hm, Ne.symm hm]

/-- A removal of children from a list, of listeners from the children, and of
the node's answer. -/
theorem remove_sound {s s1 : Forest N} (h : s.Sound) {n : N} (children : List N)
    (hchildren : ∀ m, s1.getChildren m = if m = n then children else s.getChildren m)
    (hselected : ∀ m, (s1 m).selected = (s m).selected)
    (htreeSelected : ∀ m, (s1 m).treeSelected = if m = n then none else (s m).treeSelected)
    (hsub : ∀ c ∈ children, c ∈ s.getChildren n)
    (hcount : ∀ c p, (s1 c).listeners.count p = if p = n then children.count c else (s c).listeners.count p) :
    ∃ s', s1.fire n = some s' ∧ s'.Sound := by
  have hm : s1.Mirrored := by
    intro p c
    rw [hcount, hchildren]
    split
    · rfl
    · exact h.mirrored p c
  have ha : Acyclic s1.shape.Child := h.acyclic.mono fun p c hc => by
    unfold Shape.Child Forest.shape at hc ⊢
    dsimp only at hc
    rw [hchildren] at hc
    split at hc
    · rename_i hp
      exact hp ▸ hsub c hc
    · exact hc
  refine change_sound h hm ha (by rw [htreeSelected, if_pos rfl]) (fun m hmn => ?_) fun m v hv => ?_
  · unfold Forest.shape
    rw [hchildren, if_neg hmn, hselected]
  · rw [htreeSelected] at hv
    split at hv
    · cases hv
    · exact hv

/-- A child that the node lists has the node as its parent. -/
def RemoveOk (s : Forest N) (n child : N) : Prop := child ∈ s.getChildren n → (s child).parent = some n

theorem removeChild_sound {s : Forest N} (h : s.Sound) {n child : N} (hok : s.RemoveOk n child) :
    ∃ s', s.removeChild n child = some s' ∧ s'.Sound := by
  unfold removeChild
  dsimp only
  generalize hs1 : (s.update n fun x => { x with children := x.children.map fun l => l.erase child }) = s1
  have happly : ∀ m, s1 m = if m = n then
      { s n with children := (s n).children.map fun l => l.erase child } else s m :=
    fun m => by rw [← hs1, update_apply]
  have hchildren : ∀ m, s1.getChildren m = if m = n then (s.getChildren n).erase child else s.getChildren m :=
      fun m => by
    unfold getChildren
    rw [happly]
    split
    · show ((s n).children.map fun l => l.erase child).getD [] = _
      cases (s n).children <;> rfl
    · rfl
  have hfields : ∀ m, (s1 m).parent = (s m).parent ∧ (s1 m).selected = (s m).selected ∧
      (s1 m).treeSelected = (s m).treeSelected ∧ (s1 m).listeners = (s m).listeners := fun m => by
    rw [happly]
    split
    · rename_i hm
      subst hm
      exact ⟨rfl, rfl, rfl, rfl⟩
    · exact ⟨rfl, rfl, rfl, rfl⟩
  split
  · have hforget := same_forget s1 n
    have hleave := left_leave (s1.forget n) n child
    refine remove_sound h ((s.getChildren n).erase child) (fun m => ?_) (fun m => ?_) (fun m => ?_)
      (fun c hc => List.mem_of_mem_erase hc) fun c p => ?_
    · rw [hleave.children, getChildren, hforget m]
      exact hchildren m
    · rw [hleave.selected, hforget m]
      exact (hfields m).2.1
    · rw [hleave.treeSelected, forget_treeSelected, (hfields m).2.2.1]
    · have hold := h.mirrored p c
      rw [leave_listeners, hforget.listeners, (hfields c).2.2.2]
      by_cases hc : c = child
      · subst hc
        rw [if_pos rfl]
        by_cases hp : p = n
        · subst hp
          rw [if_pos rfl, List.count_erase_self, List.count_erase_self, hold]
        · rw [if_neg hp, List.count_erase_of_ne hp]
      · rw [if_neg hc]
        split
        · rename_i hp
          rw [List.count_erase_of_ne hc, ← hp, hold]
        · rfl
  · -- The node does not list the child.
    rename_i hparent
    rw [(hfields child).1] at hparent
    have hnot : child ∉ s.getChildren n := fun hin => hparent (hok hin)
    have hsame : s1 = s := by
      funext m
      rw [happly]
      split
      · rename_i hm
        subst hm
        have : ((s m).children.map fun l => l.erase child) = (s m).children := by
          unfold getChildren at hnot
          cases hl : (s m).children with
          | none => rfl
          | some l =>
            rw [hl] at hnot
            exact congrArg some (List.erase_of_not_mem hnot)
        rw [this]
      · rfl
    exact ⟨s1, rfl, hsame ▸ h⟩

theorem removeAllChildren_sound {s : Forest N} (h : s.Sound) (n : N) :
    ∃ s', s.removeAllChildren n = some s' ∧ s'.Sound := by
  unfold removeAllChildren
  split
  · exact ⟨s, rfl, h⟩
  · exact ⟨s, rfl, h⟩
  · rename_i l _ hl
    dsimp only
    have hlist : s.getChildren n = l := by
      unfold getChildren
      rw [hl]
      rfl
    generalize hs1 : (s.update n fun x => { x with children := some [] }) = s1
    have happly : ∀ m, s1 m = if m = n then { s n with children := some [] } else s m := fun m => by
      rw [← hs1, update_apply]
    have hfields : ∀ m, s1.getChildren m = (if m = n then [] else s.getChildren m) ∧
        (s1 m).selected = (s m).selected ∧
        (s1 m).treeSelected = (s m).treeSelected ∧ (s1 m).listeners = (s m).listeners := fun m => by
      unfold getChildren
      rw [happly]
      split
      · rename_i hm
        subst hm
        exact ⟨rfl, rfl, rfl, rfl⟩
      · exact ⟨rfl, rfl, rfl, rfl⟩
    obtain ⟨hleft, hcount⟩ := foldl_leave n l s1
    generalize l.foldl (fun s child => s.leave n child) s1 = s2 at hleft hcount
    have hforget := same_forget s2 n
    refine remove_sound h [] (fun m => ?_) (fun m => ?_) (fun m => ?_) nofun fun c p => ?_
    · rw [getChildren, hforget m]
      exact (hleft.children m).trans (hfields m).1
    · rw [hforget m]
      exact (hleft.selected m).trans (hfields m).2.1
    · rw [forget_treeSelected, hleft.treeSelected, (hfields m).2.2.1]
    · rw [hforget.listeners, hcount, (hfields c).2.2.2]
      split
      · rename_i hp
        rw [hp, h.mirrored, hlist, Nat.sub_self, List.count_nil]
      · exact Nat.sub_zero _

/-! ## Runs -/

omit [Fintype N] in
theorem new_sound : (Forest.new : Forest N).Sound := by
  refine ⟨fun _ _ => rfl, fun n hn => ?_, nofun⟩
  obtain ⟨c, hc, -⟩ := TransGen.head'_iff.1 hn
  cases hc

/-- The call makes no cycle, and removes no child that has another parent. -/
def ActionOk (s : Forest N) : Action N → Prop
  | .addChild n child | .addChildAt n _ child => s.ChildOk n child
  | .removeChild n child => s.RemoveOk n child
  | .removeAllChildren _ | .setSelected _ _ | .isTreeSelected _ => True

theorem act_sound {s : Forest N} (h : s.Sound) {action : Action N} (hok : s.ActionOk action) :
    ∃ s', s.act action = some s' ∧ s'.Sound := by
  cases action with
  | addChild n child => exact addChildAt_sound h _ hok
  | addChildAt n index child => exact addChildAt_sound h index hok
  | removeChild n child => exact removeChild_sound h hok
  | removeAllChildren n => exact removeAllChildren_sound h n
  | setSelected n b => exact setSelected_sound h n b
  | isTreeSelected n =>
    obtain ⟨s', hs', hsame, hr⟩ := h.isTreeSelected n
    exact ⟨s', by rw [act, hs', Option.map_some], hsame.sound h hr⟩

/-- The same forest without any answers. -/
def forgetAll (s : Forest N) : Forest N := fun m => { s m with treeSelected := none }

/-- Every node answers what it would compute from scratch, and that is the
status of its subtree. -/
def Faithful (s : Forest N) : Prop :=
  ∀ n, (s.isTreeSelected (Fintype.card N) n).map Prod.snd = some (s.shape.status n) ∧
    (s.forgetAll.isTreeSelected (Fintype.card N) n).map Prod.snd = some (s.shape.status n)

theorem Sound.answers_right {s : Forest N} (h : s.Sound) : s.Faithful := by
  intro n
  have hsame : Same s s.forgetAll := fun _ => rfl
  obtain ⟨s1, h1, -, -⟩ := h.isTreeSelected n
  obtain ⟨s2, h2, -, -⟩ := (hsame.sound h nofun).isTreeSelected n
  rw [h1, h2, hsame.shape]
  exact ⟨rfl, rfl⟩

/-- If no call makes a cycle or removes a child that has another parent, then
every call returns, and every node answers right in every state. -/
theorem faithful (actions : List (Action N)) (h : Along act ActionOk (Forest.new : Forest N) actions) :
    Always act Faithful (Forest.new : Forest N) actions :=
  always_of_along (I := Sound) (fun _ _ hs hok => act_sound hs hok) (fun _ hs => hs.answers_right) actions new_sound h

end Ops

omit [DecidableEq N] in
/-- A node without children can be added to any other. -/
theorem childOk_of_leaf {s : Forest N} {n child : N} (hleaf : s.getChildren child = []) (hne : child ≠ n) :
    s.ChildOk n child := by
  intro h
  rcases h.cases_head with heq | ⟨c, hc, -⟩
  · exact hne heq
  · unfold Shape.Child Forest.shape at hc
    rw [hleaf] at hc
    cases hc

/-- A selected child is removed from one parent and then added to another. -/
theorem faithful_move : Always act Faithful (Forest.new : Forest (Fin 3))
    [.addChild 0 2, .setSelected 2 true, .isTreeSelected 0, .removeChild 0 2, .addChild 1 2] := by
  refine faithful _ ⟨childOk_of_leaf rfl (by decide), fun s1 h1 => ⟨trivial, fun s2 h2 => ⟨trivial, fun s3 h3 => ?_⟩⟩⟩
  obtain rfl := Option.some.inj h1
  obtain rfl := Option.some.inj h2
  obtain rfl := Option.some.inj h3
  refine ⟨fun _ => rfl, fun s4 h4 => ?_⟩
  obtain rfl := Option.some.inj h4
  exact ⟨childOk_of_leaf rfl (by decide), fun _ _ => trivial⟩

/-- A selected child is added to another parent, and then removed from the
first. -/
def moved : List (Action (Fin 3)) :=
  [.addChild 0 2, .setSelected 2 true, .addChild 1 2, .isTreeSelected 0, .removeChild 0 2]

/-- The first parent has no children any more, and still answers that its
subtree is partially selected. -/
theorem moved_not_faithful : ¬ Always act Faithful (Forest.new : Forest (Fin 3)) moved := by
  intro h
  obtain ⟨s, hs, hfaithful⟩ := h.last
  obtain rfl := Option.some.inj hs
  obtain ⟨hcached, hscratch⟩ := hfaithful 0
  exact absurd (hcached.trans hscratch.symm) (by decide)

end Forest

end WorldWind.TreeNodes
