import Mathlib
/-!
# `java.util.TreeSet`

A red-black tree under a comparator, as `TreeMap` searches and inserts: a key is
compared with the nodes on the way down only, and a new leaf is rotated upwards.
Nothing is required of the comparator. Where it follows a rank, the keys stay in
the order of their ranks, whatever it says of keys of one rank; but a key is only
found again if it is on the way down.
-/

namespace WorldWind.Lib.TreeSet

inductive Color
  | red
  | black
  deriving DecidableEq

inductive RedBlackTree (α : Type*)
  | nil
  | node (color : Color) (left : RedBlackTree α) (key : α) (right : RedBlackTree α)

namespace RedBlackTree

variable {α : Type*}

/-- The keys in the order of an iterator. -/
def toList : RedBlackTree α → List α
  | nil => []
  | node _ l k r => l.toList ++ k :: r.toList

/-- A node on the way down, whose `left` or right subtree is the hole. -/
structure Frame (α : Type*) where
  left : Bool
  color : Color
  key : α
  sibling : RedBlackTree α

def plug : RedBlackTree α → List (Frame α) → RedBlackTree α
  | t, [] => t
  | t, f :: path => plug (if f.left then node f.color t f.key f.sibling else node f.color f.sibling f.key t) path

def blacken : RedBlackTree α → RedBlackTree α
  | nil => nil
  | node _ l k r => node .black l k r

/-- The rotations of `fixAfterInsertion` at the grandparent `g`. -/
def rotate (x : RedBlackTree α) (f g : Frame α) : RedBlackTree α :=
  match g.left, f.left, x with
  | true, true, x => node .black x f.key (node .red f.sibling g.key g.sibling)
  | true, false, node _ a k b => node .black (node .red f.sibling f.key a) k (node .red b g.key g.sibling)
  | false, false, x => node .black (node .red g.sibling g.key f.sibling) f.key x
  | false, true, node _ a k b => node .black (node .red g.sibling g.key a) k (node .red b f.key f.sibling)
  | _, _, nil => plug nil [f, g]

/-- `x` is the red node that was inserted, or a grandparent made red. -/
def fixAfterInsertion : RedBlackTree α → List (Frame α) → RedBlackTree α
  | x, f :: g :: path =>
    if f.color = .black then blacken (plug x (f :: g :: path))
    else
      match g.sibling with
      | node .red a y b =>
        let parent := if f.left then node .black x f.key f.sibling else node .black f.sibling f.key x
        let uncle := node .black a y b
        fixAfterInsertion (if g.left then node .red parent g.key uncle else node .red uncle g.key parent) path
      | _ => blacken (plug (rotate x f g) path)
  | x, path => blacken (plug x path)

/-- `last`: the greatest key. -/
def last? (t : RedBlackTree α) : Option α := t.toList.getLast?

variable (compare : α → α → Int)

/-- `getEntryUsingComparator`. -/
def contains (x : α) : RedBlackTree α → Bool
  | nil => false
  | node _ l k r => if compare x k < 0 then contains x l else if 0 < compare x k then contains x r else true

/-- The way down to a new leaf; none if an equal key is on it. -/
def descend (x : α) : RedBlackTree α → List (Frame α) → Option (List (Frame α))
  | nil, path => some path
  | node c l k r, path =>
    if compare x k < 0 then descend x l (⟨true, c, k, r⟩ :: path)
    else if 0 < compare x k then descend x r (⟨false, c, k, l⟩ :: path)
    else none

def add (x : α) (t : RedBlackTree α) : RedBlackTree α :=
  match descend compare x t [] with
  | none => t
  | some path => fixAfterInsertion (node .red nil x nil) path

/-- The set after some keys were added, one after another. -/
def ofList (l : List α) : RedBlackTree α := l.foldl (fun t x => add compare x t) nil

/-- Whenever a key is added again, the search comes to it. -/
def FoundAgain (l : List α) : Prop :=
  ∀ earlier x later, l = earlier ++ x :: later → x ∈ earlier → contains compare x (ofList compare earlier) = true

/-! ## Rotations keep the order -/

/-- The keys to the left of the hole. -/
def before : List (Frame α) → List α
  | [] => []
  | f :: path => before path ++ if f.left then [] else f.sibling.toList ++ [f.key]

/-- The keys to the right of the hole. -/
def after : List (Frame α) → List α
  | [] => []
  | f :: path => (if f.left then f.key :: f.sibling.toList else []) ++ after path

theorem toList_plug (t : RedBlackTree α) (path : List (Frame α)) :
    (plug t path).toList = before path ++ t.toList ++ after path := by
  induction path generalizing t with
  | nil => simp [plug, before, after]
  | cons f path ih =>
    rw [plug, ih, before, after]
    cases f.left <;> simp [toList]

theorem toList_blacken (t : RedBlackTree α) : t.blacken.toList = t.toList := by
  cases t <;> rfl

theorem toList_rotate (x : RedBlackTree α) (f g : Frame α) : (rotate x f g).toList = (plug x [f, g]).toList := by
  obtain ⟨fl, fc, fk, fs⟩ := f
  obtain ⟨gl, gc, gk, gs⟩ := g
  cases fl <;> cases gl <;> cases x <;> simp [rotate, plug, toList]

theorem toList_fixAfterInsertion (x : RedBlackTree α) (path : List (Frame α)) :
    (fixAfterInsertion x path).toList = before path ++ x.toList ++ after path := by
  induction x, path using fixAfterInsertion.induct with
  | case1 x f g path hblack =>
    rw [fixAfterInsertion, if_pos hblack, toList_blacken, toList_plug]
  | case2 x f g path hred a y b hsibling parent uncle ih =>
    rw [fixAfterInsertion, if_neg hred]
    simp only [hsibling]
    rw [ih, before, before, after, after, hsibling]
    simp only [parent, uncle]
    cases g.left <;> cases f.left <;> simp [toList]
  | case3 x f g path hred hsibling =>
    have happend : before (f :: g :: path) ++ x.toList ++ after (f :: g :: path) =
        before path ++ (plug x [f, g]).toList ++ after path := by
      rw [toList_plug]
      simp [before, after]
    rw [fixAfterInsertion, if_neg hred, happend, ← toList_rotate]
    split
    · exact absurd ‹_› (hsibling _ _ _)
    · rw [toList_blacken, toList_plug]
  | case4 x path h =>
    rw [fixAfterInsertion, toList_blacken, toList_plug]
    exact h

/-! ## Searching -/

variable {compare}

theorem exists_of_contains {x : α} {t : RedBlackTree α} (h : contains compare x t = true) :
    ∃ y ∈ t.toList, compare x y = 0 := by
  induction t with
  | nil => cases h
  | node c l k r ihl ihr =>
    rw [contains] at h
    split at h
    · obtain ⟨y, hy, h0⟩ := ihl h
      exact ⟨y, List.mem_append_left _ hy, h0⟩
    · split at h
      · obtain ⟨y, hy, h0⟩ := ihr h
        exact ⟨y, List.mem_append_right _ (List.mem_cons_of_mem k hy), h0⟩
      · exact ⟨k, List.mem_append_right _ List.mem_cons_self, by omega⟩

/-- The way down ends at a leaf unless the search finds the key. -/
theorem descend_eq_none {x : α} {t : RedBlackTree α} {path : List (Frame α)} :
    descend compare x t path = none ↔ contains compare x t = true := by
  induction t generalizing path with
  | nil => simp [descend, contains]
  | node c l k r ihl ihr =>
    rw [descend, contains]
    split
    · exact ihl
    · split
      · exact ihr
      · simp

theorem add_of_contains {x : α} {t : RedBlackTree α} (h : contains compare x t = true) : add compare x t = t := by
  rw [add, descend_eq_none.2 h]

/-! ## A comparator that follows a rank -/

variable {rank : α → Int} (hrank : ∀ x k, compare x k < 0 ↔ rank x < rank k)

include hrank

/-- The way down parts the keys: those of no greater rank, and those of a greater one. -/
theorem descend_some {x : α} {t : RedBlackTree α} {path p : List (Frame α)}
    (hsorted : t.toList.Pairwise (rank · ≤ rank ·))
    (h : descend compare x t path = some p) :
    ∃ l r, t.toList = l ++ r ∧ before p = before path ++ l ∧ after p = r ++ after path ∧
      (∀ y ∈ l, rank y ≤ rank x) ∧ ∀ y ∈ r, rank x < rank y := by
  induction t generalizing path with
  | nil =>
    obtain rfl := Option.some_inj.1 h
    exact ⟨[], [], rfl, by simp, by simp, by simp, by simp⟩
  | node c left k right ihl ihr =>
    rw [toList, List.pairwise_append, List.pairwise_cons] at hsorted
    obtain ⟨hleft, ⟨hk, hright⟩, hcross⟩ := hsorted
    rw [descend] at h
    split at h
    · rename_i hlt
      obtain ⟨l, r, hlist, hbefore, hafter, hl, hr⟩ := ihl hleft h
      have hxk := (hrank x k).1 hlt
      refine ⟨l, r ++ k :: right.toList, ?_, ?_, ?_, hl, ?_⟩
      · rw [toList, hlist, List.append_assoc]
      · rw [hbefore, before]
        simp
      · rw [hafter, after]
        simp
      · intro y hy
        rcases List.mem_append.1 hy with hy | hy
        · exact hr y hy
        · rcases List.mem_cons.1 hy with rfl | hy
          · exact hxk
          · exact hxk.trans_le (hk y hy)
    · rename_i hge
      have hkx : rank k ≤ rank x := not_lt.1 fun h => hge ((hrank x k).2 h)
      split at h
      · obtain ⟨l, r, hlist, hbefore, hafter, hl, hr⟩ := ihr hright h
        refine ⟨left.toList ++ k :: l, r, ?_, ?_, ?_, ?_, hr⟩
        · rw [toList, hlist, List.append_assoc, List.cons_append]
        · rw [hbefore, before]
          simp
        · rw [hafter, after]
          simp
        · intro y hy
          rcases List.mem_append.1 hy with hy | hy
          · exact (hcross y hy k List.mem_cons_self).trans hkx
          · rcases List.mem_cons.1 hy with rfl | hy
            · exact hkx
            · exact hl y hy
      · cases h

/-- A key that is not found is put behind the keys of its rank. -/
theorem toList_add {x : α} {t : RedBlackTree α} (hsorted : t.toList.Pairwise (rank · ≤ rank ·))
    (h : contains compare x t = false) :
    ∃ l r, t.toList = l ++ r ∧ (add compare x t).toList = l ++ x :: r ∧ (∀ y ∈ l, rank y ≤ rank x) ∧
      ∀ y ∈ r, rank x < rank y := by
  rcases hp : descend compare x t [] with _ | p
  · rw [descend_eq_none.1 hp] at h
    cases h
  · obtain ⟨l, r, hlist, hbefore, hafter, hl, hr⟩ := descend_some hrank hsorted hp
    refine ⟨l, r, hlist, ?_, hl, hr⟩
    rw [add, hp]
    simp only
    rw [toList_fixAfterInsertion, hbefore, hafter]
    simp [before, after, toList]

theorem pairwise_add {x : α} {t : RedBlackTree α} (hsorted : t.toList.Pairwise (rank · ≤ rank ·)) :
    (add compare x t).toList.Pairwise (rank · ≤ rank ·) := by
  rcases hc : contains compare x t with _ | _
  · obtain ⟨l, r, hlist, hadd, hl, hr⟩ := toList_add hrank hsorted hc
    rw [hlist, List.pairwise_append] at hsorted
    rw [hadd, List.pairwise_append, List.pairwise_cons]
    refine ⟨hsorted.1, ⟨fun y hy => (hr y hy).le, hsorted.2.1⟩, ?_⟩
    intro y hy z hz
    rcases List.mem_cons.1 hz with rfl | hz
    · exact hl y hy
    · exact hsorted.2.2 y hy z hz
  · rwa [add_of_contains hc]

/-- A key that is alone with its rank is found. -/
theorem contains_of_alone {x : α} {t : RedBlackTree α} (hsorted : t.toList.Pairwise (rank · ≤ rank ·))
    (hself : compare x x = 0)
    (hmem : x ∈ t.toList) (halone : ∀ y ∈ t.toList, rank y = rank x → y = x) : contains compare x t = true := by
  induction t with
  | nil => cases hmem
  | node c left k right ihl ihr =>
    rw [toList, List.pairwise_append, List.pairwise_cons] at hsorted
    obtain ⟨hleft, ⟨hk, hright⟩, hcross⟩ := hsorted
    rw [toList] at hmem halone
    rw [contains]
    by_cases hxk : x = k
    · subst hxk
      rw [if_neg (by omega), if_neg (by omega)]
    · have hne : rank k ≠ rank x := fun h => hxk (halone k (by simp) h).symm
      rcases List.mem_append.1 hmem with hmem | hmem
      · have hlt : rank x < rank k := lt_of_le_of_ne (hcross x hmem k List.mem_cons_self) hne.symm
        rw [if_pos ((hrank x k).2 hlt)]
        exact ihl hleft hmem fun y hy => halone y (List.mem_append_left _ hy)
      · have hmem : x ∈ right.toList := (List.mem_cons.1 hmem).resolve_left hxk
        have hnlt : ¬compare x k < 0 := fun h => absurd ((hrank x k).1 h) (not_lt.2 (hk x hmem))
        rw [if_neg hnlt]
        split
        · exact ihr hright hmem fun y hy => halone y (by simp [hy])
        · rfl

/-! ## Adding key after key -/

omit hrank in
theorem ofList_append (l : List α) (x : α) : ofList compare (l ++ [x]) = add compare x (ofList compare l) := by
  rw [ofList, List.foldl_append]
  rfl

theorem pairwise_ofList (l : List α) : (ofList compare l).toList.Pairwise (rank · ≤ rank ·) := by
  induction l using List.reverseRecOn with
  | nil => exact List.Pairwise.nil
  | append_singleton l x ih =>
    rw [ofList_append]
    exact pairwise_add hrank ih

theorem mem_ofList {l : List α} (heq : ∀ x ∈ l, ∀ y ∈ l, compare x y = 0 → x = y) {y : α} :
    y ∈ (ofList compare l).toList ↔ y ∈ l := by
  induction l using List.reverseRecOn generalizing y with
  | nil => rfl
  | append_singleton l x ih =>
    have ih : ∀ {y}, y ∈ (ofList compare l).toList ↔ y ∈ l :=
        ih fun a ha b hb => heq a (List.mem_append_left _ ha) b (List.mem_append_left _ hb)
    rw [ofList_append]
    rcases hc : contains compare x (ofList compare l) with _ | _
    · obtain ⟨left, right, hlist, hadd, -⟩ := toList_add hrank (pairwise_ofList hrank l) hc
      rw [hadd, List.mem_append, List.mem_cons, List.mem_append, List.mem_singleton, ← ih, hlist, List.mem_append]
      tauto
    · rw [add_of_contains hc, ih, List.mem_append, List.mem_singleton]
      refine ⟨Or.inl, fun h => h.elim id ?_⟩
      -- what the search came to is the key itself
      rintro rfl
      obtain ⟨z, hz, hzero⟩ := exists_of_contains hc
      rwa [heq y (by simp) z (List.mem_append_left _ (ih.1 hz)) hzero, ← ih]

omit hrank in
theorem foundAgain_append {l : List α} {x : α} : FoundAgain compare (l ++ [x]) ↔
    FoundAgain compare l ∧ (x ∈ l → contains compare x (ofList compare l) = true) := by
  constructor
  · intro h
    refine ⟨fun earlier y later hl => h earlier y (later ++ [x]) ?_, h l x [] rfl⟩
    rw [hl, List.append_assoc, List.cons_append]
  · rintro ⟨hl, hx⟩ earlier y later hsplit
    rcases later.eq_nil_or_concat with rfl | ⟨later, last, rfl⟩
    · obtain ⟨rfl, hy⟩ := List.append_inj' hsplit rfl
      obtain rfl := List.singleton_inj.1 hy
      exact hx
    · have hsplit : l ++ [x] = (earlier ++ y :: later) ++ [last] := by
        rw [hsplit]
        simp
      exact hl earlier y later (List.append_inj' hsplit rfl).1

/-- A key is held twice as soon as the search misses it once. -/
theorem nodup_ofList_iff {l : List α} (heq : ∀ x ∈ l, ∀ y ∈ l, compare x y = 0 → x = y) :
    (ofList compare l).toList.Nodup ↔ FoundAgain compare l := by
  induction l using List.reverseRecOn with
  | nil => exact iff_of_true List.nodup_nil fun earlier x later h => absurd h (by simp)
  | append_singleton l x ih =>
    have heq' : ∀ a ∈ l, ∀ b ∈ l, compare a b = 0 → a = b := fun a ha b hb =>
      heq a (List.mem_append_left _ ha) b (List.mem_append_left _ hb)
    rw [foundAgain_append, ← ih heq', ofList_append, ← mem_ofList hrank heq']
    rcases hc : contains compare x (ofList compare l) with _ | _
    · obtain ⟨left, right, hlist, hadd, -⟩ := toList_add hrank (pairwise_ofList hrank l) hc
      rw [hadd, hlist, List.nodup_middle, List.nodup_cons]
      simp only [Bool.false_eq_true, imp_false]
      exact and_comm
    · rw [add_of_contains hc]
      simp

/-- Keys that are added again are found where there is no other key of their rank. -/
theorem foundAgain_of_alone {l : List α} (hself : ∀ x ∈ l, compare x x = 0)
    (heq : ∀ x ∈ l, ∀ y ∈ l, compare x y = 0 → x = y)
    (halone : ∀ earlier x later, l = earlier ++ x :: later → x ∈ earlier → ∀ y ∈ l, rank y = rank x → y = x) :
    FoundAgain compare l := by
  intro earlier x later hl hx
  have hsub : ∀ y ∈ earlier, y ∈ l := by
    intro y hy
    rw [hl]
    exact List.mem_append_left _ hy
  have hmem : ∀ {y}, y ∈ (ofList compare earlier).toList ↔ y ∈ earlier :=
    mem_ofList hrank fun a ha b hb => heq a (hsub a ha) b (hsub b hb)
  refine contains_of_alone hrank (pairwise_ofList hrank earlier) (hself x (hsub x hx)) (hmem.2 hx) ?_
  intro y hy
  exact halone earlier x later hl hx y (hsub y (hmem.1 hy))

end RedBlackTree

end WorldWind.Lib.TreeSet
