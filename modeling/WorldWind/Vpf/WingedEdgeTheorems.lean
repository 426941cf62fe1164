import WorldWind.Vpf.WingedEdge
/-!
# When the walk around a face ends

The walk stops where an edge names no next edge or names the start edge. Where
the links come into a cycle that the start edge is not on, nothing stops it.
What the loop does next depends on the edge it is at and on the one before, so
the walk ends exactly when it never comes to such a pair that lies on a cycle
(`traverseRing_ends_iff`).
-/

namespace WorldWind.Vpf

open Lib.Walk Relation

variable (faceId startEdgeId : Int) (edgeInfo : List EdgeInfo)

/-- The id of an edge of the table. -/
def ValidId (id : Int) : Prop := 1 ≤ id ∧ id ≤ edgeInfo.length

/-- Every link is the id of an edge, or not positive. -/
structure Linked : Prop where
  left : ∀ e ∈ edgeInfo, 0 < e.leftEdge → ValidId edgeInfo e.leftEdge
  right : ∀ e ∈ edgeInfo, 0 < e.rightEdge → ValidId edgeInfo e.rightEdge

instance : DecidablePred (ValidId edgeInfo) := fun _ => inferInstanceAs (Decidable (_ ∧ _))

instance : Decidable (Linked edgeInfo) :=
  decidable_of_iff ((∀ e ∈ edgeInfo, 0 < e.leftEdge → ValidId edgeInfo e.leftEdge) ∧
    ∀ e ∈ edgeInfo, 0 < e.rightEdge → ValidId edgeInfo e.rightEdge) ⟨fun h => ⟨h.1, h.2⟩, fun h => ⟨h.1, h.2⟩⟩

/-- Where the test of the loop leads from a place. -/
def following (p : Place) : Option Place :=
  (nextEdgeId faceId p.prevEdgeId p.curEdgeId edgeInfo).bind fun next =>
    if 0 < next ∧ next ≠ startEdgeId then some ⟨p.curEdgeId, next⟩ else none

/-- The places of a walk: the edge is one of the table, and so is the edge
before it, unless there is none. -/
structure Place.Valid (p : Place) : Prop where
  cur : ValidId edgeInfo p.curEdgeId
  prev : 0 < p.prevEdgeId → ValidId edgeInfo p.prevEdgeId

variable {faceId startEdgeId edgeInfo}

/-! ## Reading the table -/

theorem getEdgeInfo_valid {id : Int} (h : ValidId edgeInfo id) :
    ∃ e ∈ edgeInfo, getEdgeInfo edgeInfo id = some e := by
  obtain ⟨h1, h2⟩ := h
  have hlt : (id - 1).toNat < edgeInfo.length := by omega
  refine ⟨edgeInfo[(id - 1).toNat], List.getElem_mem hlt, ?_⟩
  rw [getEdgeInfo, indexFromId, if_neg (by omega), List.getElem?_eq_getElem hlt]

theorem edgeBehind_valid (h : Linked edgeInfo) (prevInfo : EdgeInfo) {curInfo : EdgeInfo} (hc : curInfo ∈ edgeInfo)
    (id : Int) : 0 < edgeBehind prevInfo curInfo id → ValidId edgeInfo (edgeBehind prevInfo curInfo id) := by
  unfold edgeBehind
  split
  · split
    · exact h.right _ hc
    · exact h.left _ hc
  · split
    · split
      · exact h.left _ hc
      · exact h.right _ hc
    · intro hpos
      omega

/-- At a valid place the next id is read, and is valid if it is positive. -/
theorem nextEdgeId_valid (h : Linked edgeInfo) (faceId : Int) {p : Place} (hp : p.Valid edgeInfo) :
    ∃ next, nextEdgeId faceId p.prevEdgeId p.curEdgeId edgeInfo = some next ∧ (0 < next → ValidId edgeInfo next) := by
  obtain ⟨e, he, hget⟩ := getEdgeInfo_valid hp.cur
  simp only [nextEdgeId, getOrientation, hget, Option.map_some, Option.bind_some]
  split
  · exact ⟨-1, rfl, fun h => by omega⟩
  · exact ⟨e.leftEdge, rfl, h.left e he⟩
  · exact ⟨e.rightEdge, rfl, h.right e he⟩
  · split
    · rename_i hpos
      obtain ⟨e', -, hget'⟩ := getEdgeInfo_valid (hp.prev hpos)
      refine ⟨edgeBehind e' e p.curEdgeId, ?_, edgeBehind_valid h e' he _⟩
      simp only [auxiliaryNextEdgeId, hget, hget', Option.bind_some, Option.map_some]
    · exact ⟨-1, rfl, fun h => by omega⟩

theorem getMustReverseCoordinates_valid (faceId : Int) {p : Place} (hp : p.Valid edgeInfo) :
    ∃ reverse, getMustReverseCoordinates faceId p.prevEdgeId p.curEdgeId edgeInfo = some reverse := by
  obtain ⟨e, -, hget⟩ := getEdgeInfo_valid hp.cur
  simp only [getMustReverseCoordinates, getOrientation, hget, Option.map_some, Option.bind_some]
  split
  · exact ⟨false, rfl⟩
  · exact ⟨true, rfl⟩
  · exact ⟨false, rfl⟩
  · split
    · rename_i hpos
      obtain ⟨e', -, hget'⟩ := getEdgeInfo_valid (hp.prev hpos)
      simp only [auxiliaryMustReverseCoordinates, hget, hget', Option.bind_some, Option.map_some]
      exact ⟨_, rfl⟩
    · exact ⟨false, rfl⟩

/-! ## The loop -/

/-- A pass at a valid place does not throw, and goes where `following` says. -/
theorem pass_valid (h : Linked edgeInfo) (faceId startEdgeId : Int) (listening : Bool) {p : Place}
    (hp : p.Valid edgeInfo) (done : Progress) :
    ∃ done', pass faceId startEdgeId edgeInfo listening p done =
      some (done', following faceId startEdgeId edgeInfo p) := by
  obtain ⟨next, hnext, -⟩ := nextEdgeId_valid h faceId hp
  obtain ⟨reverse, hreverse⟩ := getMustReverseCoordinates_valid faceId hp
  cases listening with
  | true =>
    simp only [pass, following, hnext, hreverse, if_true, Option.map_some, Option.bind_some]
    exact ⟨_, rfl⟩
  | false =>
    simp only [pass, following, hnext, Bool.false_eq_true, if_false, Option.map_some, Option.bind_some]
    exact ⟨_, rfl⟩

theorem following_valid (h : Linked edgeInfo) {p q : Place} (hp : p.Valid edgeInfo)
    (hq : following faceId startEdgeId edgeInfo p = some q) : q.Valid edgeInfo := by
  obtain ⟨next, hnext, hvalid⟩ := nextEdgeId_valid h faceId hp
  simp only [following, hnext, Option.bind_some, Option.ite_none_right_eq_some, Option.some.injEq] at hq
  obtain ⟨⟨hpos, -⟩, rfl⟩ := hq
  exact ⟨hvalid hpos, fun _ => hp.cur⟩

/-- The loop returns within some number of passes exactly when the walk ends. -/
theorem traverseLoop_returns_iff (h : Linked edgeInfo) (listening : Bool) {p : Place} (hp : p.Valid edgeInfo)
    (done : Progress) :
    (∃ passes r, traverseLoop faceId startEdgeId edgeInfo listening passes p done = .returned r) ↔
      Ends (following faceId startEdgeId edgeInfo) p := by
  constructor
  · rintro ⟨passes, r, hr⟩
    induction passes generalizing p done with
    | zero => cases hr
    | succ passes ih =>
      obtain ⟨done', hpass⟩ := pass_valid h faceId startEdgeId listening hp done
      rw [traverseLoop, hpass] at hr
      cases hf : following faceId startEdgeId edgeInfo p with
      | none => exact ends_of_none hf
      | some q =>
        rw [hf] at hr
        exact (ends_iff_of_link hf).2 (ih (following_valid h hp hf) done' hr)
  · rintro ⟨n, hn⟩
    induction n generalizing p done with
    | zero => cases hn
    | succ n ih =>
      obtain ⟨done', hpass⟩ := pass_valid h faceId startEdgeId listening hp done
      cases hf : following faceId startEdgeId edgeInfo p with
      | none => exact ⟨1, done', by rw [traverseLoop, hpass, hf]⟩
      | some q =>
        have hq : after (following faceId startEdgeId edgeInfo) n q = none := by simpa [after, hf] using hn
        obtain ⟨passes, r, hr⟩ := ih (following_valid h hp hf) done' hq
        exact ⟨passes + 1, r, by rw [traverseLoop, hpass, hf]; exact hr⟩

/-- There are only finitely many valid places with a given start. -/
theorem finite_places (edgeInfo : List EdgeInfo) :
    {p : Place | p.Valid edgeInfo ∧ -1 ≤ p.prevEdgeId}.Finite := by
  let ids := Set.Icc (-1 : Int) edgeInfo.length
  refine ((Set.finite_Icc (-1 : Int) edgeInfo.length).prod (Set.finite_Icc (-1 : Int) edgeInfo.length)
    |>.image fun x => (⟨x.1, x.2⟩ : Place)).subset ?_
  rintro ⟨prev, cur⟩ ⟨hp, hlow⟩
  have hcur := hp.cur
  have hprev := hp.prev
  dsimp only [ValidId] at hcur hprev hlow
  refine ⟨(prev, cur), ⟨⟨hlow, ?_⟩, ?_, hcur.2⟩, rfl⟩
  · by_cases hpos : 0 < prev
    · exact (hprev hpos).2
    · have := Int.natCast_nonneg edgeInfo.length
      omega
  · dsimp only
    omega

/-- For every table, face and start edge, the call returns exactly when no
place that the walk comes to lies on a cycle of places. -/
theorem traverseRing_ends_iff (h : Linked edgeInfo) (faceId : Int) (hs : ValidId edgeInfo startEdgeId)
    (listening : Bool) :
    (∃ passes r, traverseRing passes faceId startEdgeId edgeInfo listening = .returned r) ↔
      NoCycle (following faceId startEdgeId edgeInfo) ⟨-1, startEdgeId⟩ := by
  have hprev : ¬ (0 : Int) < -1 := by decide
  have hstart : (⟨-1, startEdgeId⟩ : Place).Valid edgeInfo := ⟨hs, fun hpos => absurd hpos hprev⟩
  refine (traverseLoop_returns_iff h listening hstart ⟨0, []⟩).trans ?_
  refine ends_iff_of_finite (finite_places edgeInfo) ?_ ⟨hstart, le_refl _⟩
  rintro p ⟨hp, -⟩ q hq
  refine ⟨following_valid h hp hq, ?_⟩
  simp only [Link, following, Option.bind_eq_some_iff, Option.ite_none_right_eq_some, Option.some.injEq] at hq
  obtain ⟨-, -, -, rfl⟩ := hq
  have := hp.cur.1
  dsimp only
  omega

/-- Two edges that lead to each other around face 1. -/
def twoEdges : List EdgeInfo := [⟨1, 2, 1, 0, 2, 2⟩, ⟨2, 1, 1, 0, 1, 1⟩]

/-- Three edges around face 1. The third leads back to the second. -/
def lasso : List EdgeInfo := [⟨1, 2, 1, 0, 2, 0⟩, ⟨2, 3, 1, 0, 3, 0⟩, ⟨3, 2, 1, 0, 2, 0⟩]

theorem noCycle_twoEdges : NoCycle (following 1 1 twoEdges) ⟨-1, 1⟩ :=
  Ends.noCycle ⟨2, by decide⟩

theorem traverseRing_twoEdges : ∃ passes r, traverseRing passes 1 1 twoEdges true = .returned r :=
  (traverseRing_ends_iff (by decide) 1 (by decide) true).2 noCycle_twoEdges

theorem traverseRing_lasso : Linked lasso ∧ ValidId lasso 1 ∧
    ¬ ∃ passes r, traverseRing passes 1 1 lasso false = .returned r := by
  have hlinked : Linked lasso := by decide
  have hcycle : ¬ NoCycle (following 1 1 lasso) ⟨-1, 1⟩ :=
    not_noCycle_of_after (b := ⟨2, 3⟩) (n := 2) (m := 1) (by decide) (by decide)
  have hs : (⟨-1, 1⟩ : Place).Valid lasso := ⟨by decide, fun hpos => absurd hpos (by decide)⟩
  exact ⟨hlinked, by decide, fun h => hcycle ((traverseLoop_returns_iff hlinked false hs ⟨0, []⟩).1 h).noCycle⟩

end WorldWind.Vpf
