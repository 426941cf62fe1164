import WorldWind.Vpf.WingedEdgeTheorems
/-!
# The rings of a face without auxiliary edges

Around a face without auxiliary edges the next edge depends on the edge alone.
Where that map permutes the edges of the face, the walk from an edge comes back
to it first and to no other edge twice, so it reports one orbit of the map
(`traverseRing_reports_orbit`).
-/

namespace WorldWind.Vpf

open Lib.JavaInt Lib.Walk Function

variable (faceId : Int) (edgeInfo : List EdgeInfo)

/-- The edges that have the face on a side. -/
def faceEdges : Set Int := {id | ValidId edgeInfo id ∧ getOrientation faceId id edgeInfo ≠ some none}

/-- No edge has the face on both sides. -/
def NoAuxiliary : Prop := ∀ id, getOrientation faceId id edgeInfo ≠ some (some .LEFT_AND_RIGHT)

/-- The edge on the side of the edge where the face is. -/
def edgeAround (id : Int) : Int :=
  match getEdgeInfo edgeInfo id with
  | none => 0
  | some e => if e.leftFace = faceId then e.leftEdge else e.rightEdge

/-- The map permutes the edges of the face. -/
def Permutes : Prop := Set.BijOn (edgeAround faceId edgeInfo) (faceEdges faceId edgeInfo) (faceEdges faceId edgeInfo)

/-- The edges that the map leads to from an edge. -/
def orbit (e : Int) : Set Int := Set.range fun n : Nat => (edgeAround faceId edgeInfo)^[n] e

/-- The calls are about the edges of the orbit of `e`, each once, in the order of
the orbit and numbered from 0. -/
structure ReportsOrbit (e : Int) (calls : List EdgeCall) : Prop where
  numbered : calls.map (·.index) = (List.range calls.length).map Int.ofNat
  ordered : calls.map (·.primitiveId) = (List.range calls.length).map fun n => (edgeAround faceId edgeInfo)^[n] e
  once : (calls.map (·.primitiveId)).Nodup
  whole : ∀ id, id ∈ calls.map (·.primitiveId) ↔ id ∈ orbit faceId edgeInfo e

/-- The coordinates of an edge with the face on its left are reversed. -/
def reversed (id : Int) : Bool := getOrientation faceId id edgeInfo = some (some .LEFT)

/-- The calls of the first `n` passes. -/
def callsBefore (e : Int) (n : Nat) : List EdgeCall :=
  (List.range n).map fun i : Nat =>
    ⟨(i : Int), (edgeAround faceId edgeInfo)^[i] e, reversed faceId edgeInfo ((edgeAround faceId edgeInfo)^[i] e)⟩

variable {faceId edgeInfo}

/-! ## One edge -/

/-- An edge of the face has it on one side, and the code takes that side. -/
theorem nextEdgeId_around (hAux : NoAuxiliary faceId edgeInfo) {id : Int} (h : id ∈ faceEdges faceId edgeInfo)
    (prev : Int) : nextEdgeId faceId prev id edgeInfo = some (edgeAround faceId edgeInfo id) := by
  obtain ⟨hvalid, hface⟩ := h
  obtain ⟨e, -, hget⟩ := getEdgeInfo_valid hvalid
  have hAux := hAux id
  simp only [getOrientation, hget, Option.map_some, ne_eq, Option.some.injEq] at hface hAux
  simp only [nextEdgeId, getOrientation, edgeAround, hget, Option.map_some, Option.bind_some]
  by_cases hl : e.leftFace = faceId <;> by_cases hr : e.rightFace = faceId
  · simp [hl, hr] at hAux
  · simp [hl, hr]
  · simp [hl, hr]
  · simp [hl, hr] at hface

theorem getMustReverseCoordinates_around (hAux : NoAuxiliary faceId edgeInfo) {id : Int}
    (h : id ∈ faceEdges faceId edgeInfo) (prev : Int) :
    getMustReverseCoordinates faceId prev id edgeInfo = some (reversed faceId edgeInfo id) := by
  obtain ⟨hvalid, hface⟩ := h
  obtain ⟨e, -, hget⟩ := getEdgeInfo_valid hvalid
  have hAux := hAux id
  simp only [getOrientation, hget, Option.map_some, ne_eq, Option.some.injEq] at hface hAux
  simp only [getMustReverseCoordinates, getOrientation, reversed, hget, Option.map_some, Option.bind_some]
  by_cases hl : e.leftFace = faceId <;> by_cases hr : e.rightFace = faceId
  · simp [hl, hr] at hAux
  · simp [hl, hr]
  · simp [hl, hr]
  · simp [hl, hr] at hface

/-! ## The orbit -/

theorem faceEdges_finite (faceId : Int) (edgeInfo : List EdgeInfo) : (faceEdges faceId edgeInfo).Finite :=
  (Set.finite_Icc (1 : Int) edgeInfo.length).subset fun _ h => h.1

theorem iterate_mem (hperm : Permutes faceId edgeInfo) {e : Int} (he : e ∈ faceEdges faceId edgeInfo) (n : Nat) :
    (edgeAround faceId edgeInfo)^[n] e ∈ faceEdges faceId edgeInfo :=
  hperm.mapsTo.iterate n he

/-- Two of the first edges cannot be equal for ever, and the map can be undone. -/
theorem mem_periodicPts (hperm : Permutes faceId edgeInfo) {e : Int} (he : e ∈ faceEdges faceId edgeInfo) :
    e ∈ periodicPts (edgeAround faceId edgeInfo) := by
  have hnot : ¬ Set.InjOn (fun n : Nat => (edgeAround faceId edgeInfo)^[n] e) Set.univ := fun hinj =>
    Set.infinite_univ.not_finite <| Set.Finite.of_finite_image
      ((faceEdges_finite faceId edgeInfo).subset (by rintro _ ⟨n, -, rfl⟩; exact iterate_mem hperm he n)) hinj
  have hback : ∀ m n, m < n → (edgeAround faceId edgeInfo)^[m] e = (edgeAround faceId edgeInfo)^[n] e →
      e ∈ periodicPts (edgeAround faceId edgeInfo) := by
    intro m n hlt heq
    refine mk_mem_periodicPts (n := n - m) (by omega) ?_
    have hn : n = m + (n - m) := by omega
    rw [hn, iterate_add_apply] at heq
    exact (hperm.injOn.iterate hperm.mapsTo m (iterate_mem hperm he _) he heq.symm)
  simp only [Set.InjOn, not_forall] at hnot
  obtain ⟨m, -, n, -, heq, hne⟩ := hnot
  rcases Nat.lt_or_gt_of_ne hne with hlt | hlt
  · exact hback m n hlt heq
  · exact hback n m hlt heq.symm

/-- The orbit is the first edges up to the period. -/
theorem orbit_eq_image (hperm : Permutes faceId edgeInfo) {e : Int} (he : e ∈ faceEdges faceId edgeInfo) :
    orbit faceId edgeInfo e =
      (fun n : Nat => (edgeAround faceId edgeInfo)^[n] e) '' Set.Iio
      (minimalPeriod (edgeAround faceId edgeInfo) e) := by
  have hpos := minimalPeriod_pos_of_mem_periodicPts (mem_periodicPts hperm he)
  ext id
  constructor
  · rintro ⟨n, rfl⟩
    exact ⟨n % minimalPeriod (edgeAround faceId edgeInfo) e, Nat.mod_lt _ hpos, iterate_mod_minimalPeriod_eq⟩
  · rintro ⟨n, -, rfl⟩
    exact ⟨n, rfl⟩

theorem ncard_orbit (hperm : Permutes faceId edgeInfo) {e : Int} (he : e ∈ faceEdges faceId edgeInfo) :
    (orbit faceId edgeInfo e).ncard = minimalPeriod (edgeAround faceId edgeInfo) e := by
  rw [orbit_eq_image hperm he, Set.InjOn.ncard_image iterate_injOn_Iio_minimalPeriod,
    Set.ncard_eq_toFinset_card', Set.toFinset_Iio, Nat.card_Iio]

/-- The orbit is no longer than the table. -/
theorem minimalPeriod_le_length (hperm : Permutes faceId edgeInfo) {e : Int} (he : e ∈ faceEdges faceId edgeInfo) :
    minimalPeriod (edgeAround faceId edgeInfo) e ≤ edgeInfo.length := by
  have hsub : orbit faceId edgeInfo e ⊆ Set.Icc 1 (edgeInfo.length : Int) := by
    rintro _ ⟨n, rfl⟩
    exact (iterate_mem hperm he n).1
  have hle := Set.ncard_le_ncard hsub (Set.finite_Icc _ _)
  rw [ncard_orbit hperm he, Set.ncard_eq_toFinset_card', Set.toFinset_Icc, Int.card_Icc] at hle
  omega

/-! ## The loop -/

theorem callsBefore_succ (e : Int) (n : Nat) : callsBefore faceId edgeInfo e (n + 1) =
    callsBefore faceId edgeInfo e n ++ [⟨(n : Int), (edgeAround faceId edgeInfo)^[n] e,
      reversed faceId edgeInfo ((edgeAround faceId edgeInfo)^[n] e)⟩] := by
  rw [callsBefore, List.range_succ, List.map_append, callsBefore, List.map_singleton]

/-- What the loop has done after `n` passes. -/
def doneBefore (faceId : Int) (edgeInfo : List EdgeInfo) (listening : Bool) (e : Int) (n : Nat) : Progress :=
  ⟨n, if listening then callsBefore faceId edgeInfo e n else []⟩

/-- The pass at the `n`-th edge of the orbit goes on to the next, and ends the loop
where that is the first. -/
theorem pass_around (hlen : edgeInfo.length < 2 ^ 31) (hAux : NoAuxiliary faceId edgeInfo)
    (hperm : Permutes faceId edgeInfo) {e : Int} (he : e ∈ faceEdges faceId edgeInfo) (listening : Bool) {n : Nat}
    (hn : n < minimalPeriod (edgeAround faceId edgeInfo) e) (prev : Int) :
    pass faceId e edgeInfo listening ⟨prev, (edgeAround faceId edgeInfo)^[n] e⟩
        (doneBefore faceId edgeInfo listening e n) =
      some (doneBefore faceId edgeInfo listening e (n + 1),
        if n + 1 < minimalPeriod (edgeAround faceId edgeInfo) e then
          some ⟨(edgeAround faceId edgeInfo)^[n] e, (edgeAround faceId edgeInfo)^[n + 1] e⟩ else none) := by
  have hmem := iterate_mem hperm he n
  have hle := minimalPeriod_le_length hperm he
  have hcount : int ((n : Int) + 1) = ((n + 1 : Nat) : Int) := by
    rw [int_eq (by omega) (by omega)]
    rfl
  have hpos : 0 < (edgeAround faceId edgeInfo)^[n + 1] e := by
    have := (iterate_mem hperm he (n + 1)).1.1
    omega
  have hback : (edgeAround faceId edgeInfo)^[n + 1] e ≠ e ↔ n + 1 < minimalPeriod (edgeAround faceId edgeInfo) e := by
    constructor
    · intro hne
      by_contra hlt
      have hlast : n + 1 = minimalPeriod (edgeAround faceId edgeInfo) e := by omega
      exact hne (hlast ▸ iterate_minimalPeriod)
    · intro hlt heq
      exact absurd (IsPeriodicPt.minimalPeriod_le (Nat.succ_pos n) heq) (by omega)
  have htest : (0 < (edgeAround faceId edgeInfo)^[n + 1] e ∧ (edgeAround faceId edgeInfo)^[n + 1] e ≠ e) ↔
      n + 1 < minimalPeriod (edgeAround faceId edgeInfo) e := by
    rw [hback, and_iff_right hpos]
  cases listening with
  | true =>
    simp only [pass, doneBefore, nextEdgeId_around hAux hmem, getMustReverseCoordinates_around hAux hmem, if_true,
      Option.map_some, Option.bind_some, hcount, callsBefore_succ, ← iterate_succ_apply' (edgeAround faceId edgeInfo),
      htest]
  | false =>
    simp only [pass, doneBefore, nextEdgeId_around hAux hmem, Bool.false_eq_true, if_false, Option.map_some,
      Option.bind_some, hcount, ← iterate_succ_apply' (edgeAround faceId edgeInfo), htest]

/-- From the `n`-th edge the loop needs as many passes as there are edges left. -/
theorem traverseLoop_around (hlen : edgeInfo.length < 2 ^ 31) (hAux : NoAuxiliary faceId edgeInfo)
    (hperm : Permutes faceId edgeInfo) {e : Int} (he : e ∈ faceEdges faceId edgeInfo) (listening : Bool)
    (more : Nat) :
    ∀ left n prev, n < minimalPeriod (edgeAround faceId edgeInfo) e →
      n + left = minimalPeriod (edgeAround faceId edgeInfo) e →
      traverseLoop faceId e edgeInfo listening (left + more) ⟨prev, (edgeAround faceId edgeInfo)^[n] e⟩
          (doneBefore faceId edgeInfo listening e n) =
        .returned (doneBefore faceId edgeInfo listening e (minimalPeriod (edgeAround faceId edgeInfo) e)) := by
  intro left
  induction left with
  | zero =>
    intro n prev hlt hn
    omega
  | succ left ih =>
    intro n prev hlt hn
    rw [show left + 1 + more = left + more + 1 by omega, traverseLoop,
      pass_around hlen hAux hperm he listening hlt prev]
    by_cases hnext : n + 1 < minimalPeriod (edgeAround faceId edgeInfo) e
    · rw [if_pos hnext]
      exact ih (n + 1) _ hnext (by omega)
    · rw [if_neg hnext, show n + 1 = minimalPeriod (edgeAround faceId edgeInfo) e by omega]

/-! ## The ring -/

theorem callsBefore_reportsOrbit (hperm : Permutes faceId edgeInfo) {e : Int} (he : e ∈ faceEdges faceId edgeInfo) :
    ReportsOrbit faceId edgeInfo e
      (callsBefore faceId edgeInfo e (minimalPeriod (edgeAround faceId edgeInfo) e)) := by
  have hids : (callsBefore faceId edgeInfo e (minimalPeriod (edgeAround faceId edgeInfo) e)).map (·.primitiveId) =
      (List.range (minimalPeriod (edgeAround faceId edgeInfo) e)).map fun n =>
      (edgeAround faceId edgeInfo)^[n] e := by
    rw [callsBefore, List.map_map]
    rfl
  refine ⟨?_, ?_, ?_, fun id => ?_⟩
  · rw [callsBefore, List.map_map, List.length_map, List.length_range]
    rfl
  · rw [hids, callsBefore, List.length_map, List.length_range]
  · rw [hids]
    refine List.Nodup.map_on (fun m hm n hn heq => ?_) List.nodup_range
    exact iterate_injOn_Iio_minimalPeriod (List.mem_range.1 hm) (List.mem_range.1 hn) heq
  · rw [hids, orbit_eq_image hperm he, List.mem_map]
    simp only [List.mem_range, Set.mem_image, Set.mem_Iio]

/-- Around a face without auxiliary edges whose edges the map permutes, the call
returns the length of the orbit of its start edge, and its listener is told the
orbit. More passes than the orbit is long change nothing. -/
theorem traverseRing_reports_orbit (hlen : edgeInfo.length < 2 ^ 31) (hAux : NoAuxiliary faceId edgeInfo)
    (hperm : Permutes faceId edgeInfo) {e : Int} (he : e ∈ faceEdges faceId edgeInfo) (listening : Bool) :
    ∃ passes done, (∀ more, traverseRing (passes + more) faceId e edgeInfo listening = .returned done) ∧
      done.count = (orbit faceId edgeInfo e).ncard ∧
      if listening then ReportsOrbit faceId edgeInfo e done.calls else done.calls = [] := by
  refine ⟨minimalPeriod (edgeAround faceId edgeInfo) e,
    doneBefore faceId edgeInfo listening e (minimalPeriod (edgeAround faceId edgeInfo) e), fun more => ?_, ?_, ?_⟩
  · have hstart : (⟨0, []⟩ : Progress) = doneBefore faceId edgeInfo listening e 0 := by
      cases listening <;> rfl
    rw [traverseRing, hstart]
    exact traverseLoop_around hlen hAux hperm he listening more _ 0 (-1)
      (minimalPeriod_pos_of_mem_periodicPts (mem_periodicPts hperm he)) (Nat.zero_add _)
  · rw [ncard_orbit hperm he, doneBefore]
  · cases listening with
    | true => exact callsBefore_reportsOrbit hperm he
    | false => rfl

theorem noAuxiliary_of_forall (h : ∀ e ∈ edgeInfo, ¬ (e.leftFace = faceId ∧ e.rightFace = faceId)) :
    NoAuxiliary faceId edgeInfo := by
  intro id hid
  obtain ⟨e, hget, ho⟩ := Option.map_eq_some_iff.1 hid
  have he : e ∈ edgeInfo := by
    rw [getEdgeInfo] at hget
    split at hget
    · cases hget
    · exact List.mem_of_getElem? hget
  rw [if_neg (h e he)] at ho
  split at ho <;> simp at ho

/-- Both edges lie on face 1, and each leads to the other. -/
theorem permutes_twoEdges : Permutes 1 twoEdges := by
  have hids : ∀ id ∈ faceEdges 1 twoEdges, id = 1 ∨ id = 2 := by
    rintro id ⟨⟨h1, h2⟩, -⟩
    simp only [twoEdges, List.length_cons, List.length_nil] at h2
    omega
  have h1 : (1 : Int) ∈ faceEdges 1 twoEdges := ⟨by decide, by decide⟩
  have h2 : (2 : Int) ∈ faceEdges 1 twoEdges := ⟨by decide, by decide⟩
  refine ⟨fun id hid => ?_, fun a ha b hb heq => ?_, fun id hid => ?_⟩
  · rcases hids id hid with rfl | rfl
    · exact h2
    · exact h1
  · rcases hids a ha with rfl | rfl <;> rcases hids b hb with rfl | rfl
    · rfl
    · exact absurd heq (by decide)
    · exact absurd heq (by decide)
    · rfl
  · rcases hids id hid with rfl | rfl
    · exact ⟨2, h2, by decide⟩
    · exact ⟨1, h1, by decide⟩

theorem traverseRing_reports_twoEdges :
    ∃ passes done, (∀ more, traverseRing (passes + more) 1 1 twoEdges true = .returned done) ∧
      done.count = (orbit 1 twoEdges 1).ncard ∧ ReportsOrbit 1 twoEdges 1 done.calls :=
  traverseRing_reports_orbit (by decide) (noAuxiliary_of_forall (by decide)) permutes_twoEdges
    ⟨by decide, by decide⟩ true

end WorldWind.Vpf
