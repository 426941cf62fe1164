import WorldWind.Lib.TrianglePrimitives
/-!
# Meshes of triangles

A mesh is a list of triangles, each with its three sides in the order of the
corners. It is a closed surface with one orientation if each side belongs to one
triangle and its reverse to another (`Closed`). Dividing each triangle in four
at points of its edges keeps this, if no two triangles have the same corners
(`Closed.quarters`): two of the same corners would share the inner sides.
-/

namespace WorldWind.Lib.TriangleMesh

open TriangleStrip TrianglePrimitives

variable {α : Type*}

/-- The sides of a triangle, in the order of its corners. -/
def sides (t : Triangle α) : List (α × α) := [(t.1, t.2.1), (t.2.1, t.2.2), (t.2.2, t.1)]

/-- The sides of all triangles. -/
def meshSides (T : List (Triangle α)) : List (α × α) := T.flatMap sides

/-- The corners of a triangle. -/
def corners (t : Triangle α) : Set α := {t.1, t.2.1, t.2.2}

/-- A side without its direction. -/
def edge (d : α × α) : Sym2 α := s(d.1, d.2)

/-- Three different corners. -/
def Proper (t : Triangle α) : Prop := t.1 ≠ t.2.1 ∧ t.2.1 ≠ t.2.2 ∧ t.2.2 ≠ t.1

instance [DecidableEq α] (t : Triangle α) : Decidable (Proper t) :=
  inferInstanceAs (Decidable (t.1 ≠ t.2.1 ∧ t.2.1 ≠ t.2.2 ∧ t.2.2 ≠ t.1))

/-- A closed surface, consistently oriented: each directed side is in one triangle,
and so is its reverse. -/
structure Closed (T : List (Triangle α)) : Prop where
  proper : ∀ t ∈ T, Proper t
  once : (meshSides T).Nodup
  reverse : ∀ d ∈ meshSides T, d.swap ∈ meshSides T

/-- No two triangles have the same corners. -/
def NoTwins (T : List (Triangle α)) : Prop := ∀ t ∈ T, ∀ t' ∈ T, corners t = corners t' → t = t'

instance [DecidableEq α] (T : List (Triangle α)) : Decidable (NoTwins T) :=
  decidable_of_iff (∀ t ∈ T, ∀ t' ∈ T, ({t.1, t.2.1, t.2.2} : Finset α) = {t'.1, t'.2.1, t'.2.2} → t = t') (by
    simp only [NoTwins, corners, ← Finset.coe_inj, Finset.coe_insert, Finset.coe_singleton])

theorem mem_sides {t : Triangle α} {d : α × α} :
    d ∈ sides t ↔ d = (t.1, t.2.1) ∨ d = (t.2.1, t.2.2) ∨ d = (t.2.2, t.1) := by
  simp [sides]

theorem mem_meshSides {T : List (Triangle α)} {d : α × α} : d ∈ meshSides T ↔ ∃ t ∈ T, d ∈ sides t := List.mem_flatMap

theorem edge_swap (d : α × α) : edge d.swap = edge d := Sym2.eq_swap

/-- A side is known from its edge and its first point. -/
theorem eq_of_edge {d d' : α × α} (h : edge d = edge d') (h1 : d.1 = d'.1) : d = d' := by
  rcases Sym2.eq_iff.1 h with ⟨-, h2⟩ | ⟨h12, h21⟩
  · exact Prod.ext h1 h2
  · exact Prod.ext h1 (h21.trans (h1.symm.trans h12))

theorem eq_of_edge_snd {d d' : α × α} (h : edge d = edge d') (h2 : d.2 = d'.2) : d = d' := by
  have hswap : d.swap = d'.swap := eq_of_edge (by rw [edge_swap, edge_swap, h]) h2
  exact Prod.swap_injective hswap

namespace Proper

variable {t : Triangle α}

/-- The sides of a proper triangle have different edges. -/
theorem eq_of_sides (h : Proper t) {d d' : α × α} (hd : d ∈ sides t) (hd' : d' ∈ sides t) (he : edge d = edge d') :
    d = d' := by
  obtain ⟨a, b, c⟩ := t
  simp only [Proper] at h
  rcases mem_sides.1 hd with rfl | rfl | rfl <;> rcases mem_sides.1 hd' with rfl | rfl | rfl <;>
    simp [edge] at he ⊢ <;> tauto

/-- Two different edges have all corners. -/
theorem corners_eq {d d' : α × α} (hd : d ∈ sides t) (hd' : d' ∈ sides t) (hne : d ≠ d') :
    corners t = {v | v ∈ edge d ∨ v ∈ edge d'} := by
  obtain ⟨a, b, c⟩ := t
  ext v
  rcases mem_sides.1 hd with rfl | rfl | rfl <;> rcases mem_sides.1 hd' with rfl | rfl | rfl <;>
    simp [corners, edge] at hne ⊢ <;> tauto

end Proper

namespace Closed

variable {T : List (Triangle α)}

theorem nodup (h : Closed T) : T.Nodup := by
  refine (List.nodup_flatMap.1 h.once).2.imp fun {t t'} hdisjoint heq => ?_
  subst heq
  exact hdisjoint (mem_sides.2 (.inl rfl)) (mem_sides.2 (.inl rfl))

/-- A side belongs to one triangle. -/
theorem eq_of_side (h : Closed T) {t t' : Triangle α} (ht : t ∈ T) (ht' : t' ∈ T) {d : α × α} (hd : d ∈ sides t)
    (hd' : d ∈ sides t') : t = t' := by
  by_contra hne
  have : Std.Symm (Function.onFun List.Disjoint (sides (α := α))) := ⟨fun _ _ hdisjoint => hdisjoint.symm⟩
  exact (List.nodup_flatMap.1 h.once).2.forall ht ht' hne hd hd'

theorem perm (h : Closed T) {T' : List (Triangle α)} (hperm : T.Perm T') : Closed T' := by
  have hsides : (meshSides T).Perm (meshSides T') := hperm.flatMap_right _
  refine ⟨fun t ht => h.proper t (hperm.mem_iff.2 ht), hsides.nodup_iff.1 h.once, fun d hd => ?_⟩
  exact hsides.mem_iff.1 (h.reverse d (hsides.mem_iff.2 hd))

end Closed

/-- The triangle from the other side. -/
def turn (t : Triangle α) : Triangle α := (t.2.2, t.2.1, t.1)

@[simp] theorem turn_turn (t : Triangle α) : turn (turn t) = t := rfl

theorem meshSides_turn (T : List (Triangle α)) : (meshSides (T.map turn)).Perm ((meshSides T).map Prod.swap) := by
  have hsides : ∀ t : Triangle α, (sides (turn t)).Perm ((sides t).map Prod.swap) := fun t => List.Perm.swap _ _ _
  rw [meshSides, List.flatMap_map, meshSides, List.map_flatMap]
  exact List.Perm.flatMap_left _ fun t _ => hsides t

theorem Closed.turn {T : List (Triangle α)} (h : Closed T) : Closed (T.map TriangleMesh.turn) := by
  have hsides := meshSides_turn T
  refine ⟨fun t ht => ?_, ?_, fun d hd => ?_⟩
  · obtain ⟨u, hu, rfl⟩ := List.mem_map.1 ht
    obtain ⟨h1, h2, h3⟩ := h.proper u hu
    exact ⟨h2.symm, h1.symm, h3.symm⟩
  · exact hsides.nodup_iff.2 (h.once.map Prod.swap_injective)
  · obtain ⟨e, he, rfl⟩ := List.mem_map.1 (hsides.mem_iff.1 hd)
    exact hsides.mem_iff.2 (List.mem_map.2 ⟨e.swap, h.reverse e he, rfl⟩)

theorem closed_turn_iff {T : List (Triangle α)} : Closed (T.map TriangleMesh.turn) ↔ Closed T := by
  refine ⟨fun h => ?_, Closed.turn⟩
  have hturn := h.turn
  rwa [List.map_map, show TriangleMesh.turn ∘ TriangleMesh.turn = (id : Triangle α → Triangle α) from rfl,
    List.map_id] at hturn

theorem meshSides_map {β : Type*} (f : α → β) (T : List (Triangle α)) :
    meshSides (T.map (Triangle.map f)) = (meshSides T).map (Prod.map f f) := by
  rw [meshSides, List.flatMap_map, meshSides, List.map_flatMap]
  rfl

theorem corner_of_side {T : List (Triangle α)} {d : α × α} (hd : d ∈ meshSides T) :
    (∃ t ∈ T, d.1 ∈ corners t) ∧ ∃ t ∈ T, d.2 ∈ corners t := by
  obtain ⟨t, ht, hside⟩ := mem_meshSides.1 hd
  refine ⟨⟨t, ht, ?_⟩, t, ht, ?_⟩ <;> rcases mem_sides.1 hside with rfl | rfl | rfl <;> simp [corners]

/-- Other names for the corners make no difference. -/
theorem closed_map_iff {β : Type*} {f : α → β} {T : List (Triangle α)}
    (hf : Set.InjOn f {v | ∃ t ∈ T, v ∈ corners t}) : Closed (T.map (Triangle.map f)) ↔ Closed T := by
  have hinj : ∀ d ∈ meshSides T, ∀ e ∈ meshSides T, Prod.map f f d = Prod.map f f e → d = e := by
    intro d hd e he heq
    obtain ⟨h1, h2⟩ := Prod.mk.inj heq
    exact Prod.ext (hf (corner_of_side hd).1 (corner_of_side he).1 h1)
      (hf (corner_of_side hd).2 (corner_of_side he).2 h2)
  constructor
  · intro h
    have honce := h.once
    rw [meshSides_map] at honce
    refine ⟨fun t ht => ?_, List.Nodup.of_map _ honce, fun d hd => ?_⟩
    · obtain ⟨h1, h2, h3⟩ := h.proper _ (List.mem_map_of_mem ht)
      exact ⟨fun heq => h1 (congrArg f heq), fun heq => h2 (congrArg f heq), fun heq => h3 (congrArg f heq)⟩
    · have hreverse := h.reverse (Prod.map f f d) (by rw [meshSides_map]; exact List.mem_map_of_mem hd)
      rw [meshSides_map] at hreverse
      obtain ⟨e, he, heq⟩ := List.mem_map.1 hreverse
      obtain ⟨h1, h2⟩ := Prod.mk.inj heq
      have hswap : e = d.swap :=
        Prod.ext (hf (corner_of_side he).1 (corner_of_side hd).2 h1)
          (hf (corner_of_side he).2 (corner_of_side hd).1 h2)
      exact hswap ▸ he
  · intro h
    refine ⟨fun t ht => ?_, ?_, fun d hd => ?_⟩
    · obtain ⟨u, hu, rfl⟩ := List.mem_map.1 ht
      obtain ⟨h1, h2, h3⟩ := h.proper u hu
      have ha : u.1 ∈ {v | ∃ t ∈ T, v ∈ corners t} := ⟨u, hu, by simp [corners]⟩
      have hb : u.2.1 ∈ {v | ∃ t ∈ T, v ∈ corners t} := ⟨u, hu, by simp [corners]⟩
      have hc : u.2.2 ∈ {v | ∃ t ∈ T, v ∈ corners t} := ⟨u, hu, by simp [corners]⟩
      exact ⟨fun heq => h1 (hf ha hb heq), fun heq => h2 (hf hb hc heq), fun heq => h3 (hf hc ha heq)⟩
    · rw [meshSides_map]
      exact h.once.map_on fun d hd e he heq => hinj d hd e he heq
    · rw [meshSides_map] at hd ⊢
      obtain ⟨e, he, rfl⟩ := List.mem_map.1 hd
      exact List.mem_map.2 ⟨e.swap, h.reverse e he, rfl⟩

/-! ## Division in four -/

/-- The triangles that the points of the edges cut a triangle in. -/
def quarters (split : Sym2 α → α) (t : Triangle α) : List (Triangle α) :=
  let ab := split s(t.1, t.2.1)
  let bc := split s(t.2.1, t.2.2)
  let ca := split s(t.2.2, t.1)
  [(t.1, ab, ca), (ab, bc, ca), (ab, t.2.1, bc), (ca, bc, t.2.2)]

/-- The edges of a mesh. -/
def IsEdge (T : List (Triangle α)) (z : Sym2 α) : Prop := ∃ d ∈ meshSides T, edge d = z

/-- The points of the edges are new, one for each. -/
structure Splits (T : List (Triangle α)) (split : Sym2 α → α) : Prop where
  inj : ∀ z z', IsEdge T z → IsEdge T z' → split z = split z' → z = z'
  fresh : ∀ z, IsEdge T z → ∀ t ∈ T, split z ∉ corners t

/-- The sides of the four triangles: halves of sides, and inner sides between two edges. -/
theorem mem_sides_quarters {split : Sym2 α → α} {t : Triangle α} (h : Proper t) {e : α × α} :
    e ∈ (quarters split t).flatMap sides ↔
      (∃ d ∈ sides t, e = (d.1, split (edge d)) ∨ e = (split (edge d), d.2)) ∨
        ∃ d ∈ sides t, ∃ d' ∈ sides t, d ≠ d' ∧ e = (split (edge d), split (edge d')) := by
  obtain ⟨a, b, c⟩ := t
  obtain ⟨h1, h2, h3⟩ := h
  simp only at h1 h2 h3
  have hab : (a, b) ∈ sides (a, b, c) := mem_sides.2 (.inl rfl)
  have hbc : (b, c) ∈ sides (a, b, c) := mem_sides.2 (.inr (.inl rfl))
  have hca : (c, a) ∈ sides (a, b, c) := mem_sides.2 (.inr (.inr rfl))
  have hab_bc : (a, b) ≠ (b, c) := fun he => h1 (congrArg Prod.fst he)
  have hbc_ca : (b, c) ≠ (c, a) := fun he => h2 (congrArg Prod.fst he)
  have hca_ab : (c, a) ≠ (a, b) := fun he => h3 (congrArg Prod.fst he)
  constructor
  · intro he
    simp only [quarters, sides, List.flatMap_cons, List.flatMap_nil, List.append_nil, List.mem_append, List.mem_cons,
      List.not_mem_nil, or_false] at he
    rcases he with (rfl | rfl | rfl) | (rfl | rfl | rfl) | (rfl | rfl | rfl) | (rfl | rfl | rfl)
    · exact .inl ⟨_, hab, .inl rfl⟩
    · exact .inr ⟨_, hab, _, hca, hca_ab.symm, rfl⟩
    · exact .inl ⟨_, hca, .inr rfl⟩
    · exact .inr ⟨_, hab, _, hbc, hab_bc, rfl⟩
    · exact .inr ⟨_, hbc, _, hca, hbc_ca, rfl⟩
    · exact .inr ⟨_, hca, _, hab, hca_ab, rfl⟩
    · exact .inl ⟨_, hab, .inr rfl⟩
    · exact .inl ⟨_, hbc, .inl rfl⟩
    · exact .inr ⟨_, hbc, _, hab, hab_bc.symm, rfl⟩
    · exact .inr ⟨_, hca, _, hbc, hbc_ca.symm, rfl⟩
    · exact .inl ⟨_, hbc, .inr rfl⟩
    · exact .inl ⟨_, hca, .inl rfl⟩
  · rintro (⟨d, hd, he⟩ | ⟨d, hd, d', hd', hne, rfl⟩)
    · rcases mem_sides.1 hd with rfl | rfl | rfl <;> rcases he with rfl | rfl <;> simp [quarters, sides, edge]
    · rcases mem_sides.1 hd with rfl | rfl | rfl <;> rcases mem_sides.1 hd' with rfl | rfl | rfl <;>
        simp [quarters, sides, edge] at hne ⊢

/-- The points of a mesh's edges and its corners. -/
theorem Splits.corner {T : List (Triangle α)} {split : Sym2 α → α} (h : Splits T split) {t t' : Triangle α}
    (ht : t ∈ T)
    (ht' : t' ∈ T) {d : α × α} (hd : d ∈ sides t) {v : α} (hv : v ∈ corners t') : split (edge d) ≠ v :=
  fun he => h.fresh _ ⟨d, mem_meshSides.2 ⟨t, ht, hd⟩, rfl⟩ t' ht' (he ▸ hv)

theorem Splits.eq {T : List (Triangle α)} {split : Sym2 α → α} (h : Splits T split) {t t' : Triangle α} (ht : t ∈ T)
    (ht' : t' ∈ T) {d d' : α × α} (hd : d ∈ sides t) (hd' : d' ∈ sides t') (he : split (edge d) = split (edge d')) :
    edge d = edge d' :=
  h.inj _ _ ⟨d, mem_meshSides.2 ⟨t, ht, hd⟩, rfl⟩ ⟨d', mem_meshSides.2 ⟨t', ht', hd'⟩, rfl⟩ he

theorem fst_mem_corners {t : Triangle α} {d : α × α} (hd : d ∈ sides t) : d.1 ∈ corners t := by
  rcases mem_sides.1 hd with rfl | rfl | rfl <;> simp [corners]

theorem snd_mem_corners {t : Triangle α} {d : α × α} (hd : d ∈ sides t) : d.2 ∈ corners t := by
  rcases mem_sides.1 hd with rfl | rfl | rfl <;> simp [corners]

section

variable {T : List (Triangle α)} {split : Sym2 α → α} (h : Closed T) (hsplit : Splits T split)

include h hsplit

omit hsplit in
/-- Triangles with the same corners are the same if two of their edges are. -/
theorem NoTwins.eq_of_edges (htwins : NoTwins T) {t t' : Triangle α} (ht : t ∈ T) (ht' : t' ∈ T) {d e d' e' : α × α}
    (hd : d ∈ sides t) (he : e ∈ sides t) (hne : d ≠ e) (hd' : d' ∈ sides t') (he' : e' ∈ sides t')
    (hdd : edge d = edge d') (hee : edge e = edge e') : t = t' := by
  refine htwins t ht t' ht' ?_
  have hne' : d' ≠ e' := by
    rintro rfl
    exact hne ((h.proper t ht).eq_of_sides hd he (hdd.trans hee.symm))
  rw [Proper.corners_eq hd he hne, Proper.corners_eq hd' he' hne', hdd, hee]

/-- Different triangles have no side of their quarters in common. -/
theorem eq_of_side_quarters (htwins : NoTwins T) {t t' : Triangle α} (ht : t ∈ T) (ht' : t' ∈ T) {e : α × α}
    (he : e ∈ (quarters split t).flatMap sides) (he' : e ∈ (quarters split t').flatMap sides) : t = t' := by
  rw [mem_sides_quarters (h.proper t ht)] at he
  rw [mem_sides_quarters (h.proper t' ht')] at he'
  rcases he with ⟨d, hd, rfl | rfl⟩ | ⟨d, hd, d₂, hd₂, hne, rfl⟩
  · -- the first half of a side
    rcases he' with ⟨d', hd', heq | heq⟩ | ⟨d', hd', d₂', hd₂', hne', heq⟩ <;> rw [Prod.mk.injEq] at heq
    · have hside := eq_of_edge (hsplit.eq ht ht' hd hd' heq.2) heq.1
      exact h.eq_of_side ht ht' hd (hside ▸ hd')
    · exact absurd heq.1.symm (hsplit.corner ht' ht hd' (fst_mem_corners hd))
    · exact absurd heq.1.symm (hsplit.corner ht' ht hd' (fst_mem_corners hd))
  · -- the second half
    rcases he' with ⟨d', hd', heq | heq⟩ | ⟨d', hd', d₂', hd₂', hne', heq⟩ <;> rw [Prod.mk.injEq] at heq
    · exact absurd heq.1 (hsplit.corner ht ht' hd (fst_mem_corners hd'))
    · have hside := eq_of_edge_snd (hsplit.eq ht ht' hd hd' heq.1) heq.2
      exact h.eq_of_side ht ht' hd (hside ▸ hd')
    · exact absurd heq.2.symm (hsplit.corner ht' ht hd₂' (snd_mem_corners hd))
  · -- an inner side
    rcases he' with ⟨d', hd', heq | heq⟩ | ⟨d', hd', d₂', hd₂', hne', heq⟩ <;> rw [Prod.mk.injEq] at heq
    · exact absurd heq.1 (hsplit.corner ht ht' hd (fst_mem_corners hd'))
    · exact absurd heq.2 (hsplit.corner ht ht' hd₂ (snd_mem_corners hd'))
    · exact htwins.eq_of_edges h ht ht' hd hd₂ hne hd' hd₂' (hsplit.eq ht ht' hd hd' heq.1)
        (hsplit.eq ht ht' hd₂ hd₂' heq.2)

/-- The points of a triangle's edges are different and none of its corners. -/
theorem fresh_of_mem {a b c : α} (ht : (a, b, c) ∈ T) :
    (split s(a, b) ≠ split s(b, c) ∧ split s(b, c) ≠ split s(c, a) ∧ split s(c, a) ≠ split s(a, b)) ∧
      ∀ v ∈ corners (a, b, c), split s(a, b) ≠ v ∧ split s(b, c) ≠ v ∧ split s(c, a) ≠ v := by
  have hab : (a, b) ∈ sides (a, b, c) := mem_sides.2 (.inl rfl)
  have hbc : (b, c) ∈ sides (a, b, c) := mem_sides.2 (.inr (.inl rfl))
  have hca : (c, a) ∈ sides (a, b, c) := mem_sides.2 (.inr (.inr rfl))
  have hproper := h.proper _ ht
  refine ⟨⟨fun he => ?_, fun he => ?_, fun he => ?_⟩, fun v hv =>
    ⟨hsplit.corner ht ht hab hv, hsplit.corner ht ht hbc hv, hsplit.corner ht ht hca hv⟩⟩
  · exact hproper.1 (congrArg Prod.fst (hproper.eq_of_sides hab hbc (hsplit.eq ht ht hab hbc he)))
  · exact hproper.2.1 (congrArg Prod.fst (hproper.eq_of_sides hbc hca (hsplit.eq ht ht hbc hca he)))
  · exact hproper.2.2 (congrArg Prod.fst (hproper.eq_of_sides hca hab (hsplit.eq ht ht hca hab he)))

theorem nodup_sides_quarters {t : Triangle α} (ht : t ∈ T) : ((quarters split t).flatMap sides).Nodup := by
  obtain ⟨a, b, c⟩ := t
  obtain ⟨h1, h2, h3⟩ := h.proper _ ht
  obtain ⟨⟨e1, e2, e3⟩, hfresh⟩ := fresh_of_mem h hsplit ht
  obtain ⟨a1, a2, a3⟩ := hfresh a (by simp [corners])
  obtain ⟨b1, b2, b3⟩ := hfresh b (by simp [corners])
  obtain ⟨c1, c2, c3⟩ := hfresh c (by simp [corners])
  simp only at h1 h2 h3
  simp [quarters, sides, h1, h2, e1, e2, e3, a1, a3, b1, b2, b3, c1, c2, c3, h3.symm, e1.symm, e2.symm, e3.symm,
    a1.symm, a3.symm, b1.symm, b2.symm, c3.symm, a2.symm, b3.symm]

theorem proper_quarters {t q : Triangle α} (ht : t ∈ T) (hq : q ∈ quarters split t) : Proper q := by
  obtain ⟨a, b, c⟩ := t
  obtain ⟨⟨e1, e2, e3⟩, hfresh⟩ := fresh_of_mem h hsplit ht
  obtain ⟨a1, a2, a3⟩ := hfresh a (by simp [corners])
  obtain ⟨b1, b2, b3⟩ := hfresh b (by simp [corners])
  obtain ⟨c1, c2, c3⟩ := hfresh c (by simp [corners])
  simp only [quarters, List.mem_cons, List.not_mem_nil, or_false] at hq
  rcases hq with rfl | rfl | rfl | rfl
  · exact ⟨a1.symm, e3.symm, a3⟩
  · exact ⟨e1, e2, e3⟩
  · exact ⟨b1, b2.symm, e1.symm⟩
  · exact ⟨e2.symm, c2, c3.symm⟩

/-- Division in four keeps a closed surface closed. -/
theorem Closed.quarters (htwins : NoTwins T) : Closed (T.flatMap (quarters split)) := by
  have hsides : meshSides (T.flatMap (TriangleMesh.quarters split)) =
      T.flatMap fun t => (TriangleMesh.quarters split t).flatMap sides := List.flatMap_assoc
  refine ⟨fun q hq => ?_, ?_, fun e he => ?_⟩
  · obtain ⟨t, ht, hq⟩ := List.mem_flatMap.1 hq
    exact proper_quarters h hsplit ht hq
  · rw [hsides, List.nodup_flatMap]
    refine ⟨fun t ht => nodup_sides_quarters h hsplit ht, h.nodup.imp_of_mem fun {t t'} ht ht' hne e he he' => ?_⟩
    exact hne (eq_of_side_quarters h hsplit htwins ht ht' he he')
  · rw [hsides, List.mem_flatMap] at he ⊢
    obtain ⟨t, ht, he⟩ := he
    rw [mem_sides_quarters (h.proper t ht)] at he
    -- the reverse of a half is a half of the reverse, in the other triangle
    have hreverse : ∀ d ∈ sides t, ∃ t' ∈ T, d.swap ∈ sides t' := fun d hd =>
      mem_meshSides.1 (h.reverse d (mem_meshSides.2 ⟨t, ht, hd⟩))
    rcases he with ⟨d, hd, rfl | rfl⟩ | ⟨d, hd, d', hd', hne, rfl⟩
    · obtain ⟨t', ht', hd'⟩ := hreverse d hd
      exact ⟨t', ht', (mem_sides_quarters (h.proper t' ht')).2 (.inl ⟨d.swap, hd', .inr (by rw [edge_swap]; rfl)⟩)⟩
    · obtain ⟨t', ht', hd'⟩ := hreverse d hd
      exact ⟨t', ht', (mem_sides_quarters (h.proper t' ht')).2 (.inl ⟨d.swap, hd', .inl (by rw [edge_swap]; rfl)⟩)⟩
    · exact ⟨t, ht, (mem_sides_quarters (h.proper t ht)).2 (.inr ⟨d', hd', d, hd, hne.symm, rfl⟩)⟩

omit hsplit in
/-- A quarter has the points of two edges. -/
theorem quarter_edges {t q : Triangle α} (ht : t ∈ T) (hq : q ∈ TriangleMesh.quarters split t) :
    ∃ d ∈ sides t, ∃ e ∈ sides t, d ≠ e ∧ split (edge d) ∈ corners q ∧ split (edge e) ∈ corners q := by
  obtain ⟨a, b, c⟩ := t
  have hab : (a, b) ∈ sides (a, b, c) := mem_sides.2 (.inl rfl)
  have hbc : (b, c) ∈ sides (a, b, c) := mem_sides.2 (.inr (.inl rfl))
  have hca : (c, a) ∈ sides (a, b, c) := mem_sides.2 (.inr (.inr rfl))
  obtain ⟨h1, h2, h3⟩ := h.proper _ ht
  simp only [TriangleMesh.quarters, List.mem_cons, List.not_mem_nil, or_false] at hq
  rcases hq with rfl | rfl | rfl | rfl
  · exact ⟨_, hab, _, hca, fun he => h3 (congrArg Prod.fst he).symm, by simp [corners, edge], by simp [corners, edge]⟩
  · exact ⟨_, hab, _, hbc, fun he => h1 (congrArg Prod.fst he), by simp [corners, edge], by simp [corners, edge]⟩
  · exact ⟨_, hab, _, hbc, fun he => h1 (congrArg Prod.fst he), by simp [corners, edge], by simp [corners, edge]⟩
  · exact ⟨_, hbc, _, hca, fun he => h2 (congrArg Prod.fst he), by simp [corners, edge], by simp [corners, edge]⟩

omit h in
/-- A corner of a quarter that is the point of an edge: an edge of the divided triangle. -/
theorem edge_of_corner {t t' q : Triangle α} (ht : t ∈ T) (ht' : t' ∈ T) (hq : q ∈ TriangleMesh.quarters split t')
    {d : α × α}
    (hd : d ∈ sides t) (hcorner : split (edge d) ∈ corners q) : ∃ d' ∈ sides t', edge d = edge d' := by
  obtain ⟨a, b, c⟩ := t'
  have hab : (a, b) ∈ sides (a, b, c) := mem_sides.2 (.inl rfl)
  have hbc : (b, c) ∈ sides (a, b, c) := mem_sides.2 (.inr (.inl rfl))
  have hca : (c, a) ∈ sides (a, b, c) := mem_sides.2 (.inr (.inr rfl))
  have hold : ∀ v ∈ corners (a, b, c), split (edge d) ≠ v := fun v hv => hsplit.corner ht ht' hd hv
  have hpoint : split (edge d) = split s(a, b) ∨ split (edge d) = split s(b, c) ∨ split (edge d) = split s(c, a) := by
    have ha := hold a (by simp [corners])
    have hb := hold b (by simp [corners])
    have hc := hold c (by simp [corners])
    simp only [TriangleMesh.quarters, List.mem_cons, List.not_mem_nil, or_false] at hq
    rcases hq with rfl | rfl | rfl | rfl <;> simp only [corners, Set.mem_insert_iff,
      Set.mem_singleton_iff] at hcorner <;>
      tauto
  rcases hpoint with he | he | he
  · exact ⟨_, hab, hsplit.eq ht ht' hd hab he⟩
  · exact ⟨_, hbc, hsplit.eq ht ht' hd hbc he⟩
  · exact ⟨_, hca, hsplit.eq ht ht' hd hca he⟩

/-- The quarters of one triangle have different corners. -/
theorem eq_of_corners_quarters {t q q' : Triangle α} (ht : t ∈ T) (hq : q ∈ TriangleMesh.quarters split t)
    (hq' : q' ∈ TriangleMesh.quarters split t) (heq : corners q = corners q') : q = q' := by
  obtain ⟨a, b, c⟩ := t
  obtain ⟨h1, h2, h3⟩ := h.proper _ ht
  obtain ⟨-, hfresh⟩ := fresh_of_mem h hsplit ht
  obtain ⟨a1, a2, a3⟩ := hfresh a (by simp [corners])
  obtain ⟨b1, b2, b3⟩ := hfresh b (by simp [corners])
  obtain ⟨c1, c2, c3⟩ := hfresh c (by simp [corners])
  have ha := Set.ext_iff.1 heq a
  have hb := Set.ext_iff.1 heq b
  have hc := Set.ext_iff.1 heq c
  simp only at h1 h2 h3
  simp only [TriangleMesh.quarters, List.mem_cons, List.not_mem_nil, or_false] at hq hq'
  rcases hq with rfl | rfl | rfl | rfl <;> rcases hq' with rfl | rfl | rfl | rfl <;> first | rfl | skip
  all_goals
    simp only [corners, Set.mem_insert_iff, Set.mem_singleton_iff] at ha hb hc
    simp [h1, h2, h3.symm, a1.symm, a2.symm, a3.symm, b1.symm, b2.symm, b3.symm, c1.symm, c2.symm,
      c3.symm] at ha hb hc

theorem NoTwins.quarters (htwins : NoTwins T) : NoTwins (T.flatMap (TriangleMesh.quarters split)) := by
  intro q hq q' hq' heq
  obtain ⟨t, ht, hq⟩ := List.mem_flatMap.1 hq
  obtain ⟨t', ht', hq'⟩ := List.mem_flatMap.1 hq'
  obtain ⟨d, hd, e, he, hne, hdq, heq'⟩ := quarter_edges h ht hq
  obtain ⟨d', hd', hdd⟩ := edge_of_corner hsplit ht ht' hq' hd (heq ▸ hdq)
  obtain ⟨e', he', hee⟩ := edge_of_corner hsplit ht ht' hq' he (heq ▸ heq')
  obtain rfl := htwins.eq_of_edges h ht ht' hd he hne hd' he' hdd hee
  exact eq_of_corners_quarters h hsplit ht hq hq' heq

end

end WorldWind.Lib.TriangleMesh
