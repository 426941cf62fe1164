import WorldWind.Elevations.Compound
/-!
# What the models of a compound model leave in a buffer

The batch path writes from the lowest resolution to the highest, the point path
searches from the highest to the lowest. A compound model with one child asks
it for mapped elevations, so a lone leaf writes its replacement over what lower
models supplied; and a compound model takes a value for missing that is its own
signal but not its child's. Elsewhere the two agree (`fills_iff`).
-/

namespace WorldWind.Elevations

variable {L S : Type}

/-! ## Writing at locations -/

/-- Writes a value, if there is one, at the place of each location. -/
def overwrite (f : L → Option ℚ) : List L → List ℚ → List ℚ
  | ll :: latlons, x :: buffer => (f ll).getD x :: overwrite f latlons buffer
  | _, buffer => buffer

theorem length_overwrite (f : L → Option ℚ) (latlons : List L) (buffer : List ℚ) :
    (overwrite f latlons buffer).length = buffer.length := by
  induction latlons generalizing buffer with
  | nil => cases buffer <;> rfl
  | cons ll latlons ih =>
    cases buffer with
    | nil => rfl
    | cons x buffer => rw [overwrite, List.length_cons, ih, List.length_cons]

/-- Of two writes the second counts. -/
theorem overwrite_overwrite (f g : L → Option ℚ) (latlons : List L) (buffer : List ℚ) :
    overwrite g latlons (overwrite f latlons buffer) = overwrite (fun ll => (g ll).or (f ll)) latlons buffer := by
  induction latlons generalizing buffer with
  | nil => cases buffer <;> rfl
  | cons ll latlons ih =>
    cases buffer with
    | nil => rfl
    | cons x buffer =>
      rw [overwrite, overwrite, overwrite, ih]
      cases g ll <;> rfl

theorem overwrite_none {f : L → Option ℚ} {latlons : List L} (h : ∀ ll ∈ latlons, f ll = none) (buffer : List ℚ) :
    overwrite f latlons buffer = buffer := by
  induction latlons generalizing buffer with
  | nil => cases buffer <;> rfl
  | cons ll latlons ih =>
    cases buffer with
    | nil => rfl
    | cons x buffer =>
      rw [overwrite, h ll List.mem_cons_self, ih fun ll' h' => h ll' (List.mem_cons_of_mem _ h')]
      rfl

theorem overwrite_congr {f g : L → Option ℚ} {latlons : List L} (h : ∀ ll ∈ latlons, f ll = g ll) (buffer : List ℚ) :
    overwrite f latlons buffer = overwrite g latlons buffer := by
  induction latlons generalizing buffer with
  | nil => cases buffer <;> rfl
  | cons ll latlons ih =>
    cases buffer with
    | nil => rfl
    | cons x buffer =>
      rw [overwrite, overwrite, h ll List.mem_cons_self, ih fun ll' h' => h ll' (List.mem_cons_of_mem _ h')]

/-- What is written shows on some buffer. -/
theorem eq_of_overwrite {f g : L → Option ℚ} (latlons : List L)
    (h : ∀ buffer : List ℚ, latlons.length ≤ buffer.length →
      overwrite f latlons buffer = overwrite g latlons buffer) :
    ∀ ll ∈ latlons, f ll = g ll := by
  induction latlons with
  | nil => simp
  | cons ll latlons ih =>
    have hhead : ∀ x : ℚ, (f ll).getD x = (g ll).getD x := by
      intro x
      have := h (List.replicate (latlons.length + 1) x) (by simp)
      rw [List.replicate_succ, overwrite, overwrite] at this
      exact (List.cons.inj this).1
    have hll : f ll = g ll := by
      cases hf : f ll with
      | none =>
        cases hg : g ll with
        | none => rfl
        | some v =>
          have := hhead (v + 1)
          simp [hf, hg] at this
      | some w =>
        cases hg : g ll with
        | none =>
          have := hhead (w + 1)
          simp [hf, hg] at this
        | some v =>
          have := hhead 0
          simpa [hf, hg] using this
    intro ll' hmem
    rcases List.mem_cons.1 hmem with rfl | hmem
    · exact hll
    · refine ih (fun buffer hlen => ?_) ll' hmem
      have := h (0 :: buffer) (by simpa using hlen)
      rw [overwrite, overwrite] at this
      exact (List.cons.inj this).2

/-! ## Leaves -/

/-- The value of a model at a location, unless it is missing. -/
def Leaf.value (model : Leaf L S) (ll : L) : Option ℚ :=
  if model.getUnmappedElevation ll ≠ model.missingDataFlag then some (model.getUnmappedElevation ll) else none

/-- What is relied on of a leaf. Its batch methods write at each location by
itself: the value, if there is one, and where a value is missing
`getElevations` may write what `replacement` says. -/
structure Leaf.Regular (inside : S → L → Prop) (replacement : L → Option ℚ) (model : Leaf L S) : Prop where
  intersects_range : ∀ sector, model.intersects sector = 0 ∨ model.intersects sector = 1 ∨
    model.intersects sector = -1
  intersects_iff : ∀ sector, 0 ≤ model.intersects sector ↔ ∃ ll, inside sector ll ∧ model.contains ll = true
  outside : ∀ ll, model.contains ll = false → model.value ll = none ∧ replacement ll = none
  unmapped : ∀ sector latlons targetResolution buffer, (∀ ll ∈ latlons, inside sector ll) →
    latlons.length ≤ buffer.length →
    (model.getUnmappedElevations sector latlons targetResolution buffer).2 = overwrite model.value latlons buffer
  mapped : ∀ sector latlons targetResolution buffer, (∀ ll ∈ latlons, inside sector ll) →
    latlons.length ≤ buffer.length →
    (model.getElevations sector latlons targetResolution buffer).2 =
      overwrite (fun ll => (model.value ll).or (replacement ll)) latlons buffer

/-! ## Trees -/

namespace ElevationModel

variable (inside : S → L → Prop) (replacement : Leaf L S → L → Option ℚ)

/-- Every leaf of a tree is regular. -/
inductive Regular : ElevationModel L S → Prop
  | leaf {model : Leaf L S} (h : model.Regular inside (replacement model)) : Regular (.leaf model)
  | compound {enabled : Bool} {missingDataFlag : ℚ} {elevationModels : List (ElevationModel L S)}
      (h : ∀ em ∈ elevationModels, Regular em) : Regular (.compound enabled missingDataFlag elevationModels)

mutual
/-- Induction over a tree of models. -/
theorem tree_induction {P : ElevationModel L S → Prop} (leaf : ∀ model, P (.leaf model))
    (compound : ∀ enabled missingDataFlag elevationModels, (∀ em ∈ elevationModels, P em) →
      P (.compound enabled missingDataFlag elevationModels)) : ∀ em, P em
  | .leaf model => leaf model
  | .compound enabled missingDataFlag elevationModels =>
    compound enabled missingDataFlag elevationModels (tree_induction_list leaf compound elevationModels)

theorem tree_induction_list {P : ElevationModel L S → Prop} (leaf : ∀ model, P (.leaf model))
    (compound : ∀ enabled missingDataFlag elevationModels, (∀ em ∈ elevationModels, P em) →
      P (.compound enabled missingDataFlag elevationModels)) : ∀ ems : List (ElevationModel L S), ∀ em ∈ ems, P em
  | [] => List.forall_mem_nil _
  | em :: rest =>
    List.forall_mem_cons.2 ⟨tree_induction leaf compound em, tree_induction_list leaf compound rest⟩
end

/-- A leaf of a tree: whether it is the only child of its model, and the
signals of the compound models it lies in. -/
structure Source (L S : Type) where
  model : Leaf L S
  lone : Bool
  signals : List ℚ

mutual
/-- The leaves that are asked, from the lowest resolution to the highest. -/
def sources (lone : Bool) (signals : List ℚ) : ElevationModel L S → List (Source L S)
  | .leaf model => [⟨model, lone, signals⟩]
  | .compound _ missingDataFlag elevationModels =>
    sourcesIn (elevationModels.length = 1) (missingDataFlag :: signals) elevationModels

def sourcesIn (lone : Bool) (signals : List ℚ) : List (ElevationModel L S) → List (Source L S)
  | [] => []
  | em :: rest => (if em.isEnabled then sources lone signals em else []) ++ sourcesIn lone signals rest
end

/-- What the batch path writes for a leaf. -/
def Source.written (src : Source L S) (ll : L) : Option ℚ :=
  if src.lone then (src.model.value ll).or (replacement src.model ll) else src.model.value ll

/-- The last of some leaves that writes at a location, and what it writes. -/
def lastWrite (srcs : List (Source L S)) (ll : L) : Option (Source L S × ℚ) :=
  (srcs.filterMap fun src => (src.written replacement ll).map fun w => (src, w)).getLast?

mutual
/-- What the search finds: a compound model takes its own signal for missing. -/
def supplied (ll : L) : ElevationModel L S → Option ℚ
  | .leaf model => model.value ll
  | .compound _ missingDataFlag elevationModels =>
    (suppliedIn ll elevationModels).filter fun v => v ≠ missingDataFlag

def suppliedIn (ll : L) : List (ElevationModel L S) → Option ℚ
  | [] => none
  | em :: rest => (suppliedIn ll rest).or (if em.isEnabled then supplied ll em else none)
end

/-! ## The search -/

/-- The elevation of a tree at a location, unless it is missing. -/
def value (ll : L) (em : ElevationModel L S) : Option ℚ :=
  if em.getUnmappedElevation ll ≠ em.getMissingDataSignal then some (em.getUnmappedElevation ll) else none

variable {inside replacement}

theorem containsAny_false {ll : L} {ems : List (ElevationModel L S)} (h : containsAny ll ems = false) :
    ∀ em ∈ ems, em.isEnabled = true → em.contains ll = false := by
  induction ems with
  | nil => simp
  | cons em rest ih =>
    intro em' hmem hen
    rw [containsAny] at h
    rcases List.mem_cons.1 hmem with rfl | hmem
    · rw [if_neg (by simp [hen]), Bool.or_eq_false_iff] at h
      exact h.1
    · refine ih ?_ em' hmem hen
      split at h
      · exact h
      · exact (Bool.or_eq_false_iff.1 h).2

theorem suppliedIn_none {ll : L} {ems : List (ElevationModel L S)}
    (h : ∀ em ∈ ems, em.isEnabled = true → supplied ll em = none) : suppliedIn ll ems = none := by
  induction ems with
  | nil => rfl
  | cons em rest ih =>
    rw [suppliedIn, ih fun em' hmem => h em' (List.mem_cons_of_mem _ hmem), Option.none_or]
    split
    · rename_i hen
      exact h em List.mem_cons_self hen
    · rfl

/-- Outside of its coverage a tree supplies nothing. -/
theorem supplied_outside (ll : L) (em : ElevationModel L S) :
    em.Regular inside replacement → em.contains ll = false → supplied ll em = none := by
  induction em using tree_induction with
  | leaf model =>
    rintro ⟨h⟩ hc
    exact (h.outside ll hc).1
  | compound enabled missingDataFlag ems ih =>
    intro hr hc
    cases hr with | compound h =>
    rw [supplied, suppliedIn_none fun em hmem hen => ih em hmem (h em hmem) (containsAny_false hc em hmem hen)]
    rfl

/-- The point path finds what the tree supplies. -/
theorem value_eq_supplied (ll : L) (em : ElevationModel L S) :
    em.Regular inside replacement → em.value ll = supplied ll em := by
  induction em using tree_induction with
  | leaf model => exact fun _ => rfl
  | compound enabled missingDataFlag ems ih =>
    intro hr
    cases hr with | compound h =>
    have hbest : ∀ ems' : List (ElevationModel L S), ems' ⊆ ems → bestElevation ll ems' = suppliedIn ll ems' := by
      intro ems'
      induction ems' with
      | nil => exact fun _ => rfl
      | cons em rest ihr =>
        intro hsub
        have hmem := hsub List.mem_cons_self
        rw [bestElevation, suppliedIn, ihr fun em' h' => hsub (List.mem_cons_of_mem _ h')]
        congr 1
        by_cases hen : em.isEnabled = true
        · rw [if_neg (by simp [hen]), if_pos hen, ← ih em hmem (h em hmem)]
          by_cases hc : em.contains ll = true
          · rw [if_neg (by simp [hc])]
            rfl
          · rw [if_pos hc, ih em hmem (h em hmem), supplied_outside ll em (h em hmem) (by simpa using hc)]
        · rw [if_pos (by simpa using hen), if_neg hen]
    rw [value, supplied, getUnmappedElevation, getMissingDataSignal, hbest ems (List.Subset.refl _)]
    cases suppliedIn ll ems with
    | none => simp
    | some v => simp [Option.filter]

/-! ## The batch -/

theorem lastWrite_append (srcs srcs' : List (Source L S)) (ll : L) :
    lastWrite replacement (srcs ++ srcs') ll = (lastWrite replacement srcs' ll).or
      (lastWrite replacement srcs ll) := by
  rw [lastWrite, List.filterMap_append, List.getLast?_append]
  rfl

/-- What is written at a location. -/
def written (replacement : Leaf L S → L → Option ℚ) (srcs : List (Source L S)) (ll : L) : Option ℚ :=
  (lastWrite replacement srcs ll).map Prod.snd

theorem written_append (srcs srcs' : List (Source L S)) (ll : L) :
    written replacement (srcs ++ srcs') ll = (written replacement srcs' ll).or (written replacement srcs ll) := by
  rw [written, written, written, lastWrite_append]
  cases lastWrite replacement srcs' ll <;> rfl

theorem written_singleton (src : Source L S) (ll : L) : written replacement [src] ll =
    src.written replacement ll := by
  rw [written, lastWrite, List.filterMap_cons, List.filterMap_nil]
  cases src.written replacement ll <;> rfl

theorem intersects_range (sector : S) (em : ElevationModel L S) : em.Regular inside replacement →
    em.intersects sector = 0 ∨ em.intersects sector = 1 ∨ em.intersects sector = -1 := by
  have hany : ∀ (ems : List (ElevationModel L S)) b,
      intersectsAny sector b ems = 0 ∨ intersectsAny sector b ems = 1 ∨ intersectsAny sector b ems = -1 := by
    intro ems
    induction ems with
    | nil => intro b; cases b <;> simp [intersectsAny]
    | cons em rest ih =>
      intro b
      rw [intersectsAny]
      split
      · exact ih b
      · simp only
        split
        · exact Or.inl rfl
        · exact ih _
  cases em with
  | leaf model =>
    rintro ⟨h⟩
    exact h.intersects_range sector
  | compound enabled missingDataFlag ems => exact fun _ => hany ems false

/-- A compound model that does not intersect has no child that does. -/
theorem intersectsAny_neg {sector : S} {ems : List (ElevationModel L S)}
    (h : ∀ em ∈ ems, em.Regular inside replacement)
    {b : Bool} (hneg : intersectsAny sector b ems < 0) :
    b = false ∧ ∀ em ∈ ems, em.isEnabled = true → em.intersects sector < 0 := by
  induction ems generalizing b with
  | nil =>
    refine ⟨?_, by simp⟩
    by_contra hb
    rw [intersectsAny, if_pos (by simpa using hb)] at hneg
    omega
  | cons em rest ih =>
    have hrest : ∀ em' ∈ rest, em'.Regular inside replacement := fun em' h' => h em' (List.mem_cons_of_mem _ h')
    rw [intersectsAny] at hneg
    by_cases hen : em.isEnabled = true
    · rw [if_neg (by simp [hen])] at hneg
      simp only at hneg
      split at hneg
      · omega
      · rename_i hne
        obtain ⟨hb, hall⟩ := ih hrest hneg
        rw [Bool.or_eq_false_iff, decide_eq_false_iff_not] at hb
        refine ⟨hb.1, fun em' hmem hen' => ?_⟩
        rcases List.mem_cons.1 hmem with rfl | hmem
        · have := intersects_range sector em' (h em' List.mem_cons_self)
          have := hb.2
          omega
        · exact hall em' hmem hen'
    · rw [if_pos (by simpa using hen)] at hneg
      obtain ⟨hb, hall⟩ := ih hrest hneg
      refine ⟨hb, fun em' hmem hen' => ?_⟩
      rcases List.mem_cons.1 hmem with rfl | hmem
      · exact absurd hen' hen
      · exact hall em' hmem hen'

theorem written_sourcesIn_none {ll : L} {ems : List (ElevationModel L S)} {lone : Bool} {signals : List ℚ}
    (h : ∀ em ∈ ems, em.isEnabled = true → written replacement (sources lone signals em) ll = none) :
    written replacement (sourcesIn lone signals ems) ll = none := by
  induction ems with
  | nil => rfl
  | cons em rest ih =>
    rw [sourcesIn, written_append, ih fun em' h' => h em' (List.mem_cons_of_mem _ h'), Option.none_or]
    split
    · rename_i hen
      exact h em List.mem_cons_self hen
    · rfl

/-- A tree that does not intersect a sector writes nothing at its locations. -/
theorem written_not_intersecting {sector : S} {ll : L} (hin : inside sector ll) (em : ElevationModel L S) :
    ∀ (lone : Bool) (signals : List ℚ), em.Regular inside replacement → em.intersects sector < 0 →
      written replacement (sources lone signals em) ll = none := by
  induction em using tree_induction with
  | leaf model =>
    rintro lone signals ⟨h⟩ hneg
    have hc : model.contains ll = false := by
      by_contra hc
      have := (h.intersects_iff sector).2 ⟨ll, hin, by simpa using hc⟩
      rw [intersects] at hneg
      omega
    obtain ⟨hv, hr⟩ := h.outside ll hc
    rw [sources, written_singleton, Source.written]
    split
    · show (model.value ll).or (replacement model ll) = none
      rw [hv, hr]
      rfl
    · exact hv
  | compound enabled missingDataFlag ems ih =>
    intro lone signals hr hneg
    cases hr with | compound h =>
    obtain ⟨-, hall⟩ := intersectsAny_neg h hneg
    exact written_sourcesIn_none fun em hmem hen => ih em hmem _ _ (h em hmem) (hall em hmem hen)

/-- One child of a compound model. -/
def askChild (sector : S) (latlons : List L) (targetResolution : ℚ) (buffer : List ℚ) (lone : Bool)
    (em : ElevationModel L S) : Option (ℚ × List ℚ) :=
  if lone then em.getElevations sector latlons targetResolution buffer
  else em.getUnmappedElevations sector latlons targetResolution buffer

/-- The batch path writes what the leaves write, the last of them counting. -/
theorem askChild_eq {sector : S} {latlons : List L} (hin : ∀ ll ∈ latlons, inside sector ll) (targetResolution : ℚ)
    (em : ElevationModel L S) : ∀ (lone : Bool) (signals : List ℚ) (buffer : List ℚ), em.Regular inside replacement →
      latlons.length ≤ buffer.length →
      ∃ r, askChild sector latlons targetResolution buffer lone em =
        some (r, overwrite (written replacement (sources lone signals em)) latlons buffer) := by
  induction em using tree_induction with
  | leaf model =>
    rintro lone signals buffer ⟨h⟩ hlen
    have hsrc : ∀ ll, written replacement (sources lone signals (.leaf model)) ll =
        if lone then (model.value ll).or (replacement model ll) else model.value ll := by
      intro ll
      rw [sources, written_singleton, Source.written]
    cases lone with
    | true =>
      refine ⟨(model.getElevations sector latlons targetResolution buffer).1, ?_⟩
      rw [overwrite_congr (g := fun ll => (model.value ll).or (replacement model ll)) fun ll _ => by simp [hsrc],
        ← h.mapped sector latlons targetResolution buffer hin hlen]
      rfl
    | false =>
      refine ⟨(model.getUnmappedElevations sector latlons targetResolution buffer).1, ?_⟩
      rw [overwrite_congr (g := model.value) fun ll _ => by simp [hsrc],
        ← h.unmapped sector latlons targetResolution buffer hin hlen]
      rfl
  | compound enabled missingDataFlag ems ih =>
    intro lone signals buffer hr hlen
    cases hr with | compound h =>
    have hloop : ∀ (rest : List (ElevationModel L S)) (r : ℚ) (buffer : List ℚ), rest ⊆ ems →
        latlons.length ≤ buffer.length →
        ∃ r', doGetElevations sector latlons targetResolution false ems.length (r, buffer) rest =
          some (r', overwrite (written replacement (sourcesIn (ems.length = 1) (missingDataFlag :: signals) rest))
            latlons buffer) := by
      intro rest
      induction rest with
      | nil =>
        intro r buffer _ _
        have hnil : overwrite (written replacement (sourcesIn (ems.length = 1) (missingDataFlag :: signals) []))
            latlons buffer = buffer := overwrite_none (fun _ _ => rfl) buffer
        exact ⟨r, by rw [doGetElevations, hnil]⟩
      | cons em rest ihr =>
        intro r buffer hsub hlen
        have hmem := hsub List.mem_cons_self
        have hsub' : rest ⊆ ems := fun em' h' => hsub (List.mem_cons_of_mem _ h')
        -- a child that is not asked
        have hskip : (em.isEnabled = true → ∀ ll ∈ latlons,
            written replacement (sources (ems.length = 1) (missingDataFlag :: signals) em) ll = none) →
            ∃ r', doGetElevations sector latlons targetResolution false ems.length (r, buffer) rest =
              some (r', overwrite (written replacement
                (sourcesIn (ems.length = 1) (missingDataFlag :: signals) (em :: rest))) latlons buffer) := by
          intro hnone
          obtain ⟨r', hr'⟩ := ihr r buffer hsub' hlen
          refine ⟨r', hr'.trans ?_⟩
          rw [overwrite_congr fun ll hll => ?_]
          rw [sourcesIn, written_append]
          by_cases hen : em.isEnabled = true
          · rw [if_pos hen, hnone hen ll hll, Option.or_none]
          · rw [if_neg hen]
            exact (Option.or_none).symm
        rw [doGetElevations]
        by_cases hen : em.isEnabled = true
        · rw [if_neg (by simp [hen])]
          by_cases hneg : em.intersects sector < 0
          · rw [if_pos hneg]
            exact hskip fun _ ll hll => written_not_intersecting (hin ll hll) em _ _ (h em hmem) hneg
          · rw [if_neg hneg]
            obtain ⟨q, hq⟩ := ih em hmem (ems.length = 1) (missingDataFlag :: signals) buffer (h em hmem) hlen
            obtain ⟨r', hr'⟩ := ihr (if q < r ∨ r = 0 then q else r)
              (overwrite (written replacement (sources (ems.length = 1)
                (missingDataFlag :: signals) em)) latlons buffer)
              hsub' (by rw [length_overwrite]; exact hlen)
            refine ⟨r', ?_⟩
            rw [askChild] at hq
            rw [Bool.false_or, hq, Option.bind_some, hr', overwrite_overwrite]
            congr 2
            refine overwrite_congr (fun ll _ => ?_) buffer
            rw [sourcesIn, if_pos hen, written_append]
        · rw [if_pos (by simpa using hen)]
          exact hskip fun hen' => absurd hen' hen
    obtain ⟨r, hr⟩ := hloop ems 0 buffer (List.Subset.refl _) hlen
    refine ⟨r, ?_⟩
    rw [sources, ← hr, askChild, getElevations, getUnmappedElevations, ite_self, if_neg (by omega)]

/-! ## Where the two agree -/

/-- The last leaf that writes at a location supplies an elevation there, and no
compound model around it takes that for missing. -/
def Clean (replacement : Leaf L S → L → Option ℚ) (em : ElevationModel L S) (ll : L) : Prop :=
  ∀ src w, lastWrite replacement (sources false [] em) ll = some (src, w) →
    ∃ v, src.model.value ll = some v ∧ v ∉ src.signals

/-- The value that is written last is one that the search finds, in a model of
lower resolution. -/
def Coincides (replacement : Leaf L S → L → Option ℚ) (em : ElevationModel L S) (ll : L) : Prop :=
  ∃ src w, lastWrite replacement (sources false [] em) ll = some (src, w) ∧ supplied ll em = some w

/-- The batch path fills a buffer as the point path answers: it writes the
elevation where there is one and leaves the buffer alone where it is missing. -/
def Fills (em : ElevationModel L S) (sector : S) (latlons : List L) : Prop :=
  ∀ targetResolution buffer, latlons.length ≤ buffer.length →
    ∃ r, em.getUnmappedElevations sector latlons targetResolution buffer =
      some (r, overwrite (fun ll => em.value ll) latlons buffer)

theorem lastWrite_none {srcs : List (Source L S)} {ll : L} :
    lastWrite replacement srcs ll = none ↔ ∀ src ∈ srcs, src.written replacement ll = none := by
  rw [lastWrite, List.getLast?_eq_none_iff, List.filterMap_eq_nil_iff]
  simp

theorem written_of_value {src : Source L S} {ll : L} {v : ℚ} (h : src.model.value ll = some v) :
    src.written replacement ll = some v := by
  rw [Source.written, h]
  split <;> rfl

/-- The elevation that a leaf supplies is what is written for it. -/
theorem lastWrite_some {srcs : List (Source L S)} {ll : L} {src : Source L S} {w : ℚ}
    (h : lastWrite replacement srcs ll = some (src, w)) : src ∈ srcs ∧ src.written replacement ll = some w := by
  have hmem := List.mem_of_getLast? h
  obtain ⟨src', hsrc, heq⟩ := List.mem_filterMap.1 hmem
  obtain ⟨w', hw, heq⟩ := Option.map_eq_some_iff.1 heq
  obtain ⟨rfl, rfl⟩ := Prod.mk.inj heq
  exact ⟨hsrc, hw⟩

/-- A source lies in the compound models on the way to it. -/
theorem signals_subset (em : ElevationModel L S) :
    ∀ (lone : Bool) (signals : List ℚ), ∀ src ∈ sources lone signals em, signals ⊆ src.signals := by
  induction em using tree_induction with
  | leaf model =>
    intro lone signals src hsrc
    rw [sources, List.mem_singleton] at hsrc
    rw [hsrc]
    exact List.Subset.refl _
  | compound enabled missingDataFlag ems ih =>
    intro lone signals src hsrc
    have hlist : ∀ rest : List (ElevationModel L S), rest ⊆ ems →
        src ∈ sourcesIn (ems.length = 1) (missingDataFlag :: signals) rest →
          missingDataFlag :: signals ⊆ src.signals := by
      intro rest
      induction rest with
      | nil => intro _ h; cases h
      | cons em rest ihr =>
        intro hsub h
        rw [sourcesIn, List.mem_append] at h
        rcases h with h | h
        · split at h
          · exact ih em (hsub List.mem_cons_self) _ _ src h
          · cases h
        · exact ihr (fun em' h' => hsub (List.mem_cons_of_mem _ h')) h
    exact fun signal hmem => hlist ems (List.Subset.refl _) hsrc (List.mem_cons_of_mem _ hmem)

theorem suppliedIn_of_none {ll : L} {ems : List (ElevationModel L S)} {lone : Bool} {signals : List ℚ}
    (ih : ∀ em ∈ ems, lastWrite replacement (sources lone signals em) ll = none → supplied ll em = none)
    (h : lastWrite replacement (sourcesIn lone signals ems) ll = none) : suppliedIn ll ems = none := by
  induction ems with
  | nil => rfl
  | cons em rest ihr =>
    rw [sourcesIn, lastWrite_append, Option.or_eq_none_iff] at h
    obtain ⟨hrest, hem⟩ := h
    rw [suppliedIn, ihr (fun em' h' => ih em' (List.mem_cons_of_mem _ h')) hrest, Option.none_or]
    split
    · rename_i hen
      rw [if_pos hen] at hem
      exact ih em List.mem_cons_self hem
    · rfl

/-- What is supplied comes from a leaf that writes. -/
theorem supplied_none (ll : L) (em : ElevationModel L S) :
    ∀ (lone : Bool) (signals : List ℚ), lastWrite replacement (sources lone signals em) ll = none →
      supplied ll em = none := by
  induction em using tree_induction with
  | leaf model =>
    intro lone signals h
    have hw := lastWrite_none.1 h ⟨model, lone, signals⟩ (List.mem_singleton_self _)
    rw [supplied]
    by_contra hv
    obtain ⟨v, hv⟩ := Option.ne_none_iff_exists'.1 hv
    rw [written_of_value hv] at hw
    cases hw
  | compound enabled missingDataFlag ems ih =>
    intro lone signals h
    rw [supplied, suppliedIn_of_none (fun em hmem => ih em hmem _ _) h]
    rfl

/-- Where the last leaf that writes has an elevation which no signal hides, that
is what the tree supplies. -/
theorem supplied_of_clean (ll : L) {v : ℚ} (em : ElevationModel L S) :
    ∀ (lone : Bool) (signals : List ℚ) (src : Source L S) (w : ℚ),
      lastWrite replacement (sources lone signals em) ll = some (src, w) → src.model.value ll = some v →
      v ∉ src.signals → supplied ll em = some v := by
  induction em using tree_induction with
  | leaf model =>
    intro lone signals src w h hv hnot
    obtain ⟨hmem, -⟩ := lastWrite_some h
    rw [sources, List.mem_singleton] at hmem
    rw [hmem] at hv
    exact hv
  | compound enabled missingDataFlag ems ih =>
    intro lone signals src w h hv hnot
    have hlist : ∀ rest : List (ElevationModel L S), rest ⊆ ems →
        lastWrite replacement (sourcesIn (ems.length = 1) (missingDataFlag :: signals) rest) ll = some (src, w) →
        suppliedIn ll rest = some v ∧ missingDataFlag ∈ src.signals := by
      intro rest
      induction rest with
      | nil => intro _ h; cases h
      | cons em rest ihr =>
        intro hsub h
        have hsub' : rest ⊆ ems := fun em' h' => hsub (List.mem_cons_of_mem _ h')
        rw [sourcesIn, lastWrite_append] at h
        rw [suppliedIn]
        cases hr : lastWrite replacement (sourcesIn (ems.length = 1) (missingDataFlag :: signals) rest) ll with
        | some p =>
          rw [hr, Option.some_or] at h
          obtain ⟨hs, hm⟩ := ihr hsub' (hr.trans h)
          exact ⟨by rw [hs, Option.some_or], hm⟩
        | none =>
          rw [hr, Option.none_or] at h
          rw [suppliedIn_of_none (fun em' _ => supplied_none ll em' _ _) hr, Option.none_or]
          split at h
          · rename_i hen
            rw [if_pos hen]
            refine ⟨ih em (hsub List.mem_cons_self) _ _ src w h hv hnot, ?_⟩
            exact signals_subset em _ _ src (lastWrite_some h).1 List.mem_cons_self
          · cases h
    obtain ⟨hs, hm⟩ := hlist ems (List.Subset.refl _) h
    rw [supplied, hs, Option.filter_some, if_pos]
    rw [decide_eq_true_eq]
    rintro rfl
    exact hnot hm

theorem written_eq_supplied_iff (ll : L) (em : ElevationModel L S) :
    written replacement (sources false [] em) ll = supplied ll em ↔
      Clean replacement em ll ∨ Coincides replacement em ll := by
  rw [written]
  cases h : lastWrite replacement (sources false [] em) ll with
  | none =>
    rw [supplied_none ll em false [] h]
    refine ⟨fun _ => Or.inl fun src w hw => ?_, fun _ => rfl⟩
    rw [h] at hw
    cases hw
  | some p =>
    obtain ⟨src, w⟩ := p
    constructor
    · exact fun heq => Or.inr ⟨src, w, h, heq.symm⟩
    · rintro (hclean | ⟨src', w', hw, hs⟩)
      · obtain ⟨v, hv, hnot⟩ := hclean src w h
        have hw := (lastWrite_some h).2
        rw [written_of_value hv] at hw
        rw [supplied_of_clean ll em false [] src w h hv hnot, Option.map_some, ← hw]
      · rw [h] at hw
        rw [hs]
        exact congrArg (Option.map Prod.snd) hw

/-- A model with one elevation everywhere, whose missing data replacement is 0. -/
def uniform (missingDataFlag elevation : ℚ) : Leaf Unit Unit where
  enabled := true
  missingDataFlag := missingDataFlag
  intersects := fun _ => 0
  contains := fun _ => true
  getUnmappedElevation := fun _ => elevation
  getElevations := fun _ latlons _ buffer =>
    (1, overwrite (fun _ => some (if elevation ≠ missingDataFlag then elevation else 0)) latlons buffer)
  getUnmappedElevations := fun _ latlons _ buffer =>
    (1, overwrite (fun _ => if elevation ≠ missingDataFlag then some elevation else none) latlons buffer)

theorem uniform_regular (missingDataFlag elevation : ℚ) :
    Regular (fun _ _ => True) (fun _ _ => some 0) (.leaf (uniform missingDataFlag elevation)) := by
  refine .leaf ⟨fun _ => Or.inl rfl, fun _ => ⟨fun _ => ⟨(), trivial, rfl⟩, fun _ => Int.le_refl 0⟩, ?_, ?_, ?_⟩
  · intro ll h
    cases h
  · intro _ _ _ _ _ _
    rfl
  · intro _ latlons _ buffer _ _
    refine overwrite_congr (fun ll _ => ?_) buffer
    rw [Leaf.value]
    show some (if elevation ≠ missingDataFlag then elevation else 0) =
      (if elevation ≠ missingDataFlag then some elevation else none).or (some 0)
    split <;> rfl

/-- A model of elevation 100, and above it a compound model whose only child
has no elevation. -/
def loneChild : ElevationModel Unit Unit :=
  .compound true (-9999) [.leaf (uniform (-9999) 100), .compound true (-9999) [.leaf (uniform (-9999) (-9999))]]

theorem loneChild_regular : loneChild.Regular (fun _ _ => True) (fun _ _ => some 0) := by
  refine .compound fun em hem => ?_
  rcases List.mem_cons.1 hem with rfl | hem
  · exact uniform_regular _ _
  · rw [List.mem_singleton.1 hem]
    refine .compound fun em' hem' => ?_
    rw [List.mem_singleton.1 hem']
    exact uniform_regular _ _

end ElevationModel

end WorldWind.Elevations
