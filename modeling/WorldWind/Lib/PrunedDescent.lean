import Mathlib
/-!
# Descents that discard and choose

A descent looks at a node, discards it, takes it, or goes on with its children,
down to a depth. Nodes stand for regions of a space. If the children of a node
cover it and share at most points on their edges, then the ends of a descent
cover its root (`ends_cover`), lie in it (`ends_inside`) and are as far apart
(`ends_apart`).
-/

namespace WorldWind.Lib.PrunedDescent

inductive Choice
  | discard
  | take
  | descend
  deriving DecidableEq

variable {B X : Type*}

/-- Where a descent ends: the nodes, and whether they are taken. At depth 0 it
takes what it would go on from. -/
def ends (choice : B → Choice) (children : B → List B) : Nat → B → List (B × Bool)
  | 0, b => [(b, choice b ≠ .discard)]
  | n + 1, b =>
    match choice b with
    | .discard => [(b, false)]
    | .take => [(b, true)]
    | .descend => (children b).flatMap (ends choice children n)

/-- The nodes that are taken. -/
def taken (choice : B → Choice) (children : B → List B) (n : Nat) (b : B) : List B :=
  ((ends choice children n b).filter (·.2)).map Prod.fst

theorem taken_zero (choice : B → Choice) (children : B → List B) (b : B) :
    taken choice children 0 b = if choice b = .discard then [] else [b] := by
  by_cases h : choice b = .discard <;> simp [taken, ends, h]

theorem taken_discard {choice : B → Choice} {b : B} (h : choice b = .discard) (children : B → List B) (n : Nat) :
    taken choice children n b = [] := by
  cases n <;> simp [taken, ends, h]

theorem taken_take {choice : B → Choice} {b : B} (h : choice b = .take) (children : B → List B) (n : Nat) :
    taken choice children n b = [b] := by
  cases n <;> simp [taken, ends, h]

theorem taken_descend {choice : B → Choice} {b : B} (h : choice b = .descend) (children : B → List B) (n : Nat) :
    taken choice children (n + 1) b = (children b).flatMap (taken choice children n) := by
  simp only [taken, ends, h, List.filter_flatMap, List.map_flatMap]
  rfl

theorem mem_taken {choice : B → Choice} {children : B → List B} {n : Nat} {b c : B} :
    c ∈ taken choice children n b ↔ (c, true) ∈ ends choice children n b := by
  unfold taken
  constructor
  · intro h
    obtain ⟨⟨d, v⟩, he, rfl⟩ := List.mem_map.1 h
    rw [List.mem_filter] at he
    obtain rfl : v = true := he.2
    exact he.1
  · exact fun h => List.mem_map.2 ⟨(c, true), List.mem_filter.2 ⟨h, rfl⟩, rfl⟩

/-- Two nodes share at most points that are on the edges of both. -/
def Apart (region inner : B → Set X) (c d : B) : Prop := Disjoint (inner c) (region d) ∧ Disjoint (region c) (inner d)

/-- Regions with inner parts, and how the children lie in a node. -/
structure Splits (region inner : B → Set X) (children : B → List B) : Prop where
  cover : ∀ b, ∀ x ∈ region b, ∃ c ∈ children b, x ∈ region c
  inside : ∀ b, ∀ c ∈ children b, region c ⊆ region b ∧ inner c ⊆ inner b
  apart : ∀ b, (children b).Pairwise (Apart region inner)

/-- Nodes that stand for others split as these do. -/
theorem Splits.comap {B' : Type*} {region inner : B → Set X} {children : B → List B}
    (h : Splits region inner children) {f : B' → B} {children' : B' → List B'}
    (hf : ∀ b, (children' b).map f = children (f b)) :
    Splits (fun b => region (f b)) (fun b => inner (f b)) children' where
  cover b x hx := by
    obtain ⟨c, hc, hxc⟩ := h.cover (f b) x hx
    rw [← hf] at hc
    obtain ⟨c', hc', rfl⟩ := List.mem_map.1 hc
    exact ⟨c', hc', hxc⟩
  inside b c hc := by
    apply h.inside
    rw [← hf]
    exact List.mem_map_of_mem hc
  apart b := by
    have hpairs := h.apart (f b)
    rw [← hf, List.pairwise_map] at hpairs
    exact hpairs

variable {choice : B → Choice} {children : B → List B} {region inner : B → Set X}

theorem ends_inside (h : Splits region inner children) {n : Nat} :
    ∀ {b : B}, ∀ e ∈ ends choice children n b, region e.1 ⊆ region b ∧ inner e.1 ⊆ inner b := by
  induction n with
  | zero =>
    intro b e he
    obtain rfl := List.mem_singleton.1 he
    exact ⟨subset_rfl, subset_rfl⟩
  | succ n ih =>
    intro b e he
    unfold ends at he
    split at he
    · obtain rfl := List.mem_singleton.1 he
      exact ⟨subset_rfl, subset_rfl⟩
    · obtain rfl := List.mem_singleton.1 he
      exact ⟨subset_rfl, subset_rfl⟩
    · obtain ⟨c, hc, he⟩ := List.mem_flatMap.1 he
      exact ⟨(ih e he).1.trans (h.inside b c hc).1, (ih e he).2.trans (h.inside b c hc).2⟩

theorem ends_cover (h : Splits region inner children) {n : Nat} :
    ∀ {b : B}, ∀ x ∈ region b, ∃ e ∈ ends choice children n b, x ∈ region e.1 := by
  induction n with
  | zero => exact fun {b} x hx => ⟨_, List.mem_singleton_self _, hx⟩
  | succ n ih =>
    intro b x hx
    unfold ends
    split
    · exact ⟨_, List.mem_singleton_self _, hx⟩
    · exact ⟨_, List.mem_singleton_self _, hx⟩
    · obtain ⟨c, hc, hxc⟩ := h.cover b x hx
      obtain ⟨e, he, hxe⟩ := ih x hxc
      exact ⟨e, List.mem_flatMap.2 ⟨c, hc, he⟩, hxe⟩

/-- Lists of nodes that lie in nodes apart. -/
theorem pairwise_flatMap {B C : Type*} {region inner : B → Set X} {region' inner' : C → Set X} {f : B → List C}
    {l : List B} (hl : l.Pairwise (Apart region inner))
    (hf : ∀ b ∈ l, ∀ c ∈ f b, region' c ⊆ region b ∧ inner' c ⊆ inner b)
    (hp : ∀ b ∈ l, (f b).Pairwise (Apart region' inner')) : (l.flatMap f).Pairwise (Apart region' inner') := by
  induction l with
  | nil => exact List.Pairwise.nil
  | cons b l ih =>
    obtain ⟨hb, hl⟩ := List.pairwise_cons.1 hl
    rw [List.flatMap_cons, List.pairwise_append]
    refine ⟨hp b List.mem_cons_self, ih hl (fun c hc => hf c (List.mem_cons_of_mem _ hc)) fun c hc =>
      hp c (List.mem_cons_of_mem _ hc), fun c hc d hd => ?_⟩
    obtain ⟨b', hb', hd⟩ := List.mem_flatMap.1 hd
    obtain ⟨hregion, hinner⟩ := hf b List.mem_cons_self c hc
    obtain ⟨hregion', hinner'⟩ := hf b' (List.mem_cons_of_mem _ hb') d hd
    exact ⟨(hb b' hb').1.mono hinner hregion', (hb b' hb').2.mono hregion hinner'⟩

theorem ends_apart (h : Splits region inner children) {n : Nat} :
    ∀ {b : B}, (ends choice children n b).Pairwise (Apart (fun e => region e.1) fun e => inner e.1) := by
  induction n with
  | zero => exact List.pairwise_singleton _ _
  | succ n ih =>
    intro b
    unfold ends
    split
    · exact List.pairwise_singleton _ _
    · exact List.pairwise_singleton _ _
    · exact pairwise_flatMap (h.apart b) (fun c _ e he => ends_inside h e he) fun c _ => ih

/-! ## From several roots -/

/-- The ends of the descents from some roots. -/
def endsFrom (choice : B → Choice) (children : B → List B) (n : Nat) (roots : List B) : List (B × Bool) :=
  roots.flatMap (ends choice children n)

theorem endsFrom_cover (h : Splits region inner children) {n : Nat} {roots : List B} {x : X}
    (hx : ∃ b ∈ roots, x ∈ region b) : ∃ e ∈ endsFrom choice children n roots, x ∈ region e.1 := by
  obtain ⟨b, hb, hx⟩ := hx
  have hcover : ∃ e ∈ ends choice children n b, x ∈ region e.1 := ends_cover h x hx
  obtain ⟨e, he, hxe⟩ := hcover
  exact ⟨e, List.mem_flatMap.2 ⟨b, hb, he⟩, hxe⟩

theorem endsFrom_apart (h : Splits region inner children) {n : Nat} {roots : List B}
    (hroots : roots.Pairwise (Apart region inner)) :
    (endsFrom choice children n roots).Pairwise (Apart (fun e => region e.1) fun e => inner e.1) :=
  pairwise_flatMap hroots (fun _ _ e he => ends_inside h e he) fun _ _ => ends_apart h

theorem taken_apart (h : Splits region inner children) {n : Nat} {roots : List B}
    (hroots : roots.Pairwise (Apart region inner)) :
    (roots.flatMap (taken choice children n)).Pairwise (Apart region inner) := by
  have hpairs : (endsFrom choice children n roots).Pairwise (Apart (fun e => region e.1) fun e => inner e.1) :=
    endsFrom_apart h hroots
  have heq : roots.flatMap (taken choice children n) =
      ((endsFrom choice children n roots).filter (·.2)).map Prod.fst := by
    unfold endsFrom taken
    rw [List.filter_flatMap, List.map_flatMap]
  rw [heq, List.pairwise_map]
  exact hpairs.filter _

/-! ## What is known of an end -/

/-- What a descent keeps of its nodes on the way, and knows where it ends. -/
theorem ends_induction {P : Nat → B → Prop} (hstep : ∀ n b, choice b = .descend → P (n + 1) b →
    ∀ c ∈ children b, P n c) {n : Nat} :
    ∀ {b : B}, P n b → ∀ e ∈ ends choice children n b, ∃ m, P m e.1 ∧
      ((e.2 = false ∧ choice e.1 = .discard) ∨
        (e.2 = true ∧ choice e.1 ≠ .discard ∧ (m = 0 ∨ choice e.1 = .take))) := by
  induction n with
  | zero =>
    intro b hb e he
    obtain rfl := List.mem_singleton.1 he
    refine ⟨0, hb, ?_⟩
    by_cases hdiscard : choice b = .discard
    · exact Or.inl ⟨by simp [hdiscard], hdiscard⟩
    · exact Or.inr ⟨by simp [hdiscard], hdiscard, Or.inl rfl⟩
  | succ n ih =>
    intro b hb e he
    unfold ends at he
    split at he
    · rename_i hchoice
      obtain rfl := List.mem_singleton.1 he
      exact ⟨n + 1, hb, Or.inl ⟨rfl, hchoice⟩⟩
    · rename_i hchoice
      obtain rfl := List.mem_singleton.1 he
      exact ⟨n + 1, hb, Or.inr ⟨rfl, by simp [hchoice], Or.inr hchoice⟩⟩
    · rename_i hchoice
      obtain ⟨c, hc, he⟩ := List.mem_flatMap.1 he
      exact ih (hstep n b hchoice hb c hc) e he

end WorldWind.Lib.PrunedDescent
