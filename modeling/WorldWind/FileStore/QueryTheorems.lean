import WorldWind.FileStore.CachePath
/-!
# The private parameters of a query

The parameters of a query are its pieces between `&` that are not empty; a
parameter is private if its whole key is `CONNECTID`. The text `connectid=` is
removed wherever it stands, so a parameter is only safe if it begins with it or
does not contain it, and is not the key alone.
-/

namespace WorldWind.FileStore

open Lib.JavaInt Lib.JavaChar Lib.Pieces WWIO

/-! ## Parameters -/

def parameters (queryString : JavaString) : List JavaString := pieces amp queryString

/-- The text before the first `=`. -/
def parameterKey (p : JavaString) : JavaString := p.takeWhile (· ≠ 61)

def isPrivate (p : JavaString) : Bool := CaseMap.asciiOnly.equalsIgnoreCase (parameterKey p) (ascii "CONNECTID")

/-- The key without `=` and value. -/
def isBareKey (p : JavaString) : Bool := CaseMap.asciiOnly.equalsIgnoreCase p (ascii "CONNECTID")

/-- Begins with the private key, or has it nowhere and is not the key alone. -/
def Separate (p : JavaString) : Prop :=
  startsWithKey p = true ∨ ((∀ t ∈ p.tails, startsWithKey t = false) ∧ isBareKey p = false)

instance : DecidablePred Separate := fun _ => inferInstanceAs (Decidable (_ ∨ _))

/-- What is left of a parameter with the private key in it: the text before it. -/
def cut : JavaString → Option JavaString
  | [] => none
  | c :: s => if startsWithKey (c :: s) then some [] else (cut s).map (c :: ·)

theorem cut_none_iff {p : JavaString} : cut p = none ↔ ∀ t ∈ p.tails, startsWithKey t = false := by
  induction p with
  | nil => exact ⟨fun _ t ht => by rw [List.mem_singleton.1 ht]; decide, fun _ => rfl⟩
  | cons c s ih =>
    rw [cut, List.tails, List.forall_mem_cons]
    by_cases h : startsWithKey (c :: s)
    · simp [h]
    · rw [if_neg h, Option.map_eq_none_iff, ih]
      simp [h]

theorem cut_eq_nil_iff {p : JavaString} : cut p = some [] ↔ startsWithKey p = true := by
  cases p with
  | nil => exact iff_of_false (by decide) (by decide)
  | cons c s =>
    rw [cut]
    by_cases h : startsWithKey (c :: s) <;> simp [h]

/-! ## Characters compared without case -/

/-- What is compared of a character. -/
def fold (c : UInt16) : UInt16 := CaseMap.asciiOnly.toLowerCase (CaseMap.asciiOnly.toUpperCase c)

theorem startsWithKey_iff {s : JavaString} :
    startsWithKey s = true ↔ (s.take 10).map fold = privateKey.map fold := CaseMap.equalsIgnoreCase_iff

theorem isBareKey_iff {p : JavaString} : isBareKey p = true ↔ p.map fold = (ascii "CONNECTID").map fold :=
  CaseMap.equalsIgnoreCase_iff

theorem isPrivate_fold {p : JavaString} :
    isPrivate p = true ↔ (parameterKey p).map fold = (ascii "CONNECTID").map fold := CaseMap.equalsIgnoreCase_iff

theorem fold_amp_not_mem : fold amp ∉ privateKey.map fold := by decide

theorem fold_eq_equals {c : UInt16} (h : fold c = fold 61) : c = 61 := by
  have hnat := congrArg UInt16.toNat h
  have h61 : (fold 61).toNat = 61 := by decide
  refine UInt16.toNat_inj.1 (show c.toNat = 61 from ?_)
  rw [h61] at hnat
  simp only [fold, CaseMap.asciiOnly] at hnat
  split at hnat
  · rename_i hc
    have hlow : (c.toNat - 32).toUInt16.toNat = c.toNat - 32 := by
      rw [UInt16.toNat_ofNat']
      omega
    rw [hlow, if_pos (by omega), UInt16.toNat_ofNat'] at hnat
    omega
  · split at hnat
    · rw [UInt16.toNat_ofNat'] at hnat
      omega
    · exact hnat

theorem takeWhile_key {p a r : JavaString} (ha : 61 ∉ a) (hp : p = a ∨ p = a ++ 61 :: r) :
    parameterKey p = a := by
  have hall : ∀ c ∈ a, (decide (c ≠ 61)) = true := fun c hc => decide_eq_true fun h => ha (h ▸ hc)
  rcases hp with rfl | rfl
  · exact List.takeWhile_eq_self_iff.2 hall
  · rw [parameterKey, List.takeWhile_append_of_pos hall, List.takeWhile_cons_of_neg (by decide), List.append_nil]

/-- The key is `CONNECTID` with `=` after it, or alone. -/
theorem isPrivate_iff {p : JavaString} : isPrivate p = true ↔ startsWithKey p = true ∨ isBareKey p = true := by
  have hkey : privateKey.map fold = (ascii "CONNECTID").map fold ++ [fold 61] := by decide
  have hword : fold 61 ∉ (ascii "CONNECTID").map fold := by decide
  rw [isPrivate_fold, startsWithKey_iff, isBareKey_iff, hkey]
  have hno : ∀ a : JavaString, a.map fold = (ascii "CONNECTID").map fold → 61 ∉ a := by
    intro a ha hmem
    exact hword (ha ▸ List.mem_map_of_mem hmem)
  constructor
  · intro h
    have hsplit : parameterKey p ++ p.dropWhile (· ≠ 61) = p := List.takeWhile_append_dropWhile
    rcases hrest : p.dropWhile (· ≠ 61) with _ | ⟨c, r⟩
    · rw [hrest, List.append_nil] at hsplit
      exact Or.inr (hsplit ▸ h)
    · have hc : c = 61 := by
        have := List.head?_dropWhile_not (fun c : UInt16 => decide (c ≠ 61)) p
        rw [hrest] at this
        simpa using this
      have hlen : (parameterKey p).length = 9 := by
        have := congrArg List.length h
        rw [List.length_map] at this
        rw [this]
        decide
      refine Or.inl ?_
      rw [← hsplit, hrest, hc, List.take_append, hlen, List.take_of_length_le (by omega)]
      rw [List.map_append]
      exact congrArg (· ++ [fold 61]) h
  · rintro (h | h)
    · obtain ⟨a, b, hab, ha, hb⟩ := List.map_eq_append_iff.1 h
      obtain ⟨d, rfl, hd⟩ := List.map_eq_singleton_iff.1 hb
      have hd := fold_eq_equals hd
      subst hd
      have hp : p = a ++ 61 :: p.drop 10 := by
        conv_lhs => rw [← List.take_append_drop 10 p, hab, List.append_assoc, List.singleton_append]
      rw [takeWhile_key (hno a ha) (Or.inr hp), ha]
    · rw [takeWhile_key (hno p h) (Or.inl rfl : p = p ∨ p = p ++ 61 :: []), h]

/-! ## The scan over one piece -/

/-- What follows a piece does not matter for a match in it. -/
theorem startsWithKey_append (p q : JavaString) :
    startsWithKey (p ++ amp :: q) = startsWithKey p := by
  rw [Bool.eq_iff_iff, startsWithKey_iff, startsWithKey_iff]
  by_cases hlen : 10 ≤ p.length
  · rw [List.take_append_of_le_length hlen]
  · refine iff_of_false (fun h => fold_amp_not_mem ?_) fun h => ?_
    · obtain ⟨n, hn⟩ : ∃ n, 10 - p.length = n + 1 := ⟨9 - p.length, by omega⟩
      rw [← h, List.take_append, hn, List.take_succ_cons]
      exact List.mem_map_of_mem (List.mem_append_right _ List.mem_cons_self)
    · have hkey : (privateKey.map fold).length = 10 := by decide
      have := congrArg List.length h
      rw [hkey, List.length_map, List.length_take] at this
      omega

theorem length_of_startsWithKey {p : JavaString} (h : startsWithKey p = true) : 10 ≤ p.length := by
  have hkey : (privateKey.map fold).length = 10 := by decide
  have := congrArg List.length (startsWithKey_iff.1 h)
  rw [hkey, List.length_map, List.length_take] at this
  omega

theorem takeWhile_piece {p : JavaString} (hp : amp ∉ p) : p.takeWhile (· ≠ amp) = p :=
  List.takeWhile_eq_self_iff.2 fun _ hc => decide_eq_true fun h => hp (h ▸ hc)

theorem privateMatch_last {p : JavaString} (hp : amp ∉ p) (h : startsWithKey p = true) :
    privateMatch p = some p.length := by
  have hlen := length_of_startsWithKey h
  have hvalue : privateKey.length + (p.drop privateKey.length).length = p.length := by
    rw [List.length_drop]
    exact Nat.add_sub_of_le hlen
  have hdrop : amp ∉ p.drop privateKey.length := fun hmem => hp (List.mem_of_mem_drop hmem)
  simp only [privateMatch]
  rw [if_pos h, takeWhile_piece hdrop, hvalue, List.drop_length, if_neg (by simp)]

/-- The match takes the delimiter after the value with it. -/
theorem privateMatch_more {p : JavaString} (hp : amp ∉ p) (h : startsWithKey p = true) (q : JavaString) :
    privateMatch (p ++ amp :: q) = some (p.length + 1) := by
  have hlen : privateKey.length ≤ p.length := length_of_startsWithKey h
  have hvalue : privateKey.length + (p.drop privateKey.length).length = p.length := by
    rw [List.length_drop]
    exact Nat.add_sub_of_le hlen
  have hdrop : amp ∉ p.drop privateKey.length := fun hmem => hp (List.mem_of_mem_drop hmem)
  have htake : ((p ++ amp :: q).drop privateKey.length).takeWhile (· ≠ amp) = p.drop privateKey.length := by
    have hvalue : ∀ c ∈ p.drop privateKey.length, decide (c ≠ amp) = true :=
      fun c hc => decide_eq_true fun h => hdrop (h ▸ hc)
    rw [List.drop_append_of_le_length hlen, List.takeWhile_append_of_pos hvalue,
      List.takeWhile_cons_of_neg (by simp), List.append_nil]
  simp only [privateMatch]
  rw [if_pos ((startsWithKey_append p q).trans h), htake, hvalue, List.drop_left, List.head?_cons, if_pos rfl]

theorem privateMatch_none {s : JavaString} (h : ¬startsWithKey s = true) : privateMatch s = none := by
  simp only [privateMatch]
  rw [if_neg h]

theorem replaceAllPrivate_last {p : JavaString} (hp : amp ∉ p) : replaceAllPrivate p = (cut p).getD p := by
  induction p with
  | nil => rfl
  | cons c s ih =>
    by_cases h : startsWithKey (c :: s)
    · rw [cut, if_pos h, replaceAllPrivate, removeMatches_match (privateMatch_last hp h), List.drop_length]
      rfl
    · rw [replaceAllPrivate, removeMatches_keep (privateMatch_none h), cut, if_neg h]
      have ih := ih fun hmem => hp (List.mem_cons_of_mem c hmem)
      rw [replaceAllPrivate] at ih
      rw [ih]
      cases cut s <;> rfl

/-- A private key in a piece takes the rest of the piece and the delimiter with it. -/
theorem replaceAllPrivate_more {p : JavaString} (hp : amp ∉ p) (q : JavaString) :
    replaceAllPrivate (p ++ amp :: q) =
      match cut p with
      | some before => before ++ replaceAllPrivate q
      | none => p ++ amp :: replaceAllPrivate q := by
  induction p with
  | nil =>
    have h : ¬startsWithKey ([] ++ amp :: q) = true := by
      rw [startsWithKey_append [] q]
      decide
    exact removeMatches_keep (privateMatch_none h)
  | cons c s ih =>
    have ih := ih fun hmem => hp (List.mem_cons_of_mem c hmem)
    by_cases h : startsWithKey (c :: s)
    · have hdrop : (s ++ amp :: q).drop (s.length + 1) = q := by
        rw [← List.drop_drop, List.drop_left]
        rfl
      have hmatch : privateMatch (c :: (s ++ amp :: q)) = some (s.length + 1 + 1) := privateMatch_more hp h q
      rw [cut, if_pos h, replaceAllPrivate, List.cons_append, removeMatches_match hmatch, hdrop]
      rfl
    · have h' : ¬startsWithKey (c :: s ++ amp :: q) = true := by
        rwa [startsWithKey_append (c :: s) q]
      rw [replaceAllPrivate] at ih ⊢
      rw [List.cons_append] at h' ⊢
      rw [removeMatches_keep (privateMatch_none h'), ih, cut, if_neg h]
      cases cut s <;> rfl

/-! ## The four kinds of parameters -/

theorem cut_some {p before : JavaString} (h : cut p = some before) :
    ∃ r, p = before ++ r ∧ startsWithKey r = true := by
  induction p generalizing before with
  | nil => exact absurd h (by simp [cut])
  | cons c s ih =>
    rw [cut] at h
    by_cases hkey : startsWithKey (c :: s)
    · rw [if_pos hkey, Option.some_inj] at h
      exact ⟨c :: s, by rw [← h, List.nil_append], hkey⟩
    · rw [if_neg hkey, Option.map_eq_some_iff] at h
      obtain ⟨before', hcut, rfl⟩ := h
      obtain ⟨r, hr, hkey⟩ := ih hcut
      exact ⟨r, by rw [hr, List.cons_append], hkey⟩

/-- The private key stands in the parameter, but not at its beginning. -/
def isGlued (p : JavaString) : Bool := (cut p).any (· ≠ [])

/-- What the scan leaves of a parameter. -/
def rest (p : JavaString) : JavaString := (cut p).getD p

theorem length_of_isBareKey {p : JavaString} (h : isBareKey p = true) : p.length = 9 := by
  have := congrArg List.length (isBareKey_iff.1 h)
  rw [List.length_map, List.length_map] at this
  exact this

theorem cut_of_isBareKey {p : JavaString} (h : isBareKey p = true) : cut p = none := by
  have hlen := length_of_isBareKey h
  rcases hcut : cut p with _ | before
  · rfl
  · obtain ⟨r, rfl, hr⟩ := cut_some hcut
    have := length_of_startsWithKey hr
    rw [List.length_append] at hlen
    omega

/-- A parameter begins with the private key, has it in the middle, is the key alone, or is an ordinary one. -/
theorem parameter_cases (p : JavaString) :
    (startsWithKey p = true ∧ cut p = some [] ∧ isBareKey p = false ∧ isPrivate p = true) ∨
    (∃ before, startsWithKey p = false ∧ cut p = some before ∧ before ≠ [] ∧ before.length + 10 ≤ p.length ∧
      isBareKey p = false ∧ isPrivate p = false) ∨
    (startsWithKey p = false ∧ cut p = none ∧ isBareKey p = true ∧ isPrivate p = true) ∨
    (startsWithKey p = false ∧ cut p = none ∧ isBareKey p = false ∧ isPrivate p = false) := by
  have hprivate := @isPrivate_iff p
  have hnil := @cut_eq_nil_iff p
  have hbare := @cut_of_isBareKey p
  rcases hcut : cut p with _ | before
  · have hkey : startsWithKey p = false := by
      rw [← Bool.not_eq_true, ← hnil, hcut]
      simp
    cases hb : isBareKey p <;> simp_all
  · have hb : isBareKey p = false := by
      rw [← Bool.not_eq_true]
      intro h
      rw [hbare h] at hcut
      cases hcut
    by_cases hbefore : before = []
    · simp_all
    · have hkey : startsWithKey p = false := by
        rw [← Bool.not_eq_true, ← hnil, hcut, Option.some_inj]
        exact hbefore
      obtain ⟨r, hr, hrkey⟩ := cut_some hcut
      have hlen := congrArg List.length hr
      rw [List.length_append] at hlen
      have := length_of_startsWithKey hrkey
      refine Or.inr (Or.inl ⟨before, hkey, rfl, hbefore, by omega, hb, ?_⟩)
      rw [← Bool.not_eq_true, hprivate, hkey, hb]
      simp

theorem separate_iff {p : JavaString} : Separate p ↔ isGlued p = false ∧ isBareKey p = false := by
  rw [Separate, ← cut_none_iff, isGlued]
  rcases parameter_cases p with h | ⟨before, h⟩ | h | h <;> simp [h]

/-! ## Parameters of the result -/

theorem parameters_removePrivate (q : JavaString) :
    parameters (removePrivateQueryParameters q) = parameters (replaceAllPrivate q) := by
  rw [removePrivateQueryParameters]
  by_cases hq : q = []
  · rw [if_pos hq, hq]
    rfl
  · simp only [if_neg hq]
    split
    · rename_i h
      rw [parameters, ← pieces_trailing, List.dropLast_append_getLast? amp h, parameters]
    · rfl

/-- Separate parameters are kept or removed as a whole. -/
theorem parameters_of_separate {q : JavaString} (h : ∀ p ∈ parameters q, Separate p) :
    parameters (replaceAllPrivate q) = (parameters q).filter (!isPrivate ·) := by
  have hpiece : ∀ p : JavaString, (p ≠ [] → Separate p) → cut p = none →
      (([p].filter (· ≠ [])).filter (!isPrivate ·)) = [p].filter (· ≠ []) := by
    intro p hp hcut
    by_cases hempty : p = []
    · simp [hempty]
    · have hsep := separate_iff.1 (hp hempty)
      rcases parameter_cases p with h | ⟨before, h⟩ | h | h <;> simp_all
  have hremoved : ∀ p before : JavaString, (p ≠ [] → Separate p) → cut p = some before →
      before = [] ∧ (([p].filter (· ≠ [])).filter (!isPrivate ·)) = [] := by
    intro p before hp hcut
    have hempty : p ≠ [] := by
      rintro rfl
      cases hcut
    have hsep := separate_iff.1 (hp hempty)
    rcases parameter_cases p with h | ⟨before, h⟩ | h | h <;> simp_all [isGlued]
  induction q using piece_induction amp with
  | last p hp =>
    have hsep : p ≠ [] → Separate p := by
      intro hempty
      refine h p ?_
      rw [parameters, pieces_last hp]
      simp [hempty]
    rw [replaceAllPrivate_last hp, parameters, parameters, pieces_last hp]
    rcases hcut : cut p with _ | before
    · rw [Option.getD_none, pieces_last hp, hpiece p hsep hcut]
    · obtain ⟨rfl, hfilter⟩ := hremoved p before hsep hcut
      rw [hfilter]
      rfl
  | more p q hp ih =>
    rw [parameters, pieces_more hp] at h
    have hsep : p ≠ [] → Separate p := by
      intro hempty
      refine h p (List.mem_append_left _ ?_)
      simp [hempty]
    have ih := ih fun p' hp' => h p' (List.mem_append_right _ hp')
    rw [replaceAllPrivate_more hp, parameters, parameters, pieces_more hp, List.filter_append]
    rcases hcut : cut p with _ | before
    · simp only
      rw [pieces_more hp, hpiece p hsep hcut]
      exact congrArg _ ih
    · obtain ⟨rfl, hfilter⟩ := hremoved p before hsep hcut
      rw [hfilter]
      exact ih

/-! ## Counting characters and parameters -/

theorem rest_not_mem {p : JavaString} (hp : amp ∉ p) : amp ∉ rest p := by
  rw [rest]
  rcases hcut : cut p with _ | before
  · exact hp
  · obtain ⟨r, rfl, -⟩ := cut_some hcut
    exact fun h => hp (List.mem_append_left r h)

/-- The characters of the result are those the scan leaves of each parameter. -/
theorem length_result (q : JavaString) :
    ((parameters (replaceAllPrivate q)).map List.length).sum = ((parameters q).map fun p => (rest p).length).sum := by
  have hfilter : ∀ p : JavaString, amp ∉ p → p.filter (· ≠ amp) = p := fun p hp =>
    List.filter_eq_self.2 fun _ hc => decide_eq_true fun h => hp (h ▸ hc)
  have hpiece : ∀ p : JavaString, (([p].filter (· ≠ [])).map fun p => (rest p).length).sum = (rest p).length := by
    intro p
    by_cases hp : p = []
    · subst hp
      rfl
    · simp [hp]
  have hletters : ∀ p : JavaString, amp ∉ p → ((rest p).filter (· ≠ amp)).length = (rest p).length := by
    intro p hp
    rw [hfilter _ (rest_not_mem hp)]
  rw [parameters, sum_length_pieces]
  induction q using piece_induction amp with
  | last p hp =>
    rw [replaceAllPrivate_last hp, parameters, pieces_last hp, hpiece]
    exact hletters p hp
  | more p q hp ih =>
    rw [replaceAllPrivate_more hp, parameters, pieces_more hp, List.map_append, List.sum_append, hpiece,
      ← hletters p hp, rest]
    rw [parameters] at ih
    rw [← ih, ← List.length_append, ← List.filter_append]
    rcases hcut : cut p with _ | before
    · simp only [Option.getD_none]
      rw [List.filter_append, List.filter_append, List.filter_cons_of_neg (by simp)]
    · rfl

/-- Every parameter in which nothing is removed ends a parameter of the result. -/
theorem countP_le_length_result (q : JavaString) : ∀ a : JavaString, amp ∉ a →
    (parameters q).countP (fun p => cut p = none) ≤ (parameters (a ++ replaceAllPrivate q)).length := by
  have hpiece : ∀ a p : JavaString, ([p].filter (· ≠ [])).countP (fun p => cut p = none) ≤
      ([a ++ p].filter (· ≠ [])).length := by
    intro a p
    by_cases hp : p = []
    · simp [hp]
    · have hap : a ++ p ≠ [] := by simp [hp]
      have hone : ∀ r : JavaString, r ≠ [] → [r].filter (· ≠ []) = [r] := fun r hr => by simp [hr]
      rw [hone p hp, hone _ hap]
      exact List.countP_le_length
  induction q using piece_induction amp with
  | last p hp =>
    intro a ha
    rw [replaceAllPrivate_last hp]
    rcases hcut : cut p with _ | before
    · have hap : amp ∉ a ++ p := fun h => (List.mem_append.1 h).elim ha hp
      rw [Option.getD_none, parameters, parameters, pieces_last hp, pieces_last hap]
      exact hpiece a p
    · rw [parameters, pieces_last hp, List.countP_eq_zero.2]
      · exact Nat.zero_le _
      · intro p' hp'
        rw [List.mem_singleton.1 (List.mem_filter.1 hp').1, hcut]
        simp
  | more p q hp ih =>
    intro a ha
    rw [replaceAllPrivate_more hp, parameters, pieces_more hp, List.countP_append]
    rcases hcut : cut p with _ | before
    · have hap : amp ∉ a ++ p := fun h => (List.mem_append.1 h).elim ha hp
      simp only
      rw [parameters, ← List.append_assoc, pieces_more hap, List.length_append]
      exact Nat.add_le_add (hpiece a p) (ih [] List.not_mem_nil)
    · obtain ⟨r, hr, -⟩ := cut_some hcut
      have hbefore : amp ∉ a ++ before := by
        intro h
        rcases List.mem_append.1 h with h | h
        · exact ha h
        · exact hp (hr ▸ List.mem_append_left r h)
      rw [List.countP_eq_zero.2, Nat.zero_add, ← List.append_assoc]
      · exact ih _ hbefore
      · intro p' hp'
        rw [List.mem_singleton.1 (List.mem_filter.1 hp').1, hcut]
        simp

/-- A glued parameter loses at least ten characters; a bare key of nine stays. -/
theorem length_rest_le (ps : List JavaString) :
    (ps.map fun p => (rest p).length).sum + 10 * ps.countP isGlued ≤
      ((ps.filter (!isPrivate ·)).map List.length).sum + 9 * ps.countP isBareKey := by
  induction ps with
  | nil => exact le_rfl
  | cons p ps ih =>
    rw [List.map_cons, List.sum_cons, List.countP_cons, List.countP_cons, List.filter_cons]
    rcases parameter_cases p with h | ⟨before, h⟩ | h | h
    · have hr : rest p = [] := by rw [rest, h.2.1, Option.getD_some]
      simp [isGlued, hr, h]
      omega
    · have hr : rest p = before := by rw [rest, h.2.1, Option.getD_some]
      simp [isGlued, hr, h]
      omega
    · have hr : rest p = p := by rw [rest, h.2.1, Option.getD_none]
      have := length_of_isBareKey h.2.2.1
      simp [isGlued, hr, h]
      omega
    · have hr : rest p = p := by rw [rest, h.2.1, Option.getD_none]
      simp [isGlued, hr, h]
      omega

theorem countP_kinds (ps : List JavaString) :
    ps.countP (fun p => cut p = none) + ps.countP isGlued = (ps.filter (!isPrivate ·)).length +
      ps.countP isBareKey := by
  induction ps with
  | nil => rfl
  | cons p ps ih =>
    rw [List.countP_cons, List.countP_cons, List.countP_cons, List.filter_cons]
    rcases parameter_cases p with h | ⟨before, h⟩ | h | h <;> simp [isGlued, h] <;> omega

/-- Only separate parameters are kept or removed as a whole. -/
theorem separate_of_parameters {q : JavaString}
    (h : parameters (replaceAllPrivate q) = (parameters q).filter (!isPrivate ·)) :
    ∀ p ∈ parameters q, Separate p := by
  have hchars := length_result q
  have hcount := countP_le_length_result q [] List.not_mem_nil
  have hrest := length_rest_le (parameters q)
  have hkinds := countP_kinds (parameters q)
  rw [List.nil_append] at hcount
  rw [h] at hchars hcount
  have hglued : (parameters q).countP isGlued = 0 := by omega
  have hbare : (parameters q).countP isBareKey = 0 := by omega
  intro p hp
  rw [separate_iff]
  exact ⟨by simpa using List.countP_eq_zero.1 hglued p hp, by simpa using List.countP_eq_zero.1 hbare p hp⟩

/-! ## Cache paths -/

/-- The queries have the same pieces, except that two private parameters with values may differ. -/
def SameButPrivateValues (q₁ q₂ : JavaString) : Prop :=
  List.Forall₂ (fun p₁ p₂ => p₁ = p₂ ∨ (startsWithKey p₁ = true ∧ startsWithKey p₂ = true))
    (q₁.splitOn amp) (q₂.splitOn amp)

/-- A text whose first piece is known. -/
theorem splitOn_cases (q : JavaString) : ∃ p, amp ∉ p ∧
    ((q = p ∧ q.splitOn amp = [p]) ∨ ∃ q', q = p ++ amp :: q' ∧ q.splitOn amp = p :: q'.splitOn amp) := by
  induction q using piece_induction amp with
  | last p hp => exact ⟨p, hp, Or.inl ⟨rfl, List.splitOn_eq_singleton hp⟩⟩
  | more p q hp _ => exact ⟨p, hp, Or.inr ⟨q, rfl, List.splitOn_append_cons_self_of_not_mem hp q⟩⟩

theorem cut_eq_of_same {p₁ p₂ : JavaString} (h : p₁ = p₂ ∨ (startsWithKey p₁ = true ∧ startsWithKey p₂ = true)) :
    p₁ = p₂ ∨ (cut p₁ = some [] ∧ cut p₂ = some []) :=
  h.imp id fun h => ⟨cut_eq_nil_iff.2 h.1, cut_eq_nil_iff.2 h.2⟩

/-- The values of private parameters do not matter. -/
theorem replaceAllPrivate_eq_of_same {q₁ q₂ : JavaString} (h : SameButPrivateValues q₁ q₂) :
    replaceAllPrivate q₁ = replaceAllPrivate q₂ := by
  induction q₁ using piece_induction amp generalizing q₂ with
  | last p₁ hp₁ =>
    rw [SameButPrivateValues, List.splitOn_eq_singleton hp₁] at h
    obtain ⟨p₂, hp₂, ⟨rfl, hsplit⟩ | ⟨q', -, hsplit⟩⟩ := splitOn_cases q₂
    · rw [hsplit, List.forall₂_cons] at h
      rw [replaceAllPrivate_last hp₁, replaceAllPrivate_last hp₂]
      rcases cut_eq_of_same h.1 with rfl | ⟨h1, h2⟩
      · rfl
      · rw [h1, h2, Option.getD_some, Option.getD_some]
    · rw [hsplit, List.forall₂_cons, List.forall₂_nil_left_iff] at h
      exact absurd h.2 (List.splitOn_ne_nil amp q')
  | more p₁ q₁ hp₁ ih =>
    rw [SameButPrivateValues, List.splitOn_append_cons_self_of_not_mem hp₁] at h
    obtain ⟨p₂, hp₂, ⟨-, hsplit⟩ | ⟨q', rfl, hsplit⟩⟩ := splitOn_cases q₂
    · rw [hsplit, List.forall₂_cons, List.forall₂_nil_right_iff] at h
      exact absurd h.2 (List.splitOn_ne_nil amp q₁)
    · rw [hsplit, List.forall₂_cons] at h
      rw [replaceAllPrivate_more hp₁, replaceAllPrivate_more hp₂, ih h.2]
      rcases cut_eq_of_same h.1 with rfl | ⟨h1, h2⟩
      · rfl
      · rw [h1, h2]

/-- The cache name uses the query only after the private parameters are removed. -/
theorem cacheFilename_query (host path q : JavaString) :
    cacheFilename ⟨host, path, some q⟩ =
      if replaceIllegalFileNameCharacters (removePrivateQueryParameters q) = [] then
        replaceIllegalFileNameCharacters path
      else
        replaceIllegalFileNameCharacters path ++ ascii "_" ++
          replaceIllegalFileNameCharacters (removePrivateQueryParameters q) := by
  simp only [cacheFilename]
  by_cases hq : q = []
  · subst hq
    rfl
  · rw [if_neg hq]

theorem removePrivate_eq (q : JavaString) : removePrivateQueryParameters q =
    if (replaceAllPrivate q).getLast? = some amp then (replaceAllPrivate q).dropLast else replaceAllPrivate q := by
  rw [removePrivateQueryParameters]
  by_cases hq : q = []
  · subst hq
    rfl
  · rw [if_neg hq]

/-- Exactly the private parameters are removed, and queries with other parameters
are kept apart, if and only if every parameter is separate. The values of private
parameters are never in a cache path. -/
theorem removePrivateQueryParameters_iff (q : JavaString) :
    (parameters (removePrivateQueryParameters q) = (parameters q).filter (!isPrivate ·) ↔
      ∀ p ∈ parameters q, Separate p) ∧
    (∀ q', (∀ p ∈ parameters q, Separate p) → (∀ p ∈ parameters q', Separate p) →
      (parameters q).filter (!isPrivate ·) ≠ (parameters q').filter (!isPrivate ·) →
      removePrivateQueryParameters q ≠ removePrivateQueryParameters q') ∧
    ∀ cm fileSeparator host path q' contentType, SameButPrivateValues q q' →
      makeGenericURLCachePath cm fileSeparator ⟨host, path, some q⟩ contentType =
        makeGenericURLCachePath cm fileSeparator ⟨host, path, some q'⟩ contentType := by
  have hiff : ∀ q, parameters (removePrivateQueryParameters q) = (parameters q).filter (!isPrivate ·) ↔
      ∀ p ∈ parameters q, Separate p := by
    intro q
    rw [parameters_removePrivate]
    exact ⟨separate_of_parameters, parameters_of_separate⟩
  refine ⟨hiff q, ?_, ?_⟩
  · intro q' h h' hne heq
    rw [← (hiff q).2 h, ← (hiff q').2 h', heq] at hne
    exact hne rfl
  · intro cm fileSeparator host path q' contentType h
    have hname : cacheFilename ⟨host, path, some q⟩ = cacheFilename ⟨host, path, some q'⟩ := by
      rw [cacheFilename_query, cacheFilename_query, removePrivate_eq, removePrivate_eq,
        replaceAllPrivate_eq_of_same h]
    simp only [makeGenericURLCachePath]
    rw [hname]

/-- A user's connection id does not reach the cache, and what is kept is told apart. -/
theorem connectId_removed :
    parameters (removePrivateQueryParameters (ascii "a=1&ConnectId=7&b=2")) = [ascii "a=1", ascii "b=2"] ∧
    removePrivateQueryParameters (ascii "a=1&CONNECTID=7") ≠ removePrivateQueryParameters (ascii "a=2&CONNECTID=7") ∧
    makeGenericURLCachePath .asciiOnly (ascii "/") ⟨ascii "host", ascii "/wms", some (ascii "CONNECTID=7&a=1")⟩ none =
      makeGenericURLCachePath .asciiOnly (ascii "/") ⟨ascii "host", ascii "/wms", some (ascii "CONNECTID=8&a=1")⟩ none := by
  refine ⟨?_, ?_, ?_⟩
  · rw [(removePrivateQueryParameters_iff _).1.2 (by decide)]
    decide
  · exact (removePrivateQueryParameters_iff _).2.1 _ (by decide) (by decide) (by decide)
  · refine (removePrivateQueryParameters_iff _).2.2 _ _ _ _ _ _ ?_
    have hsplit : ∀ a : JavaString, amp ∉ a → (a ++ amp :: ascii "a=1").splitOn amp = [a, ascii "a=1"] := by
      intro a ha
      rw [List.splitOn_append_cons_self_of_not_mem ha, List.splitOn_eq_singleton (by decide)]
    rw [SameButPrivateValues]
    exact (hsplit (ascii "CONNECTID=7") (by decide)).symm ▸ (hsplit (ascii "CONNECTID=8") (by decide)).symm ▸
      List.Forall₂.cons (Or.inr (by decide)) (List.Forall₂.cons (Or.inl rfl) .nil)

/-- The key `xconnectid` is not the private one, but its value is removed, and the next parameter is glued to it. -/
theorem longer_key_glued :
    isPrivate (ascii "xconnectid=5") = false ∧
    removePrivateQueryParameters (ascii "xconnectid=5&a=1") = ascii "xa=1" ∧
    ¬(∀ q, parameters (removePrivateQueryParameters q) = (parameters q).filter (!isPrivate ·)) ∧
    ¬(∀ q₁ q₂, (parameters q₁).filter (!isPrivate ·) ≠ (parameters q₂).filter (!isPrivate ·) →
      removePrivateQueryParameters q₁ ≠ removePrivateQueryParameters q₂) := by
  refine ⟨by decide, by decide, ?_, ?_⟩
  · intro h
    exact absurd (h (ascii "xconnectid=5&a=1")) (by decide)
  · intro h
    exact absurd (h (ascii "xconnectid=5&a=1") (ascii "xconnectid=6&a=1") (by decide)) (by decide)

end WorldWind.FileStore
