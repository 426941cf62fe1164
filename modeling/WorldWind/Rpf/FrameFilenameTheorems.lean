import WorldWind.Rpf.FrameFilename
/-!
# Frame file names: equal names, hashes, and names written again

A name is read as seven base 34 digits, whatever its layout, and two names are
equal if their characters are, up to case. The hash takes the producer and the
zone as they are, so names that differ in the case of these two are equal and
have different hashes. Writing a name and reading it again gives the same fields.
-/

namespace WorldWind.Rpf

open Lib.JavaInt Lib.JavaChar

variable {cm : CaseMap}

/-! ## Base 34 -/

namespace Base34Converter

/-- The digit's character. -/
def charOf (d : Nat) : UInt16 := BASE34_ALPHABET.getD d 0

theorem alphabet_get : ∀ d < 34, BASE34_ALPHABET[d]? = some (charOf d) ∧ indexOf (charOf d) = some (d : Int) := by
  decide

theorem charOf_capital : ∀ d < 34, CaseMap.IsCapital (charOf d) := by decide

theorem indexOf_lt {c : UInt16} {d : Nat} (h : indexOf c = some (d : Int)) : d < 34 := by
  simp only [indexOf] at h
  split_ifs at h
  all_goals
    have := Option.some.inj h
    omega

theorem indexOf_nonneg {c : UInt16} {i : Int} (h : indexOf c = some i) : 0 ≤ i := by
  simp only [indexOf] at h
  split_ifs at h
  all_goals
    have := Option.some.inj h
    omega

theorem indexOf_inj {c d : UInt16} {i : Int} (hc : indexOf c = some i) (hd : indexOf d = some i) : c = d := by
  refine UInt16.toNat_inj.1 ?_
  simp only [indexOf] at hc hd
  split_ifs at hc <;> split_ifs at hd
  all_goals
    have h1 := Option.some.inj hc
    have h2 := Option.some.inj hd
    omega

variable (cm) in
/-- The characters stand for the digits. -/
def DigitsOf (cs : JavaString) (ds : List Nat) : Prop :=
  List.Forall₂ (fun (c : UInt16) (d : Nat) => indexOf (cm.toUpperCase c) = some (d : Int)) cs ds

theorem DigitsOf.lt {cs : JavaString} {ds : List Nat} (h : DigitsOf cm cs ds) : ∀ d ∈ ds, d < 34 := by
  induction h with
  | nil => simp
  | cons hd _ ih =>
    intro d hmem
    rcases List.mem_cons.1 hmem with rfl | hmem
    · exact indexOf_lt hd
    · exact ih d hmem

theorem DigitsOf.length_eq {cs : JavaString} {ds : List Nat} (h : DigitsOf cm cs ds) : cs.length = ds.length :=
  List.Forall₂.length_eq h

theorem DigitsOf.getD {cs : JavaString} {ds : List Nat} (h : DigitsOf cm cs ds) {i : Nat} (hi : i < cs.length) :
    indexOf (cm.toUpperCase (cs.getD i 0)) = some ((ds.getD i 0 : Nat) : Int) := by
  induction h generalizing i with
  | nil => simp at hi
  | cons hd _ ih =>
    cases i with
    | zero => exact hd
    | succ i => exact ih (Nat.lt_of_succ_lt_succ hi)

/-- Written digits are read back. -/
theorem digitsOf_charOf {ds : List Nat} (h : ∀ d ∈ ds, d < 34) : DigitsOf cm (ds.map charOf) ds := by
  induction ds with
  | nil => exact .nil
  | cons d ds ih =>
    have hd : d < 34 := h d List.mem_cons_self
    refine .cons ?_ (ih fun e he => h e (List.mem_cons_of_mem _ he))
    rw [CaseMap.toUpperCase_capital (charOf_capital d hd)]
    exact (alphabet_get d hd).2

/-- The value of a list of digits. -/
def value (ds : List Nat) : Nat := Nat.ofDigits 34 ds.reverse

theorem value_cons (d : Nat) (ds : List Nat) : value (d :: ds) = d * 34 ^ ds.length + value ds := by
  rw [value, List.reverse_cons, Nat.ofDigits_append, Nat.ofDigits_singleton, List.length_reverse, value]
  ring

theorem value_inj {ds es : List Nat} (hlen : ds.length = es.length) (hd : ∀ d ∈ ds, d < 34) (he : ∀ d ∈ es, d < 34)
    (h : value ds = value es) : ds = es :=
  List.reverse_injective (Nat.ofDigits_inj_of_len_eq (by decide) (by simpa using hlen) (by simpa using hd)
    (by simpa using he) h)

variable (cm) in
/-- One character of `parseChars`. -/
def addChar (i : Int) (c : UInt16) : Option Int :=
  (indexOf (cm.toUpperCase c)).map fun index => int (i * 34 + index)

/-- Up to six digits do not overflow. The induction keeps how many were read. -/
theorem fold_iff {cs : JavaString} : ∀ (k i : Nat) (v : Int), i < 34 ^ k → k + cs.length ≤ 6 →
    (cs.foldlM (addChar cm) (i : Int) = some v ↔
      ∃ ds, DigitsOf cm cs ds ∧ v = ((i * 34 ^ cs.length + value ds : Nat) : Int)) := by
  induction cs with
  | nil =>
    intro k i v _ _
    constructor
    · intro h
      exact ⟨[], .nil, by simpa [value] using (Option.some.inj h).symm⟩
    · rintro ⟨ds, hds, rfl⟩
      cases hds
      simp [value]
  | cons c cs ih =>
    intro k i v hi hk
    have hk : k + 1 + cs.length ≤ 6 := by
      rw [List.length_cons] at hk
      omega
    have hstep : ∀ d : Nat, indexOf (cm.toUpperCase c) = some (d : Int) →
        i * 34 + d < 34 ^ (k + 1) ∧ addChar cm i c = some ((i * 34 + d : Nat) : Int) := by
      intro d hd
      have hlt := indexOf_lt hd
      have hpow : 34 ^ (k + 1) ≤ 34 ^ 6 := Nat.pow_le_pow_right (by decide) (by omega)
      have hnext : i * 34 + d < 34 ^ (k + 1) := by
        rw [pow_succ]
        omega
      refine ⟨hnext, ?_⟩
      rw [addChar, hd, Option.map_some, int_eq (by omega) (by omega)]
      push_cast
      rfl
    have hvalue : ∀ (d : Nat) (ds : List Nat), ds.length = cs.length →
        (i * 34 + d) * 34 ^ cs.length + value ds = i * 34 ^ (c :: cs).length + value (d :: ds) := by
      intro d ds hlen
      rw [value_cons, hlen, List.length_cons]
      ring
    rw [List.foldlM_cons]
    constructor
    · intro h
      rcases hidx : indexOf (cm.toUpperCase c) with _ | index
      · rw [addChar, hidx] at h
        cases h
      · obtain ⟨d, rfl⟩ := Int.eq_ofNat_of_zero_le (indexOf_nonneg hidx)
        obtain ⟨hnext, hadd⟩ := hstep d hidx
        rw [hadd] at h
        obtain ⟨ds, hds, rfl⟩ := (ih (k + 1) _ v hnext hk).1 h
        exact ⟨d :: ds, .cons hidx hds, by rw [hvalue d ds hds.length_eq.symm]⟩
    · rintro ⟨ds, hds, rfl⟩
      cases hds with
      | cons hd hds =>
        rename_i d ds
        obtain ⟨hnext, hadd⟩ := hstep d hd
        rw [hadd]
        exact (ih (k + 1) _ _ hnext hk).2 ⟨ds, hds, by rw [hvalue d ds hds.length_eq.symm]⟩

/-- `parseChars` gives the value of the digits the characters stand for. -/
theorem parseChars_iff {src : JavaString} {offset count : Nat} {v : Int} (hlen : offset + count < src.length)
    (hcount : count ≤ 6) :
    parseChars cm src offset count = some v ↔
      ∃ ds, DigitsOf cm ((src.drop offset).take count) ds ∧ v = (value ds : Int) := by
  have hfold := @fold_iff cm ((src.drop offset).take count) 0 0 v (by decide)
    (by rw [List.length_take]; omega)
  rw [parseChars, if_neg (by omega)]
  simp only [Nat.zero_mul, Nat.zero_add] at hfold
  exact hfold

/-- The digits are written from the last one on. -/
theorem digits_value {offset : Nat} {ls : List Nat} : ∀ {dest : JavaString}, (∀ d ∈ ls, d < 34) →
    offset + ls.length ≤ dest.length →
    digits (Nat.ofDigits 34 ls : Nat) dest offset ls.length =
      some (dest.take offset ++ ls.reverse.map charOf ++ dest.drop (offset + ls.length)) := by
  induction ls with
  | nil =>
    intro dest _ _
    simp [digits]
  | cons d ls ih =>
    intro dest hlt hlen
    have hd : d < 34 := hlt d List.mem_cons_self
    have hmod : ((Nat.ofDigits 34 (d :: ls) : Nat) : Int).tmod 34 = d := by
      rw [Int.tmod_eq_emod_of_nonneg (by omega), Nat.ofDigits_cons]
      push_cast
      omega
    have hdiv : ((Nat.ofDigits 34 (d :: ls) : Nat) : Int).tdiv 34 = (Nat.ofDigits 34 ls : Nat) := by
      rw [Int.tdiv_eq_ediv_of_nonneg (by omega), Nat.ofDigits_cons]
      push_cast
      omega
    rw [List.length_cons] at hlen
    rw [List.length_cons, digits, hmod, if_neg (by omega), hdiv, Int.toNat_natCast, (alphabet_get d hd).1,
      Option.bind_some, ih (fun e he => hlt e (List.mem_cons_of_mem _ he)) (by rw [List.length_set]; omega)]
    congr 1
    rw [List.take_set_of_le (by omega),
      List.drop_eq_getElem_cons (i := offset + ls.length) (by rw [List.length_set]; omega), List.getElem_set_self,
      List.drop_set_of_lt (by omega), List.reverse_cons, List.map_append]
    simp [Nat.add_assoc]

theorem valueOf_value {ds : List Nat} {dest : JavaString} {offset : Nat} (h : ∀ d ∈ ds, d < 34)
    (hlen : offset + ds.length < dest.length) :
    valueOf (value ds) dest offset ds.length =
      some (dest.take offset ++ ds.map charOf ++ dest.drop (offset + ds.length)) := by
  have hdigits := @digits_value offset ds.reverse dest (by simpa using h)
    (by rw [List.length_reverse]; omega)
  rw [List.length_reverse, List.reverse_reverse] at hdigits
  rw [valueOf, if_neg (by omega), value, hdigits]

end Base34Converter

/-! ## Series -/

namespace RPFDataSeries

theorem enumConstants_capital :
    (enumConstants.all fun r => (ascii r.1).length = 2 && (ascii r.1).all fun c => CaseMap.IsCapital c) = true := by
  decide +kernel

/-- The codes that name a series are in capitals. -/
theorem capital_of_isCIBDataSeries {code : JavaString} {cib : Bool} (h : isCIBDataSeries cm code = some cib) :
    code.length = 2 ∧ ∀ c ∈ code, CaseMap.IsCapital c := by
  obtain ⟨rpfDataType, hdir, _⟩ := Option.map_eq_some_iff.1 h
  obtain ⟨r, hfind, _⟩ := Option.map_eq_some_iff.1 hdir
  have hcode : ascii r.1 = code := by simpa using List.find?_some hfind
  have hcap := List.all_eq_true.1 enumConstants_capital r (List.mem_reverse.1 (List.mem_of_find?_eq_some hfind))
  rw [← hcode]
  simpa using hcap

end RPFDataSeries

/-! ## Names -/

namespace RPFFrameFilename

open Base34Converter RPFDataSeries

theorem chars_add (cib : Bool) : frameChars cib + versionChars cib = 7 := by cases cib <;> rfl

variable (cm) in
/-- What an accepted name consists of: the series, and the digits of the frame
number and of the version. -/
structure Accepted (filename : JavaString) (cib : Bool) (ds es : List Nat) : Prop where
  length_eq : filename.length = 12
  series : isCIBDataSeries cm ((filename.drop 9).take 2) = some cib
  frame : DigitsOf cm (filename.take (frameChars cib)) ds
  version : DigitsOf cm ((filename.drop (frameChars cib)).take (versionChars cib)) es

/-- The fields of an accepted name. -/
def fields (filename : JavaString) (ds es : List Nat) : RPFFrameFilename :=
  ⟨(filename.drop 9).take 2, value ds, filename.getD 7 0, value es, filename.getD 11 0⟩

theorem parseFilename_iff {filename : JavaString} {a : RPFFrameFilename} :
    parseFilename cm filename = some a ↔
      ∃ cib ds es, Accepted cm filename cib ds es ∧ a = fields filename ds es := by
  rw [parseFilename]
  by_cases hlen : filename.length = 12
  · rw [if_neg (by simpa [FILENAME_LENGTH] using hlen)]
    have hframe : ∀ cib v, parseChars cm filename 0 (frameChars cib) = some v ↔
        ∃ ds, DigitsOf cm (filename.take (frameChars cib)) ds ∧ v = (value ds : Int) := by
      intro cib v
      have hchars : frameChars cib ≤ 6 := by cases cib <;> decide
      exact parseChars_iff (by omega) hchars
    have hversion : ∀ cib v, parseChars cm filename (frameChars cib) (versionChars cib) = some v ↔
        ∃ es, DigitsOf cm ((filename.drop (frameChars cib)).take (versionChars cib)) es ∧ v = (value es : Int) := by
      intro cib v
      have hadd := chars_add cib
      exact parseChars_iff (by omega) (by cases cib <;> decide)
    simp only [Option.bind_eq_some_iff, Option.map_eq_some_iff]
    constructor
    · rintro ⟨cib, hseries, v, hv, w, hw, rfl⟩
      obtain ⟨ds, hds, rfl⟩ := (hframe cib v).1 hv
      obtain ⟨es, hes, rfl⟩ := (hversion cib w).1 hw
      exact ⟨cib, ds, es, ⟨hlen, hseries, hds, hes⟩, rfl⟩
    · rintro ⟨cib, ds, es, ⟨_, hseries, hds, hes⟩, rfl⟩
      exact ⟨cib, hseries, _, (hframe cib _).2 ⟨ds, hds, rfl⟩, _, (hversion cib _).2 ⟨es, hes, rfl⟩, rfl⟩
  · rw [if_pos (by simpa [FILENAME_LENGTH] using hlen)]
    constructor
    · rintro ⟨⟩
    · rintro ⟨_, _, _, hacc, _⟩
      exact absurd hacc.length_eq hlen

section
variable {f g : JavaString} {cib cib' : Bool} {ds es ds' es' : List Nat}

theorem Accepted.frame_length (hf : Accepted cm f cib ds es) : ds.length = frameChars cib := by
  have hadd := chars_add cib
  rw [← hf.frame.length_eq, List.length_take, hf.length_eq]
  omega

theorem Accepted.version_length (hf : Accepted cm f cib ds es) : es.length = versionChars cib := by
  have hadd := chars_add cib
  rw [← hf.version.length_eq, List.length_take, List.length_drop, hf.length_eq]
  omega

/-- The first seven characters are the digits of both numbers. -/
theorem Accepted.digits (hf : Accepted cm f cib ds es) : DigitsOf cm (f.take 7) (ds ++ es) := by
  have happ : f.take 7 = f.take (frameChars cib) ++ (f.drop (frameChars cib)).take (versionChars cib) := by
    rw [← chars_add cib, List.take_add]
  rw [happ]
  exact List.rel_append hf.frame hf.version

theorem Accepted.digit (hf : Accepted cm f cib ds es) {i : Nat} (hi : i < 7) :
    indexOf (cm.toUpperCase (f.getD i 0)) = some (((ds ++ es).getD i 0 : Nat) : Int) := by
  have hlen := hf.length_eq
  have hget : (f.take 7).getD i 0 = f.getD i 0 := by
    rw [List.getD_eq_getElem?_getD, List.getD_eq_getElem?_getD, List.getElem?_take_of_lt hi]
  rw [← hget]
  exact hf.digits.getD (by rw [List.length_take]; omega)

theorem Accepted.digits_length (hf : Accepted cm f cib ds es) : (ds ++ es).length = 7 := by
  rw [List.length_append, hf.frame_length, hf.version_length, chars_add]

variable (cm) in
/-- The characters of the names agree up to case, but for the period's. -/
def SameUpToCase (f g : JavaString) : Prop :=
  ∀ i < 12, i ≠ 8 → cm.toUpperCase (f.getD i 0) = cm.toUpperCase (g.getD i 0)

theorem code_getD (hf : f.length = 12) : (f.drop 9).take 2 = [f.getD 9 0, f.getD 10 0] := by
  rw [List.drop_eq_getElem_cons (i := 9) (by omega), List.drop_eq_getElem_cons (i := 10) (by omega)]
  simp only [List.take_succ_cons, List.take_zero, List.getD_eq_getElem?_getD,
    List.getElem?_eq_getElem (show 9 < f.length by omega), List.getElem?_eq_getElem (show 10 < f.length by omega),
    Option.getD_some]

/-- Codes that are equal up to case are equal, since both are in capitals. -/
theorem code_eq_iff (hf : Accepted cm f cib ds es) (hg : Accepted cm g cib' ds' es') :
    (f.drop 9).take 2 = (g.drop 9).take 2 ↔
      ∀ i, i = 9 ∨ i = 10 → cm.toUpperCase (f.getD i 0) = cm.toUpperCase (g.getD i 0) := by
  obtain ⟨_, hcap⟩ := capital_of_isCIBDataSeries hf.series
  obtain ⟨_, hcap'⟩ := capital_of_isCIBDataSeries hg.series
  rw [code_getD hf.length_eq] at hcap ⊢
  rw [code_getD hg.length_eq] at hcap' ⊢
  constructor
  · intro h i hi
    obtain ⟨h9, h10⟩ : f.getD 9 0 = g.getD 9 0 ∧ f.getD 10 0 = g.getD 10 0 := by simpa using h
    rcases hi with rfl | rfl
    · rw [h9]
    · rw [h10]
  · intro h
    have h9 := h 9 (.inl rfl)
    have h10 := h 10 (.inr rfl)
    rw [CaseMap.toUpperCase_capital (hcap _ (by simp)), CaseMap.toUpperCase_capital (hcap' _ (by simp))] at h9 h10
    rw [h9, h10]

theorem same_series (hf : Accepted cm f cib ds es) (hg : Accepted cm g cib' ds' es')
    (h : (f.drop 9).take 2 = (g.drop 9).take 2) : cib = cib' := by
  have hs := hf.series
  rw [h, hg.series] at hs
  exact (Option.some.inj hs).symm

/-- Names that agree up to case have the same series and numbers. -/
theorem SameUpToCase.fields (h : SameUpToCase cm f g) (hf : Accepted cm f cib ds es)
    (hg : Accepted cm g cib' ds' es') :
    (f.drop 9).take 2 = (g.drop 9).take 2 ∧ ds = ds' ∧ es = es' := by
  have hcode := (code_eq_iff hf hg).2 fun i hi => h i (by omega) (by omega)
  obtain rfl := same_series hf hg hcode
  have happ : ds ++ es = ds' ++ es' := by
    refine List.ext_getElem (by rw [hf.digits_length, hg.digits_length]) fun i h1 h2 => ?_
    have hi : i < 7 := by rwa [hf.digits_length] at h1
    have hf' := hf.digit hi
    rw [h i (by omega) (by omega), hg.digit hi] at hf'
    simpa [List.getD_eq_getElem?_getD, List.getElem?_eq_getElem h1, List.getElem?_eq_getElem h2] using hf'.symm
  exact ⟨hcode, List.append_inj happ (by rw [hf.frame_length, hg.frame_length])⟩

/-- Equal objects come from names that agree up to case. -/
theorem equals_iff (hf : Accepted cm f cib ds es) (hg : Accepted cm g cib' ds' es') :
    (fields f ds es).equals cm (fields g ds' es') = true ↔ SameUpToCase cm f g := by
  obtain ⟨_, hcap⟩ := capital_of_isCIBDataSeries hf.series
  obtain ⟨_, hcap'⟩ := capital_of_isCIBDataSeries hg.series
  rw [equals, decide_eq_true_eq]
  simp only [fields]
  constructor
  · rintro ⟨hzone, hframe, hcode, hproducer, hversion⟩
    have hcode := CaseMap.eq_of_equalsIgnoreCase hcap hcap' hcode
    obtain rfl := same_series hf hg hcode
    have hds : ds = ds' := value_inj (by rw [hf.frame_length, hg.frame_length]) hf.frame.lt hg.frame.lt
      (by exact_mod_cast hframe)
    have hes : es = es' := value_inj (by rw [hf.version_length, hg.version_length]) hf.version.lt hg.version.lt
      (by exact_mod_cast hversion)
    subst hds hes
    intro i hi h8
    by_cases h7 : i < 7
    · exact indexOf_inj (hf.digit h7) (hg.digit h7)
    · obtain rfl | hi | rfl : i = 7 ∨ (i = 9 ∨ i = 10) ∨ i = 11 := by omega
      · exact hproducer
      · exact (code_eq_iff hf hg).1 hcode i hi
      · exact hzone
  · intro h
    obtain ⟨hcode, rfl, rfl⟩ := h.fields hf hg
    rw [hcode]
    exact ⟨h 11 (by decide) (by decide), rfl, CaseMap.equalsIgnoreCase_self _, h 7 (by decide) (by decide), rfl⟩

end

/-! ## Hashes -/

theorem int_mul_add (x y : Int) : int (29 * int x + y) = int (29 * x + y) := by
  have hmod := int_mod x
  rw [← int_emod (29 * int x + y), ← int_emod (29 * x + y)]
  congr 1
  omega

/-- The hash without the wrapping between the steps. -/
theorem computeHash_eq (a : RPFFrameFilename) :
    a.computeHash = int (29 ^ 4 * Lib.JavaChar.hashCode a.dataSeriesCode + 29 ^ 3 * a.frameNumber +
      29 ^ 2 * a.producerId.toNat + 29 * a.version + a.zoneCode.toNat) := by
  simp only [computeHash, int_mul_add]
  congr 1
  ring

/-- Every call returns the hash. -/
theorem hashCode_calls (a : RPFFrameFilename) (n : Nat) : a.hashCode^[n + 1] (-1) = a.computeHash := by
  induction n with
  | zero => rfl
  | succ n ih =>
    rw [Function.iterate_succ_apply', ih, hashCode]
    split <;> rfl

/-- With the same series and numbers only the producers and the zones count. -/
theorem computeHash_eq_iff {a b : RPFFrameFilename} (hcode : a.dataSeriesCode = b.dataSeriesCode)
    (hframe : a.frameNumber = b.frameNumber) (hversion : a.version = b.version) :
    a.computeHash = b.computeHash ↔
      841 * ((a.producerId.toNat : Int) - b.producerId.toNat) + (a.zoneCode.toNat - b.zoneCode.toNat) = 0 := by
  have h1 := a.producerId.toNat_lt
  have h2 := b.producerId.toNat_lt
  have h3 := a.zoneCode.toNat_lt
  have h4 := b.zoneCode.toNat_lt
  rw [computeHash_eq, computeHash_eq, hcode, hframe, hversion]
  generalize 29 ^ 4 * Lib.JavaChar.hashCode b.dataSeriesCode + 29 ^ 3 * b.frameNumber = s
  constructor
  · intro h
    have hmod := congrArg (· % (2 ^ 32 : Int)) h
    simp only [int_mod] at hmod
    omega
  · intro h
    congr 1
    omega

/-! ## A name written again -/

/-- The parts of a written name. -/
theorem name_parts {chars code : JavaString} {p z : UInt16} (hchars : chars.length = 7) (hcode : code.length = 2) :
    (chars ++ [p] ++ ascii "." ++ code ++ [z]).length = 12 ∧
      ((chars ++ [p] ++ ascii "." ++ code ++ [z]).drop 9).take 2 = code ∧
      (chars ++ [p] ++ ascii "." ++ code ++ [z]).getD 7 0 = p ∧
      (chars ++ [p] ++ ascii "." ++ code ++ [z]).getD 11 0 = z ∧
      ∀ i ≤ 7, (chars ++ [p] ++ ascii "." ++ code ++ [z]).take i = chars.take i := by
  obtain ⟨c, d, rfl⟩ := List.length_eq_two.1 hcode
  have hdot : ascii "." = [46] := by decide
  have hdrop : chars.drop 9 = [] := List.drop_of_length_le (by omega)
  rw [hdot]
  refine ⟨?_, ?_, ?_, ?_, fun i hi => ?_⟩
  · simp [hchars]
  · simp [List.drop_append, hchars, hdrop]
  · simp [List.getD_eq_getElem?_getD, hchars]
  · simp [List.getD_eq_getElem?_getD, hchars]
  · simp only [List.append_assoc]
    exact List.take_append_of_le_length (by omega)

/-- The name of an accepted one's fields: its digits in capitals, the rest as
it was, and a period. -/
theorem getFilename_fields {f : JavaString} {cib : Bool} {ds es : List Nat} (hf : Accepted cm f cib ds es) :
    (fields f ds es).getFilename cm =
      some ((ds ++ es).map charOf ++ [f.getD 7 0] ++ ascii "." ++ (f.drop 9).take 2 ++ [f.getD 11 0]) := by
  have hadd := chars_add cib
  have hdlen := hf.frame_length
  have helen := hf.version_length
  have hframe := @valueOf_value ds (List.replicate FILENAME_LENGTH 0) 0 hf.frame.lt
    (by rw [List.length_replicate, FILENAME_LENGTH]; omega)
  have hversion := @valueOf_value es (ds.map charOf ++ List.replicate (12 - ds.length) 0) ds.length
    hf.version.lt (by rw [List.length_append, List.length_map, List.length_replicate]; omega)
  rw [List.take_zero, List.nil_append, List.drop_replicate, Nat.zero_add, FILENAME_LENGTH, hdlen] at hframe
  rw [List.take_left' (List.length_map _), ← List.map_append, hdlen, helen] at hversion
  have htake : ∀ rest : JavaString, ((ds ++ es).map charOf ++ rest).take 7 = (ds ++ es).map charOf :=
    fun rest => List.take_left' (by rw [List.length_map, hf.digits_length])
  rw [getFilename]
  simp only [fields, hf.series, FILENAME_LENGTH, Option.bind_some, hframe, hversion, Option.map_some, htake,
    List.take_take, Nat.min_self]

/-- Writing an accepted name and reading it gives the same fields. -/
theorem parseFilename_getFilename {f : JavaString} {a : RPFFrameFilename} (hf : parseFilename cm f = some a) :
    ∃ name, a.getFilename cm = some name ∧ parseFilename cm name = some a := by
  obtain ⟨cib, ds, es, hacc, rfl⟩ := parseFilename_iff.1 hf
  have hadd := chars_add cib
  have hdlen := hacc.frame_length
  have hcode : ((f.drop 9).take 2).length = 2 := (capital_of_isCIBDataSeries hacc.series).1
  obtain ⟨hlen, hseries, hproducer, hzone, htake⟩ := name_parts (p := f.getD 7 0) (z := f.getD 11 0)
    (show ((ds ++ es).map charOf).length = 7 by rw [List.length_map, hacc.digits_length]) hcode
  refine ⟨_, getFilename_fields hacc, parseFilename_iff.2 ⟨cib, ds, es, ⟨hlen, ?_, ?_, ?_⟩, ?_⟩⟩
  · rw [hseries]
    exact hacc.series
  · rw [htake _ (by omega), List.map_append, List.take_left' (by rw [List.length_map, hdlen])]
    exact digitsOf_charOf hacc.frame.lt
  · rw [List.take_drop, hadd, htake 7 (by decide), List.map_append, List.take_of_length_le, List.drop_left']
    · exact digitsOf_charOf hacc.version.lt
    · rw [List.length_map, hdlen]
    · rw [← List.map_append, List.length_map, hacc.digits_length]
  · rw [fields, fields, hseries, hproducer, hzone]

/-- **Equal names have equal hashes exactly if the producers and the zones add
up to the same.** For ASCII names: if these two characters agree in case. The
name written again always gives an equal object. -/
theorem equals_hashCode_iff (cm : CaseMap) (f g : JavaString) (a b : RPFFrameFilename)
    (hf : parseFilename cm f = some a) (hg : parseFilename cm g = some b) :
    ((a.equals cm b = true → ∀ m n, a.hashCode^[m + 1] (-1) = b.hashCode^[n + 1] (-1)) ∧
        ∃ name c, a.getFilename cm = some name ∧ parseFilename cm name = some c ∧ c.equals cm a = true) ↔
      (SameUpToCase cm f g →
        841 * (((f.getD 7 0).toNat : Int) - (g.getD 7 0).toNat) + ((f.getD 11 0).toNat - (g.getD 11 0).toNat) =
          0) := by
  obtain ⟨name, hname, hparse⟩ := parseFilename_getFilename hf
  obtain ⟨cib, ds, es, hacc, rfl⟩ := parseFilename_iff.1 hf
  obtain ⟨cib', ds', es', hacc', rfl⟩ := parseFilename_iff.1 hg
  have hself := (equals_iff hacc hacc).2 fun _ _ _ => rfl
  have hhash : SameUpToCase cm f g → ((fields f ds es).computeHash = (fields g ds' es').computeHash ↔
      841 * (((f.getD 7 0).toNat : Int) - (g.getD 7 0).toNat) + ((f.getD 11 0).toNat - (g.getD 11 0).toNat) = 0) := by
    intro h
    obtain ⟨hcode, rfl, rfl⟩ := h.fields hacc hacc'
    exact computeHash_eq_iff hcode rfl rfl
  simp only [hashCode_calls]
  constructor
  · rintro ⟨h, -⟩ hsame
    exact (hhash hsame).1 (h ((equals_iff hacc hacc').2 hsame) 0 0)
  · intro h
    refine ⟨fun heq _ _ => ?_, name, _, hname, hparse, hself⟩
    have hsame := (equals_iff hacc hacc').1 heq
    exact (hhash hsame).2 (h hsame)

theorem parse_upper :
    parseFilename .asciiOnly (ascii "0000A01C.GNA") = some ⟨ascii "GN", 10, 67, 1, 65⟩ := by
  decide +kernel

theorem parse_lower :
    parseFilename .asciiOnly (ascii "0000a01C.GNa") = some ⟨ascii "GN", 10, 67, 1, 97⟩ := by
  decide +kernel

/-- The case of a digit does not count. -/
theorem equals_hashCode_lowerDigit :
    (⟨ascii "GN", 10, 67, 1, 65⟩ : RPFFrameFilename).equals .asciiOnly ⟨ascii "GN", 10, 67, 1, 65⟩ = true ∧
      (⟨ascii "GN", 10, 67, 1, 65⟩ : RPFFrameFilename).hashCode^[1] (-1) =
        (⟨ascii "GN", 10, 67, 1, 65⟩ : RPFFrameFilename).hashCode^[3] (-1) := by
  have hequal : (⟨ascii "GN", 10, 67, 1, 65⟩ : RPFFrameFilename).equals .asciiOnly
      ⟨ascii "GN", 10, 67, 1, 65⟩ = true := by
    decide +kernel
  exact ⟨hequal, ((equals_hashCode_iff .asciiOnly (ascii "0000A01C.GNA") (ascii "0000a01C.GNA") _ _ parse_upper
    (by decide +kernel)).2 fun _ => by decide).1 hequal 0 2⟩

/-- Two spellings of one name are equal and have different hashes: the zone is
A in one and a in the other. -/
theorem equal_names_differ_in_hash :
    ∃ f g a b, parseFilename .asciiOnly f = some a ∧ parseFilename .asciiOnly g = some b ∧
      a.equals .asciiOnly b = true ∧ a.hashCode (-1) ≠ b.hashCode (-1) := by
  refine ⟨_, _, _, _, parse_upper, parse_lower, by decide +kernel, ?_⟩
  have hne := computeHash_eq_iff (a := ⟨ascii "GN", 10, 67, 1, 65⟩) (b := ⟨ascii "GN", 10, 67, 1, 97⟩) rfl rfl rfl
  intro h
  rw [hashCode, hashCode, if_pos (by decide), if_pos (by decide), hne] at h
  exact absurd h (by decide)

end RPFFrameFilename

end WorldWind.Rpf
