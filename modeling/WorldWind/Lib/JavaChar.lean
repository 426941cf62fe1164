import WorldWind.Lib.JavaInt
/-!
# `java.lang.Character` and strings

A `char` is a 16-bit number, a string a list of them. `toUpperCase` and
`toLowerCase` follow the tables of Unicode. What is relied on is that they map
the ASCII letters to each other and leave the other ASCII characters alone
(`CaseMap`); elsewhere they may be any maps.
-/

namespace WorldWind.Lib.JavaChar

open JavaInt

abbrev JavaString := List UInt16

/-- A literal of ASCII characters. -/
def ascii (s : String) : JavaString := s.toList.map fun c => c.toNat.toUInt16

/-- `String.hashCode`. -/
def hashCode (s : JavaString) : Int := s.foldl (fun h c => int (31 * h + c.toNat)) 0

/-- `Character.toUpperCase` and `Character.toLowerCase`. -/
structure CaseMap where
  toUpperCase : UInt16 → UInt16
  toLowerCase : UInt16 → UInt16
  upper_ascii : ∀ c, c.toNat < 128 →
    (toUpperCase c).toNat = if 97 ≤ c.toNat ∧ c.toNat ≤ 122 then c.toNat - 32 else c.toNat
  lower_ascii : ∀ c, c.toNat < 128 →
    (toLowerCase c).toNat = if 65 ≤ c.toNat ∧ c.toNat ≤ 90 then c.toNat + 32 else c.toNat

namespace CaseMap

/-- Only the ASCII letters are mapped. -/
def asciiOnly : CaseMap where
  toUpperCase c := if 97 ≤ c.toNat ∧ c.toNat ≤ 122 then (c.toNat - 32).toUInt16 else c
  toLowerCase c := if 65 ≤ c.toNat ∧ c.toNat ≤ 90 then (c.toNat + 32).toUInt16 else c
  upper_ascii c hc := by
    split
    · rw [UInt16.toNat_ofNat']
      omega
    · rfl
  lower_ascii c hc := by
    split
    · rw [UInt16.toNat_ofNat']
      omega
    · rfl

variable (cm : CaseMap)

/-- One character of `equalsIgnoreCase`. -/
def sameChar (c d : UInt16) : Bool :=
  c = d ∨ cm.toUpperCase c = cm.toUpperCase d ∨
    cm.toLowerCase (cm.toUpperCase c) = cm.toLowerCase (cm.toUpperCase d)

def equalsIgnoreCase (s t : JavaString) : Bool := s.length = t.length ∧ (s.zip t).all fun p => cm.sameChar p.1 p.2

/-- `String.CASE_INSENSITIVE_ORDER`. -/
def compareIgnoreCase : JavaString → JavaString → Int
  | c :: s, d :: t =>
    if cm.sameChar c d then compareIgnoreCase s t
    else (cm.toLowerCase (cm.toUpperCase c)).toNat - (cm.toLowerCase (cm.toUpperCase d)).toNat
  | s, t => s.length - t.length

/-- A digit or a capital letter. -/
def IsCapital (c : UInt16) : Prop := (48 ≤ c.toNat ∧ c.toNat ≤ 57) ∨ (65 ≤ c.toNat ∧ c.toNat ≤ 90)

instance : DecidablePred IsCapital := fun _ => inferInstanceAs (Decidable (_ ∨ _))

variable {cm}

theorem toUpperCase_capital {c : UInt16} (h : IsCapital c) : cm.toUpperCase c = c := by
  refine UInt16.toNat_inj.1 ?_
  rcases h with h | h
  · rw [cm.upper_ascii c (by omega), if_neg (by omega)]
  · rw [cm.upper_ascii c (by omega), if_neg (by omega)]

/-- Capitals that are equal up to case are equal. -/
theorem eq_of_sameChar {c d : UInt16} (hc : IsCapital c) (hd : IsCapital d) (h : cm.sameChar c d = true) : c = d := by
  have hlower : cm.toLowerCase c = cm.toLowerCase d → c = d := by
    intro hl
    have hnat := congrArg UInt16.toNat hl
    refine UInt16.toNat_inj.1 ?_
    have h1 : c.toNat < 128 := by rcases hc with hc | hc <;> omega
    have h2 : d.toNat < 128 := by rcases hd with hd | hd <;> omega
    rw [cm.lower_ascii c h1, cm.lower_ascii d h2] at hnat
    rcases hc with hc | hc <;> rcases hd with hd | hd
    · rwa [if_neg (by omega), if_neg (by omega)] at hnat
    · rw [if_neg (by omega), if_pos (by omega)] at hnat
      omega
    · rw [if_pos (by omega), if_neg (by omega)] at hnat
      omega
    · rw [if_pos (by omega), if_pos (by omega)] at hnat
      omega
  simp only [sameChar, toUpperCase_capital hc, toUpperCase_capital hd, decide_eq_true_eq] at h
  rcases h with h | h | h
  · exact h
  · exact h
  · exact hlower h

theorem equalsIgnoreCase_self (s : JavaString) : cm.equalsIgnoreCase s s = true := by
  simp only [equalsIgnoreCase, decide_eq_true_eq, List.all_eq_true, true_and]
  intro p hp
  have hp : p.1 = p.2 := by
    obtain ⟨i, hi, rfl⟩ := List.mem_iff_getElem.1 hp
    simp
  simp [sameChar, hp]

/-- What decides whether characters are equal up to case. -/
theorem sameChar_iff {c d : UInt16} :
    cm.sameChar c d = true ↔ cm.toLowerCase (cm.toUpperCase c) = cm.toLowerCase (cm.toUpperCase d) := by
  rw [sameChar, decide_eq_true_eq]
  constructor
  · rintro (h | h | h)
    · rw [h]
    · rw [h]
    · exact h
  · exact fun h => Or.inr (Or.inr h)

theorem equalsIgnoreCase_iff {s t : JavaString} : cm.equalsIgnoreCase s t = true ↔
    s.map (fun c => cm.toLowerCase (cm.toUpperCase c)) = t.map fun c => cm.toLowerCase (cm.toUpperCase c) := by
  rw [equalsIgnoreCase, decide_eq_true_eq]
  induction s generalizing t with
  | nil => cases t <;> simp
  | cons c s ih =>
    cases t with
    | nil => simp
    | cons d t =>
      rw [List.zip_cons_cons, List.all_cons, Bool.and_eq_true, sameChar_iff, List.map_cons, List.map_cons,
        List.cons.injEq, ← ih, List.length_cons, List.length_cons, Nat.add_right_cancel_iff]
      exact and_left_comm

/-- Strings of capitals that are equal up to case are equal. -/
theorem eq_of_equalsIgnoreCase {s t : JavaString} (hs : ∀ c ∈ s, IsCapital c) (ht : ∀ c ∈ t, IsCapital c)
    (h : cm.equalsIgnoreCase s t = true) : s = t := by
  simp only [equalsIgnoreCase, decide_eq_true_eq, List.all_eq_true] at h
  obtain ⟨hlen, hall⟩ := h
  refine List.ext_getElem hlen fun i h1 h2 => ?_
  have hmem : (s[i], t[i]) ∈ s.zip t := by
    rw [← List.getElem_zip (h := by rw [List.length_zip]; omega)]
    exact List.getElem_mem _
  exact eq_of_sameChar (hs _ (List.getElem_mem h1)) (ht _ (List.getElem_mem h2)) (hall _ hmem)

end CaseMap

end WorldWind.Lib.JavaChar
