import WorldWind.Lib.Nio
/-!
# Loops over a `ByteBuffer`

More of what a program reads from a buffer: numbers of all sizes, parts of a
given length, and loops that read one record after another. A loop over an
index that keeps an invariant reads the records of its indices (`reads_range`).
-/

namespace WorldWind.Lib.Nio

open JavaInt

/-- The `long` an exact result wraps to. -/
@[irreducible] def long (x : Int) : Int := x.bmod (2 ^ 64)

/-- Eight bytes as an unsigned number. -/
def ulongOf (order : ByteOrder) (l : List Int8) : Nat :=
  match order with
  | .bigEndian => wordOf (l.take 4) * 2 ^ 32 + wordOf (l.drop 4)
  | .littleEndian => wordOf (l.drop 4).reverse * 2 ^ 32 + wordOf (l.take 4).reverse

theorem long_emod (x : Int) : long (x % 2 ^ 64) = long x := by
  have := Int.emod_bmod x (2 ^ 64)
  unfold long
  exact_mod_cast this

/-- The bits of a `long`. -/
theorem long_mod (x : Int) : long x % 2 ^ 64 = x % 2 ^ 64 := by
  have := Int.bmod_emod (x := x) (m := 2 ^ 64)
  unfold long
  exact_mod_cast this

theorem wordBytes_mod (n : Nat) : wordOf (wordBytes n) = n % 2 ^ 32 := by
  simp only [wordBytes, wordOf, ubyte_byte]
  omega

theorem ulongOf_longBytes (order : ByteOrder) (x : Int) : (ulongOf order (longBytes order x) : Int) = x % 2 ^ 64 := by
  have hlen : ∀ n, (wordBytes n).length = 4 := fun n => rfl
  have hlen' : ∀ n, (wordBytes n).reverse.length = 4 := fun n => rfl
  cases order with
  | bigEndian =>
    simp only [longBytes, ulongOf, List.take_left' (hlen _), List.drop_left' (hlen _), wordBytes_mod]
    omega
  | littleEndian =>
    simp only [longBytes, ulongOf, List.take_left' (hlen' _), List.drop_left' (hlen' _), List.reverse_reverse,
      wordBytes_mod]
    omega

theorem intOf_intBytes_int (order : ByteOrder) (x : Int) : intOf order (intBytes order x) = int x := by
  rw [← intBytes_int, intOf_intBytes order (le_int x) (int_lt x)]

theorem shortOf_shortBytes_short (order : ByteOrder) (x : Int) : shortOf order (shortBytes order x) = short x := by
  have hn : ((x % 2 ^ 16).toNat : Int) = x % 2 ^ 16 := Int.toNat_of_nonneg (by omega)
  have hbytes : shortBytes order x = shortBytes order ((x % 2 ^ 16).toNat : Nat) := by
    unfold shortBytes
    rw [hn, Int.emod_emod_of_dvd _ (dvd_refl _)]
  have hshort : short (x % 2 ^ 16) = short x := by
    have := Int.emod_bmod x (2 ^ 16)
    unfold short
    exact_mod_cast this
  rw [shortOf, hbytes, ushortOf_shortBytes order (by omega), hn, hshort]

namespace ByteBuffer

def getLong (b : ByteBuffer) : Option (Int × ByteBuffer) :=
  (b.get 8).map fun r => (long (ulongOf b.order r.1), r.2)

section

variable {order : ByteOrder} {p : Nat}

/-- A part of a given length. -/
theorem reads_get {x : List Int8} {n : Nat} (h : x.length = n) : Reads order p (fun b => b.get n) x x := by
  subst h
  rintro b rest hv rfl rfl hr
  obtain ⟨c, hget, hcv, hrest, rfl⟩ := get_remaining hv hr
  exact ⟨_, hget, hcv, rfl, rfl, hrest⟩

theorem Reads.map {α β : Type*} {f : ByteBuffer → Option (α × ByteBuffer)} {x : List Int8} {v : α}
    (hf : Reads order p f x v) {k : ByteBuffer → α → β} (w : β) (hk : ∀ b : ByteBuffer, b.order = order → k b v = w) :
    Reads order p (fun b => (f b).map fun r => (k b r.1, r.2)) x w := by
  intro b rest hv ho hp hr
  obtain ⟨c, hfc, hrest⟩ := hf b rest hv ho hp hr
  refine ⟨c, ?_, hrest⟩
  simp only [hfc, Option.map_some, hk b ho]

theorem reads_getInt_int (v : Int) : Reads order p getInt (intBytes order v) (int v) := by
  refine (reads_get (intBytes_length order v)).map (k := fun b x => intOf b.order x) _ fun b hb => ?_
  rw [hb, intOf_intBytes_int]

theorem reads_getShort (v : Int) : Reads order p getShort (shortBytes order v) (short v) := by
  refine (reads_get (shortBytes_length order v)).map (k := fun b x => shortOf b.order x) _ fun b hb => ?_
  rw [hb, shortOf_shortBytes_short]

theorem reads_getLong (v : Int) : Reads order p getLong (longBytes order v) (long v) := by
  refine (reads_get (longBytes_length order v)).map (k := fun b x => long (ulongOf b.order x)) _ fun b hb => ?_
  rw [hb, ulongOf_longBytes, long_emod]

theorem reads_nothing {α : Type*} (v : α) : Reads order p (fun b => some (v, b)) [] v := by
  intro b rest hv ho hp hr
  exact ⟨b, rfl, hv, ho, by simpa using hp, by simpa using hr⟩

/-- A loop over an index that reads a record at each index and keeps an
invariant. -/
theorem reads_range {σ : Type} {step : Nat → σ → ByteBuffer → Option (σ × ByteBuffer)} {x : Nat → List Int8}
    (inv : Nat → σ → Prop) {n : Nat}
    (hstep : ∀ i s p, i < n → inv i s → ∃ s', Reads order p (step i s) (x i) s' ∧ inv (i + 1) s')
    {s : σ} (h0 : inv 0 s) (p : Nat) :
    ∃ s', Reads order p (fun b => (List.range n).foldlM (fun r i => step i r.1 r.2) (s, b))
      ((List.range n).flatMap x) s' ∧ inv n s' := by
  induction n with
  | zero => exact ⟨s, reads_nothing s, h0⟩
  | succ n ih =>
    obtain ⟨t, ht, hinv⟩ := ih fun i s p hi => hstep i s p (Nat.lt_succ_of_lt hi)
    obtain ⟨t', ht', hinv'⟩ := hstep n t (p + ((List.range n).flatMap x).length) (Nat.lt_succ_self n) hinv
    refine ⟨t', ?_, hinv'⟩
    simp only [List.range_succ, List.flatMap_append, List.flatMap_singleton, List.foldlM_append]
    refine Reads.bind (g := fun r => [n].foldlM (fun r i => step i r.1 r.2) r) ht ?_
    intro b rest hv ho hp hr
    obtain ⟨c, hc, hrest⟩ := ht' b rest hv ho hp hr
    refine ⟨c, ?_, hrest⟩
    simp only [List.foldlM_cons, hc, Option.bind_eq_bind, Option.bind_some, List.foldlM_nil]
    rfl

end

end ByteBuffer

end WorldWind.Lib.Nio
