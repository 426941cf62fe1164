import Mathlib.Data.Nat.Cast.Defs
/-!
# Names for the instances of numerals

The numeral `2` of a field and the numerals of `Fin 4` come with a proof that the
number is large enough. Where these instances are open, a definition refers to that
proof by its name instead of having one of its own.
-/

namespace WorldWind.Lib.Numerals

scoped instance two : Nat.AtLeastTwo 2 := inferInstance

scoped instance four : Nat.AtLeastTwo 4 := inferInstance

scoped instance ninety : Nat.AtLeastTwo 90 := inferInstance

scoped instance halfCircle : Nat.AtLeastTwo 180 := inferInstance

scoped instance fullCircle : Nat.AtLeastTwo 360 := inferInstance

scoped instance fin4 : @NeZero Nat Zero.ofOfNat0 4 := ⟨Nat.succ_ne_zero 3⟩

scoped instance fin16 : @NeZero Nat Zero.ofOfNat0 16 := ⟨Nat.succ_ne_zero 15⟩

end WorldWind.Lib.Numerals
