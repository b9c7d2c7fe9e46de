import OfdmBurst.Proofs.Stream.Record

/-!
# Comparing records

Machine numbers compare by value: a number may differ from itself, and two numbers with different
bits may be the same. Whether two records are equal is another question, and it is decided by the
bits.
-/

namespace OfdmBurst

instance decidableEqFloat32 : DecidableEq Float32 := fun x y =>
  decidable_of_iff (x.toModel.toBits = y.toModel.toBits) ⟨fun h => by
    obtain ⟨bits, _⟩ := x
    obtain ⟨bits', _⟩ := y
    cases h
    rfl, fun h => h ▸ rfl⟩

instance decidableEqFloat : DecidableEq Float := fun x y =>
  decidable_of_iff (x.toModel.toBits = y.toModel.toBits) ⟨fun h => by
    obtain ⟨bits, _⟩ := x
    obtain ⟨bits', _⟩ := y
    cases h
    rfl, fun h => h ▸ rfl⟩

deriving instance DecidableEq for Timestamp, Tag.Value, Tag, Record

end OfdmBurst
