import Mathlib

set_option autoImplicit false

/-! # Registries

A registry assigns values to keys and only ever grows. Carriers that all agree with one registry
agree with each other, however many there are and wherever they got their value from; a registry
that grows by a fresh key keeps every carrier sound. -/

namespace DaConcept

/-- A partial assignment of values to keys. -/
def Registry (κ ν : Type) := κ → Option ν

namespace Registry

variable {κ ν : Type}

/-- The registry without a key. -/
def empty : Registry κ ν := fun _ => none

/-- The registry assigns the value to the key. -/
def Knows (r : Registry κ ν) (k : κ) (v : ν) : Prop := r k = some v

/-- Everything `r` knows, `r'` knows. -/
def ExtendedBy (r r' : Registry κ ν) : Prop := ∀ k v, r.Knows k v → r'.Knows k v

/-- Assign a value to a key. -/
def register [DecidableEq κ] (r : Registry κ ν) (k : κ) (v : ν) : Registry κ ν :=
  fun k' => if k' = k then some v else r k'

theorem not_knows_empty {k : κ} {v : ν} : ¬ (empty : Registry κ ν).Knows k v := nofun

/-- Two carriers of one key have the same value. -/
theorem Knows.unique {r : Registry κ ν} {k : κ} {v w : ν} (hv : r.Knows k v) (hw : r.Knows k w) :
    v = w := Option.some.inj (Eq.trans (Eq.symm hv) hw)

theorem ExtendedBy.refl (r : Registry κ ν) : r.ExtendedBy r := fun _ _ h => h

variable [DecidableEq κ]

/-- What is known after registering a key is that key, or was known. -/
theorem knows_register_iff {r : Registry κ ν} {k k' : κ} {v v' : ν} :
    (r.register k v).Knows k' v' ↔ (k' = k ∧ v' = v) ∨ (k' ≠ k ∧ r.Knows k' v') := by
  rw [Knows, register]
  by_cases hk : k' = k
  · rw [if_pos hk]
    simp [hk, eq_comm]
  · rw [if_neg hk]
    simp [hk, Knows]

theorem knows_register (r : Registry κ ν) (k : κ) (v : ν) : (r.register k v).Knows k v :=
  knows_register_iff.2 (Or.inl ⟨rfl, rfl⟩)

/-- Registering a key that is not known loses nothing. -/
theorem extendedBy_register {r : Registry κ ν} {k : κ} (h : ∀ v, ¬ r.Knows k v) (v : ν) :
    r.ExtendedBy (r.register k v) := by
  intro k' v' hknows
  have hne : k' ≠ k := by
    rintro rfl
    exact h v' hknows
  exact knows_register_iff.2 (Or.inr ⟨hne, hknows⟩)

end Registry

end DaConcept
