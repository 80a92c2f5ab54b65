import Mathlib

set_option autoImplicit false

/-! # Replication from the origin

A store of sites `ι` that hold values `α` under keys `κ`. A value is put under a fresh key at one
site, the origin of the key, and may be withdrawn there. As long as it has not been, the origin may
offer it to other sites, and a site that has been offered a value may copy it. Nobody but the origin
offers anything, so a withdrawal bounds where a value can get to. -/

namespace DaConcept

/-- What has happened in the store so far. -/
@[ext] structure Replication (ι κ α : Type) where
  /-- Where a key was put, and with which value. -/
  origin : κ → Option (ι × α)
  /-- The keys whose value was withdrawn at its origin. -/
  withdrawn : Set κ
  /-- To whom the origin has offered which value. -/
  offered : Set (ι × κ)
  /-- Who has copied which value. -/
  copied : Set (ι × κ)

namespace Replication

variable {ι κ α : Type}

/-- The store in which nothing has happened. -/
def empty : Replication ι κ α := ⟨fun _ => none, ∅, ∅, ∅⟩

/-- What can happen next. -/
inductive Step [DecidableEq κ] (r : Replication ι κ α) : Replication ι κ α → Prop
  | put (i : ι) (k : κ) (a : α) (hfresh : r.origin k = none) :
      Step r { r with origin := Function.update r.origin k (some (i, a)) }
  | withdraw (k : κ) (hput : (r.origin k).isSome) :
      Step r { r with withdrawn := insert k r.withdrawn }
  | offer (i : ι) (k : κ) (hput : (r.origin k).isSome) (hthere : k ∉ r.withdrawn) :
      Step r { r with offered := insert (i, k) r.offered }
  | copy (i : ι) (k : κ) (hoffered : (i, k) ∈ r.offered) :
      Step r { r with copied := insert (i, k) r.copied }

/-- The store can come to this state. -/
abbrev Leads [DecidableEq κ] (r r' : Replication ι κ α) : Prop := Relation.ReflTransGen Step r r'

/-! ## What stays -/

/-- Everything that has happened has happened. -/
structure Extends (r r' : Replication ι κ α) : Prop where
  origin : ∀ k p, r.origin k = some p → r'.origin k = some p
  withdrawn : r.withdrawn ⊆ r'.withdrawn
  offered : r.offered ⊆ r'.offered
  copied : r.copied ⊆ r'.copied

theorem Extends.refl (r : Replication ι κ α) : r.Extends r :=
  ⟨fun _ _ h => h, subset_rfl, subset_rfl, subset_rfl⟩

theorem Extends.trans {r₁ r₂ r₃ : Replication ι κ α} (h : r₁.Extends r₂) (h' : r₂.Extends r₃) :
    r₁.Extends r₃ where
  origin k p hp := h'.origin k p (h.origin k p hp)
  withdrawn := h.withdrawn.trans h'.withdrawn
  offered := h.offered.trans h'.offered
  copied := h.copied.trans h'.copied

variable [DecidableEq κ]

theorem Step.extends {r r' : Replication ι κ α} (h : r.Step r') : r.Extends r' := by
  have hrefl := Extends.refl r
  cases h with
  | put i k a hfresh =>
      refine { hrefl with origin := fun k' p hp => ?_ }
      have hne : k' ≠ k := by
        rintro rfl
        rw [hfresh] at hp
        cases hp
      exact (Function.update_of_ne hne _ _).trans hp
  | withdraw k => exact { hrefl with withdrawn := Set.subset_insert _ _ }
  | offer i k => exact { hrefl with offered := Set.subset_insert _ _ }
  | copy i k => exact { hrefl with copied := Set.subset_insert _ _ }

theorem Leads.extends {r r' : Replication ι κ α} (h : r.Leads r') : r.Extends r' := by
  induction h with
  | refl => exact .refl r
  | tail _ hlast ih => exact ih.trans hlast.extends

/-! ## Where a value can get to -/

/-- Only what has been put is offered, and only what has been offered is copied. -/
structure Sound (r : Replication ι κ α) : Prop where
  offered : ∀ i k, (i, k) ∈ r.offered → (r.origin k).isSome
  copied : r.copied ⊆ r.offered

omit [DecidableEq κ] in
theorem sound_empty : (empty : Replication ι κ α).Sound where
  offered _ _ h := h.elim
  copied := subset_rfl

theorem Sound.step {r r' : Replication ι κ α} (hr : r.Sound) (h : r.Step r') : r'.Sound := by
  have hput {k : κ} (hk : (r.origin k).isSome) : (r'.origin k).isSome := by
    obtain ⟨p, hp⟩ := Option.isSome_iff_exists.1 hk
    rw [h.extends.origin k p hp]
    rfl
  cases h with
  | put i k a hfresh => exact ⟨fun j k' hj => hput (hr.offered j k' hj), hr.copied⟩
  | withdraw k => exact ⟨hr.offered, hr.copied⟩
  | offer i k hthere =>
      refine ⟨fun j k' hj => ?_, hr.copied.trans (Set.subset_insert _ _)⟩
      rcases hj with hnew | hold
      · obtain ⟨rfl, rfl⟩ := Prod.mk.inj hnew
        exact hthere
      · exact hr.offered j k' hold
  | copy i k hoffered =>
      exact ⟨hr.offered, Set.insert_subset hoffered hr.copied⟩

theorem Sound.leads {r r' : Replication ι κ α} (hr : r.Sound) (h : r.Leads r') : r'.Sound := by
  induction h with
  | refl => exact hr
  | tail _ hlast ih => exact ih.step hlast

/-- Once a value has been withdrawn, it is not offered any more. -/
theorem Leads.offered_of_withdrawn {r r' : Replication ι κ α} (h : r.Leads r') {k : κ}
    (hk : k ∈ r.withdrawn) {i : ι} (hi : (i, k) ∈ r'.offered) : (i, k) ∈ r.offered := by
  induction h with
  | refl => exact hi
  | @tail r₁ r₂ hfirst hlast ih =>
      refine ih ?_
      cases hlast with
      | offer j k' hput hthere =>
          rcases hi with hnew | hold
          · obtain ⟨rfl, rfl⟩ := Prod.mk.inj hnew
            exact absurd ((Leads.extends hfirst).withdrawn hk) hthere
          · exact hold
      | _ => exact hi

/-- **After a withdrawal only those get a copy to whom the value had been offered.** -/
theorem Leads.copied_of_withdrawn {r r' : Replication ι κ α} (hr : r.Sound) (h : r.Leads r') {k : κ}
    (hk : k ∈ r.withdrawn) {i : ι} (hi : (i, k) ∈ r'.copied) : (i, k) ∈ r.offered :=
  h.offered_of_withdrawn hk ((hr.leads h).copied hi)

end Replication

end DaConcept
