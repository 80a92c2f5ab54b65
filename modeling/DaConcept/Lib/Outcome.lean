import Mathlib

set_option autoImplicit false

/-! # Outcomes of code that can fail or panic

A call returns a value, returns an error that its caller handles, or panics. `Outcome` keeps the
three apart, so that a theorem about a result says at once that no index was out of range and
that no `unwrap` met an error. Errors and panics both end a sequence of calls; only an error can
be turned back into a value. -/

namespace DaConcept

universe u v w

/-- What a call comes to: a value, an error, or a panic. -/
inductive Outcome (ε : Type u) (α : Type v) where
  | ok (a : α)
  | err (e : ε)
  | panic
deriving DecidableEq, Repr

namespace Outcome

variable {ε : Type u} {α β : Type v}

/-- Run `f` on the value of `x`; an error or a panic of `x` ends the sequence. -/
def bind (x : Outcome ε α) (f : α → Outcome ε β) : Outcome ε β :=
  match x with
  | .ok a => f a
  | .err e => .err e
  | .panic => .panic

instance : Monad (Outcome ε) where
  pure := .ok
  bind := bind

@[simp] theorem pure_eq (a : α) : (pure a : Outcome ε α) = .ok a := rfl

@[simp] theorem ok_bind (a : α) (f : α → Outcome ε β) : (Outcome.ok a >>= f) = f a := rfl

@[simp] theorem err_bind (e : ε) (f : α → Outcome ε β) :
    ((Outcome.err e : Outcome ε α) >>= f) = .err e := rfl

@[simp] theorem panic_bind (f : α → Outcome ε β) :
    ((Outcome.panic : Outcome ε α) >>= f) = .panic := rfl

theorem bind_assoc {γ : Type v} (x : Outcome ε α) (f : α → Outcome ε β) (g : β → Outcome ε γ) :
    ((x >>= f) >>= g) = x >>= fun a => f a >>= g := by
  cases x <;> rfl

/-- A sequence succeeds exactly when both of its parts do. -/
theorem bind_eq_ok {x : Outcome ε α} {f : α → Outcome ε β} {b : β} :
    (x >>= f) = .ok b ↔ ∃ a, x = .ok a ∧ f a = .ok b := by
  cases x with
  | ok a => simp
  | err e => simp
  | panic => simp

/-- A sequence panics when its first part does, or its second part on the value of the first. -/
theorem bind_eq_panic {x : Outcome ε α} {f : α → Outcome ε β} :
    (x >>= f) = .panic ↔ x = .panic ∨ ∃ a, x = .ok a ∧ f a = .panic := by
  cases x with
  | ok a => simp
  | err e => simp
  | panic => simp

/-- Two calls in a row succeed exactly when both do. -/
theorem bind₂_isOk_iff {γ : Type v} {x : Outcome ε α} {y : Outcome ε β} {f : α → β → γ} :
    (∃ c, (do let a ← x; let b ← y; pure (f a b)) = Outcome.ok c) ↔
      (∃ a, x = .ok a) ∧ ∃ b, y = .ok b := by
  cases x <;> cases y <;> simp

theorem bind₂_eq_panic {γ : Type v} {x : Outcome ε α} {y : Outcome ε β} {f : α → β → γ} :
    (do let a ← x; let b ← y; pure (f a b)) = (Outcome.panic : Outcome ε γ) ↔
      x = .panic ∨ (∃ a, x = .ok a) ∧ y = .panic := by
  cases x <;> cases y <;> simp

/-- The `?` operator: hand the error of a `Result` on to the caller. -/
def ofExcept : Except ε α → Outcome ε α
  | .ok a => .ok a
  | .error e => .err e

@[simp] theorem ofExcept_ok (a : α) : (ofExcept (.ok a) : Outcome ε α) = .ok a := rfl

@[simp] theorem ofExcept_error (e : ε) : (ofExcept (.error e) : Outcome ε α) = .err e := rfl

/-- `Result::unwrap`: an error becomes a panic. -/
def unwrap {δ : Type w} : Except δ α → Outcome ε α
  | .ok a => .ok a
  | .error _ => .panic

@[simp] theorem unwrap_ok {δ : Type w} (a : α) :
    (unwrap (.ok a : Except δ α) : Outcome ε α) = .ok a := rfl

/-- Indexing `xs[i]`: out of range it panics. -/
def index (xs : List α) (i : Nat) : Outcome ε α :=
  match xs[i]? with
  | some x => .ok x
  | none => .panic

theorem index_eq_ok {xs : List α} {i : Nat} (h : i < xs.length) :
    (index xs i : Outcome ε α) = .ok xs[i] := by
  simp [index, h]

/-- Indexing into the middle part of a concatenation looks at that part. -/
theorem index_append {pre mid post : List α} {i : Nat} (h : i < mid.length) :
    (index (pre ++ (mid ++ post)) (pre.length + i) : Outcome ε α) = index mid i := by
  simp [index, List.getElem?_append, h]

/-- Slicing `&xs[a..b]`: it panics unless `a ≤ b` and `b` is at most the length. -/
def slice (xs : List α) (a b : Nat) : Outcome ε (List α) :=
  if a ≤ b ∧ b ≤ xs.length then .ok ((xs.drop a).take (b - a)) else .panic

theorem slice_eq_ok {xs : List α} {a b : Nat} (hab : a ≤ b) (hb : b ≤ xs.length) :
    (slice xs a b : Outcome ε (List α)) = .ok ((xs.drop a).take (b - a)) := by
  rw [slice, if_pos ⟨hab, hb⟩]

/-- Slicing out the middle part of a concatenation. -/
theorem slice_append (pre mid post : List α) :
    (slice (pre ++ (mid ++ post)) pre.length (pre.length + mid.length) : Outcome ε (List α))
      = .ok mid := by
  rw [slice_eq_ok (by omega) (by simp)]
  simp

/-- Run `f` on the elements of a list, in order. -/
def traverse (f : α → Outcome ε β) : List α → Outcome ε (List β)
  | [] => .ok []
  | a :: as => do
      let b ← f a
      let bs ← traverse f as
      pure (b :: bs)

theorem traverse_isOk_iff {f : α → Outcome ε β} {as : List α} :
    (∃ bs, traverse f as = .ok bs) ↔ ∀ a ∈ as, ∃ b, f a = .ok b := by
  induction as with
  | nil => simp [traverse]
  | cons a as ih =>
      rw [traverse, bind₂_isOk_iff, ih, List.forall_mem_cons]

theorem mem_of_traverse_eq_ok {f : α → Outcome ε β} {as : List α} {bs : List β} {b : β}
    (h : traverse f as = .ok bs) (hb : b ∈ bs) : ∃ a ∈ as, f a = .ok b := by
  induction as generalizing bs with
  | nil =>
      cases h
      cases hb
  | cons a as ih =>
      simp only [traverse, bind_eq_ok, pure_eq, ok.injEq] at h
      obtain ⟨b', hb', bs', hbs', rfl⟩ := h
      rcases List.mem_cons.1 hb with rfl | hmem
      · exact ⟨a, List.mem_cons_self, hb'⟩
      · obtain ⟨a', ha', hfa'⟩ := ih hbs' hmem
        exact ⟨a', List.mem_cons_of_mem a ha', hfa'⟩

theorem traverse_ne_panic {f : α → Outcome ε β} {as : List α} (h : ∀ a ∈ as, f a ≠ .panic) :
    traverse f as ≠ .panic := by
  induction as with
  | nil => exact nofun
  | cons a as ih =>
      rw [List.forall_mem_cons] at h
      rw [traverse, Ne, bind₂_eq_panic, not_or]
      exact ⟨h.1, fun hrest => ih h.2 hrest.2⟩

theorem traverse_eq_map {f : α → Outcome ε β} {g : α → β} {as : List α}
    (h : ∀ a ∈ as, f a = .ok (g a)) : traverse f as = .ok (as.map g) := by
  induction as with
  | nil => rfl
  | cons a as ih =>
      rw [List.forall_mem_cons] at h
      rw [traverse, h.1, ih h.2, ok_bind, ok_bind, pure_eq, List.map_cons]

/-- Where no call fails with an error, one that panics decides. -/
theorem traverse_eq_panic {f : α → Outcome ε β} {as : List α}
    (h : ∀ a ∈ as, (∃ b, f a = .ok b) ∨ f a = .panic) (hpanic : ∃ a ∈ as, f a = .panic) :
    traverse f as = .panic := by
  induction as with
  | nil =>
      obtain ⟨a, ha, -⟩ := hpanic
      cases ha
  | cons a as ih =>
      rw [List.forall_mem_cons] at h
      rw [traverse, bind₂_eq_panic]
      rcases h.1 with hok | hpanic'
      · refine Or.inr ⟨hok, ih h.2 ?_⟩
        obtain ⟨a', ha', hpanic⟩ := hpanic
        rcases List.mem_cons.1 ha' with rfl | hmem
        · obtain ⟨b, hok⟩ := hok
          rw [hok] at hpanic
          cases hpanic
        · exact ⟨a', hmem, hpanic⟩
      · exact Or.inl hpanic'

/-- Change the error. -/
def mapErr {δ : Type w} (g : ε → δ) : Outcome ε α → Outcome δ α
  | .ok a => .ok a
  | .err e => .err (g e)
  | .panic => .panic

theorem mapErr_eq_ok {δ : Type w} {g : ε → δ} {x : Outcome ε α} {a : α} :
    x.mapErr g = .ok a ↔ x = .ok a := by
  cases x <;> simp [mapErr]

theorem mapErr_eq_panic {δ : Type w} {g : ε → δ} {x : Outcome ε α} :
    x.mapErr g = .panic ↔ x = .panic := by
  cases x <;> simp [mapErr]

/-! ## Two runs -/

/-- The outcomes of two runs that take the same course: the same error or panic, or values that are
    the same exactly unless `p`. -/
def SameUnless (p : Prop) : Outcome ε α → Outcome ε α → Prop
  | .ok a, .ok b => a = b ↔ ¬ p
  | .err e, .err e' => e = e'
  | .panic, .panic => True
  | _, _ => False

theorem sameUnless_self {p : Prop} (hp : ¬ p) (x : Outcome ε α) : SameUnless p x x := by
  cases x <;> simp [SameUnless, hp]

theorem SameUnless.congr {p q : Prop} {x y : Outcome ε α} (h : SameUnless p x y) (hpq : p ↔ q) :
    SameUnless q x y := by
  rwa [← hpq]

/-- If the first run succeeds, so does the second. -/
theorem SameUnless.of_ok {p : Prop} {a : α} {y : Outcome ε α} (h : SameUnless p (.ok a) y) :
    ∃ b, y = .ok b ∧ (a = b ↔ ¬ p) := by
  cases y with
  | ok b => exact ⟨b, rfl, h⟩
  | err e => cases h
  | panic => cases h

theorem SameUnless.of_err {p : Prop} {e : ε} {y : Outcome ε α} (h : SameUnless p (.err e) y) :
    y = .err e := by
  cases y with
  | ok b => cases h
  | err e' => rw [SameUnless] at h; rw [h]
  | panic => cases h

theorem SameUnless.of_panic {p : Prop} {y : Outcome ε α} (h : SameUnless p .panic y) :
    y = .panic := by
  cases y with
  | ok b => cases h
  | err e => cases h
  | panic => rfl

theorem SameUnless.cases {p : Prop} {x y : Outcome ε α} (h : SameUnless p x y) :
    (x = y ∧ ∀ a, x ≠ .ok a) ∨ ∃ a b, x = .ok a ∧ y = .ok b ∧ (a = b ↔ ¬ p) := by
  cases x with
  | ok a =>
      obtain ⟨b, rfl, hab⟩ := h.of_ok
      exact Or.inr ⟨a, b, rfl, rfl, hab⟩
  | err e => exact Or.inl ⟨h.of_err.symm, nofun⟩
  | panic => exact Or.inl ⟨h.of_panic.symm, nofun⟩

theorem SameUnless.mapErr {δ : Type w} {p : Prop} {x y : Outcome ε α} (h : SameUnless p x y)
    (g : ε → δ) : SameUnless p (x.mapErr g) (y.mapErr g) := by
  cases x with
  | ok a =>
      obtain ⟨b, rfl, hab⟩ := h.of_ok
      exact hab
  | err e =>
      rw [h.of_err]
      exact rfl
  | panic =>
      rw [h.of_panic]
      trivial

/-- Two calls in a row, the values of both of which can be told from the result. -/
theorem SameUnless.bind₂ {γ : Type v} {p q : Prop} {x x' : Outcome ε α} {y y' : Outcome ε β}
    {f : α → β → γ} (hf : Function.Injective2 f) (hx : SameUnless p x x')
    (hy : SameUnless q y y') :
    SameUnless (p ∨ q) (do let a ← x; let b ← y; pure (f a b))
      (do let a ← x'; let b ← y'; pure (f a b)) := by
  cases x with
  | err e =>
      rw [hx.of_err]
      exact rfl
  | panic =>
      rw [hx.of_panic]
      trivial
  | ok a =>
      obtain ⟨a', rfl, ha⟩ := hx.of_ok
      cases y with
      | err e =>
          rw [hy.of_err]
          exact rfl
      | panic =>
          rw [hy.of_panic]
          trivial
      | ok b =>
          obtain ⟨b', rfl, hb⟩ := hy.of_ok
          simp only [ok_bind, pure_eq, SameUnless, not_or, ← ha, ← hb]
          exact ⟨fun h => hf h, fun h => by rw [h.1, h.2]⟩

theorem SameUnless.map {γ : Type v} {p : Prop} {x x' : Outcome ε α} {f : α → γ}
    (hf : Function.Injective f) (hx : SameUnless p x x') :
    SameUnless p (do let a ← x; pure (f a)) (do let a ← x'; pure (f a)) := by
  cases x with
  | err e =>
      rw [hx.of_err]
      exact rfl
  | panic =>
      rw [hx.of_panic]
      trivial
  | ok a =>
      obtain ⟨a', rfl, ha⟩ := hx.of_ok
      simp only [ok_bind, pure_eq, SameUnless, ← ha]
      exact hf.eq_iff

theorem sameUnless_traverse {p : α → Prop} {f g : α → Outcome ε β} {as : List α}
    (h : ∀ a ∈ as, SameUnless (p a) (f a) (g a)) :
    SameUnless (∃ a ∈ as, p a) (traverse f as) (traverse g as) := by
  induction as with
  | nil => simp [traverse, SameUnless]
  | cons a as ih =>
      rw [List.forall_mem_cons] at h
      refine (SameUnless.bind₂ (f := List.cons) ?_ h.1 (ih h.2)).congr ?_
      · exact fun _ _ _ _ heq => by simpa using heq
      · simp

end Outcome

end DaConcept
