import Mathlib

set_option autoImplicit false

/-! # Runs of a guarded step function

A system is a step function `step : σ → ε → Option σ`: the event says everything the environment
chooses, and `none` means that the event is not enabled. A run is a list of events, `exec` plays
it. What one step preserves is lifted to whole runs here, once: plain invariants
(`exec_invariant`), invariants that need a condition on every step taken (`exec_invariant_of`),
and invariants that relate the state to what the run has logged so far (`exec_logged`). -/

namespace DaConcept.Run

universe u v w x

variable {σ : Type u} {ε : Type v} {τ : Type w} {υ : Type x} (step : σ → ε → Option σ)

/-- The state after a list of events, if each was enabled. -/
def exec : σ → List ε → Option σ
  | s, [] => some s
  | s, e :: es => (step s e).bind (fun s' => exec s' es)

/-- Every step taken from `s` along `es` meets the condition `C` on state and event. -/
def Meets (C : σ → ε → Prop) : σ → List ε → Prop
  | _, [] => True
  | s, e :: es => C s e ∧ ∀ s', step s e = some s' → Meets C s' es

instance decidableMeets {C : σ → ε → Prop} [∀ s e, Decidable (C s e)] :
    ∀ (s : σ) (es : List ε), Decidable (Meets step C s es)
  | _, [] => inferInstanceAs (Decidable True)
  | s, e :: es =>
      have : Decidable (∀ s', step s e = some s' → Meets step C s' es) :=
        match step s e with
        | none => isTrue nofun
        | some s' =>
            match decidableMeets s' es with
            | isTrue h => isTrue fun _ heq => Option.some.inj heq ▸ h
            | isFalse h => isFalse fun hall => h (hall s' rfl)
      inferInstanceAs (Decidable (C s e ∧ ∀ s', step s e = some s' → Meets step C s' es))

/-- `P` holds in `s` and in every state the run `es` takes it through. -/
def Always (P : σ → Prop) : σ → List ε → Prop
  | s, [] => P s
  | s, e :: es => P s ∧ ∀ s', step s e = some s' → Always P s' es

/-- What the steps along `es` log, in order. -/
def logged (f : σ → ε → List τ) : σ → List ε → List τ
  | _, [] => []
  | s, e :: es =>
      f s e ++ match step s e with
        | some s' => logged f s' es
        | none => []

variable {step}

@[simp] theorem exec_nil (s : σ) : exec step s [] = some s := rfl

@[simp] theorem logged_nil (f : σ → ε → List τ) (s : σ) : logged step f s [] = [] := rfl

theorem exec_cons_eq_some {s t : σ} {e : ε} {es : List ε} :
    exec step s (e :: es) = some t ↔ ∃ s', step s e = some s' ∧ exec step s' es = some t := by
  rw [exec, Option.bind_eq_some_iff]

theorem logged_cons {f : σ → ε → List τ} {s s' : σ} {e : ε} (h : step s e = some s')
    (es : List ε) : logged step f s (e :: es) = f s e ++ logged step f s' es := by
  rw [logged, h]

/-! ## Reaching a state -/

/-- One run after another. -/
theorem exec_append {s t u : σ} {es₁ es₂ : List ε} (h₁ : exec step s es₁ = some t)
    (h₂ : exec step t es₂ = some u) : exec step s (es₁ ++ es₂) = some u := by
  induction es₁ generalizing s with
  | nil =>
      obtain rfl := Option.some.inj h₁
      exact h₂
  | cons e es ih =>
      obtain ⟨s', hstep, hrest⟩ := exec_cons_eq_some.1 h₁
      exact exec_cons_eq_some.2 ⟨s', hstep, ih hrest⟩

/-- A run that does not end where it starts takes a step. -/
theorem exec_next {s t : σ} {es : List ε} (hne : s ≠ t) (h : exec step s es = some t) :
    ∃ e es' s', es = e :: es' ∧ step s e = some s' ∧ exec step s' es' = some t := by
  cases es with
  | nil => exact absurd (Option.some.inj h) hne
  | cons e es =>
      obtain ⟨s', hstep, hrest⟩ := exec_cons_eq_some.1 h
      exact ⟨e, es, s', rfl, hstep, hrest⟩

/-- A run from a state that takes no step ends there. -/
theorem exec_of_final {s t : σ} {es : List ε} (hfinal : ∀ e, step s e = none)
    (h : exec step s es = some t) : s = t ∧ es = [] := by
  cases es with
  | nil => exact ⟨Option.some.inj h, rfl⟩
  | cons e es =>
      obtain ⟨s', hstep, -⟩ := exec_cons_eq_some.1 h
      rw [hfinal e] at hstep
      cases hstep

/-- Some run leads from `s` to `t` and logs `l`. -/
def Leads (step : σ → ε → Option σ) (f : σ → ε → List τ) (s : σ) (l : List τ) (t : σ) : Prop :=
  ∃ es, exec step s es = some t ∧ logged step f s es = l

theorem Leads.refl (f : σ → ε → List τ) (s : σ) : Leads step f s [] s := ⟨[], rfl, rfl⟩

/-- A step before a run. -/
theorem Leads.head {f : σ → ε → List τ} {s s' t : σ} {l : List τ} (e : ε)
    (hstep : step s e = some s') (hrest : Leads step f s' l t) :
    Leads step f s (f s e ++ l) t := by
  obtain ⟨es, hrun, rfl⟩ := hrest
  exact ⟨e :: es, exec_cons_eq_some.2 ⟨s', hstep, hrun⟩, logged_cons hstep es⟩

theorem Leads.next {f : σ → ε → List τ} {s t : σ} {l : List τ} (hne : s ≠ t)
    (h : Leads step f s l t) :
    ∃ e s' l', step s e = some s' ∧ Leads step f s' l' t ∧ l = f s e ++ l' := by
  obtain ⟨es, hrun, rfl⟩ := h
  obtain ⟨e, es, s', rfl, hstep, hrest⟩ := exec_next hne hrun
  exact ⟨e, s', _, hstep, ⟨es, hrest, rfl⟩, logged_cons hstep es⟩

theorem Leads.eq_of_final {f : σ → ε → List τ} {s t : σ} {l : List τ}
    (hfinal : ∀ e, step s e = none) (h : Leads step f s l t) : s = t ∧ l = [] := by
  obtain ⟨es, hrun, rfl⟩ := h
  obtain ⟨hst, rfl⟩ := exec_of_final hfinal hrun
  exact ⟨hst, rfl⟩

/-! ## Lifting step lemmas to runs -/

/-- An invariant whose steps all meet a condition holds at the end of the run. -/
theorem exec_invariant_of {I : σ → Prop} {C : σ → ε → Prop}
    (hstep : ∀ s e s', I s → C s e → step s e = some s' → I s') {s t : σ} {es : List ε}
    (hs : I s) (hC : Meets step C s es) (h : exec step s es = some t) : I t := by
  induction es generalizing s with
  | nil =>
      obtain rfl := Option.some.inj h
      exact hs
  | cons e es ih =>
      obtain ⟨s', hs', hrest⟩ := exec_cons_eq_some.1 h
      exact ih (hstep s e s' hs hC.1 hs') (hC.2 s' hs') hrest

/-- **Refinement.** If every step of one system is answered by some steps of another, possibly none,
    every run of the first is. -/
theorem exec_refines {S : τ → τ → Prop} {R : σ → τ → Prop} {C : σ → ε → Prop}
    (hstep : ∀ s e s' t, R s t → C s e → step s e = some s' →
      ∃ t', Relation.ReflTransGen S t t' ∧ R s' t') {s s' : σ} {t : τ} {es : List ε}
    (hR : R s t) (hC : Meets step C s es) (h : exec step s es = some s') :
    ∃ t', Relation.ReflTransGen S t t' ∧ R s' t' := by
  induction es generalizing s t with
  | nil =>
      obtain rfl := Option.some.inj h
      exact ⟨t, .refl, hR⟩
  | cons e es ih =>
      obtain ⟨s₁, hs₁, hrest⟩ := exec_cons_eq_some.1 h
      obtain ⟨t₁, ht₁, hR₁⟩ := hstep s e s₁ t hR hC.1 hs₁
      obtain ⟨t', ht', hR'⟩ := ih hR₁ (hC.2 s₁ hs₁) hrest
      exact ⟨t', ht₁.trans ht', hR'⟩

/-- What a system can step to in any number of steps that meet a condition is what its runs of such
    steps lead to. -/
theorem reflTransGen_iff_exec {C : σ → ε → Prop} {s t : σ} :
    Relation.ReflTransGen (fun s s' => ∃ e, C s e ∧ step s e = some s') s t ↔
      ∃ es, Meets step C s es ∧ exec step s es = some t := by
  constructor
  · intro h
    induction h using Relation.ReflTransGen.head_induction_on with
    | refl => exact ⟨[], trivial, rfl⟩
    | head hfirst _ ih =>
        obtain ⟨e, he, hstep⟩ := hfirst
        obtain ⟨es, hC, hes⟩ := ih
        refine ⟨e :: es, ⟨he, fun s₁ hs₁ => ?_⟩, exec_cons_eq_some.2 ⟨_, hstep, hes⟩⟩
        obtain rfl := Option.some.inj (hstep.symm.trans hs₁)
        exact hC
  · rintro ⟨es, hC, h⟩
    induction es generalizing s with
    | nil =>
        obtain rfl := Option.some.inj h
        exact .refl
    | cons e es ih =>
        obtain ⟨s₁, hs₁, hrest⟩ := exec_cons_eq_some.1 h
        exact .head ⟨e, hC.1, hs₁⟩ (ih (hC.2 s₁ hs₁) hrest)

/-- **Simulation.** If every step of one system is answered by a step of another or leaves the state
    of the other as it is, every run of the first is answered by a run of the second. -/
theorem exec_simulates {δ : Type x} {step' : τ → δ → Option τ} {R : σ → τ → Prop}
    {C : σ → ε → Prop}
    (hstep : ∀ s e s' t, R s t → C s e → step s e = some s' →
      R s' t ∨ ∃ d t', step' t d = some t' ∧ R s' t') {s s' : σ} {t : τ} {es : List ε}
    (hR : R s t) (hC : Meets step C s es) (h : exec step s es = some s') :
    ∃ ds t', exec step' t ds = some t' ∧ R s' t' := by
  obtain ⟨t', ht', hR'⟩ := exec_refines (S := fun t t' => ∃ d, True ∧ step' t d = some t')
    (fun s e s' t hR hC hs => by
      rcases hstep s e s' t hR hC hs with hsame | ⟨d, t₁, ht₁, hR₁⟩
      · exact ⟨t, .refl, hsame⟩
      · exact ⟨t₁, .single ⟨d, trivial, ht₁⟩, hR₁⟩) hR hC h
  obtain ⟨ds, -, hds⟩ := reflTransGen_iff_exec.1 ht'
  exact ⟨ds, t', hds, hR'⟩

/-- A condition that the rest of a run makes sure of. -/
theorem meets_of_end {C : σ → ε → Prop} {s t : σ} {es : List ε}
    (hC : ∀ s e s' es, step s e = some s' → exec step s' es = some t → C s e)
    (h : exec step s es = some t) : Meets step C s es := by
  induction es generalizing s with
  | nil => trivial
  | cons e es ih =>
      obtain ⟨s', hs', hrest⟩ := exec_cons_eq_some.1 h
      refine ⟨hC s e s' es hs' hrest, fun s₁ hs₁ => ?_⟩
      obtain rfl := Option.some.inj (hs'.symm.trans hs₁)
      exact ih hrest

/-- A weaker condition. -/
theorem Meets.mono {C C' : σ → ε → Prop} (hC : ∀ s e, C s e → C' s e) {s : σ} {es : List ε}
    (h : Meets step C s es) : Meets step C' s es := by
  induction es generalizing s with
  | nil => trivial
  | cons e es ih => exact ⟨hC s e h.1, fun s' hs' => ih (h.2 s' hs')⟩

/-- A condition that every event meets in every state. -/
theorem meets_of_forall {C : σ → ε → Prop} {es : List ε} (h : ∀ e ∈ es, ∀ s, C s e) (s : σ) :
    Meets step C s es := by
  induction es generalizing s with
  | nil => trivial
  | cons e es ih =>
      refine ⟨h e List.mem_cons_self s, fun s' _ => ih ?_ s'⟩
      exact fun e' he' => h e' (List.mem_cons_of_mem e he')

/-- An invariant that every step preserves holds at the end of the run. -/
theorem exec_invariant {I : σ → Prop} (hstep : ∀ s e s', I s → step s e = some s' → I s')
    {s t : σ} {es : List ε} (hs : I s) (h : exec step s es = some t) : I t :=
  exec_invariant_of (C := fun _ _ => True) (fun s e s' hi _ => hstep s e s' hi) hs
    (meets_of_forall (fun _ _ _ => trivial) s) h

/-- A measure that every step of a run decreases bounds its length. -/
theorem length_le_of_decreases {μ : σ → Nat} {C : σ → ε → Prop}
    (hstep : ∀ s e s', C s e → step s e = some s' → μ s' < μ s) {s t : σ} {es : List ε}
    (hC : Meets step C s es) (h : exec step s es = some t) : es.length + μ t ≤ μ s := by
  induction es generalizing s with
  | nil =>
      obtain rfl := Option.some.inj h
      simp
  | cons e es ih =>
      obtain ⟨s', hs', hrest⟩ := exec_cons_eq_some.1 h
      have hlt := hstep s e s' hC.1 hs'
      have hle := ih (hC.2 s' hs') hrest
      rw [List.length_cons]
      omega

/-- An invariant of the state and two logs: every step carries it to the logs extended by what the
    step logs. -/
theorem exec_logged {f : σ → ε → List τ} {g : σ → ε → List υ} {I : List τ → List υ → σ → Prop}
    (hstep : ∀ l m s e s', I l m s → step s e = some s' → I (l ++ f s e) (m ++ g s e) s')
    {s t : σ} {es : List ε} {l : List τ} {m : List υ} (hs : I l m s)
    (h : exec step s es = some t) : I (l ++ logged step f s es) (m ++ logged step g s es) t := by
  induction es generalizing s l m with
  | nil =>
      obtain rfl := Option.some.inj h
      simpa using hs
  | cons e es ih =>
      obtain ⟨s', hs', hrest⟩ := exec_cons_eq_some.1 h
      rw [logged_cons hs', logged_cons hs', ← List.append_assoc, ← List.append_assoc]
      exact ih (hstep l m s e s' hs hs') hrest

/-- An invariant of the state and what the events so far carry: every step carries it to the list
    extended by what its event carries. -/
theorem exec_collected {f : ε → Option τ} {I : List τ → σ → Prop}
    (hstep : ∀ l s e s', I l s → step s e = some s' → I (l ++ (f e).toList) s') {s t : σ}
    {es : List ε} {l : List τ} (hs : I l s) (h : exec step s es = some t) :
    I (l ++ es.filterMap f) t := by
  induction es generalizing s l with
  | nil =>
      obtain rfl := Option.some.inj h
      simpa using hs
  | cons e es ih =>
      obtain ⟨s', hs', hrest⟩ := exec_cons_eq_some.1 h
      have hcons : (e :: es).filterMap f = (f e).toList ++ es.filterMap f := by
        rw [List.filterMap_cons]
        cases f e <;> rfl
      rw [hcons, ← List.append_assoc]
      exact ih (hstep l s e s' hs hs') hrest

/-- A run meets a condition when each of its steps does, after whatever run came before it. -/
theorem meets_iff {C : σ → ε → Prop} {s : σ} {es : List ε} :
    Meets step C s es ↔ ∀ es₁ e es₂ t, es = es₁ ++ e :: es₂ → exec step s es₁ = some t → C t e := by
  induction es generalizing s with
  | nil => simp [Meets]
  | cons e es ih =>
      rw [Meets]
      constructor
      · rintro ⟨hC, hrest⟩ es₁ e' es₂ t heq h
        cases es₁ with
        | nil =>
            obtain ⟨rfl, -⟩ := List.cons.inj heq
            obtain rfl := Option.some.inj h
            exact hC
        | cons e₁ es₁ =>
            obtain ⟨rfl, hes⟩ := List.cons.inj heq
            obtain ⟨s', hs', hrun⟩ := exec_cons_eq_some.1 h
            exact ih.1 (hrest s' hs') es₁ e' es₂ t hes hrun
      · intro hall
        refine ⟨hall [] e es s rfl rfl, fun s' hs' => ih.2 ?_⟩
        intro es₁ e' es₂ t hes hrun
        exact hall (e :: es₁) e' es₂ t (by rw [hes, List.cons_append])
          (exec_cons_eq_some.2 ⟨s', hs', hrun⟩)

/-- If an invariant and the condition together give `C'`, then every step of a run that meets the
    condition meets `C'` too. -/
theorem meets_of_invariant {I : σ → Prop} {C C' : σ → ε → Prop}
    (hstep : ∀ s e s', I s → C s e → step s e = some s' → I s')
    (himp : ∀ s e, I s → C s e → C' s e) {s : σ} {es : List ε} (hs : I s)
    (hC : Meets step C s es) : Meets step C' s es := by
  induction es generalizing s with
  | nil => trivial
  | cons e es ih =>
      exact ⟨himp s e hs hC.1, fun s' hs' => ih (hstep s e s' hs hC.1 hs') (hC.2 s' hs')⟩

theorem of_always {P : σ → Prop} {s : σ} {es : List ε} (h : Always step P s es) : P s := by
  cases es with
  | nil => exact h
  | cons e es => exact h.1

/-- An invariant under a condition holds in every state of a run that meets the condition. -/
theorem always_of_meets {P : σ → Prop} {C : σ → ε → Prop}
    (hstep : ∀ s e s', P s → C s e → step s e = some s' → P s') {s : σ} {es : List ε}
    (hs : P s) (hC : Meets step C s es) : Always step P s es := by
  induction es generalizing s with
  | nil => exact hs
  | cons e es ih =>
      exact ⟨hs, fun s' hs' => ih (hstep s e s' hs hC.1 hs') (hC.2 s' hs')⟩

/-- If a step that breaks the condition also breaks `P`, a run in all of whose states `P` holds
    meets the condition at every step it takes. -/
theorem meets_of_always {P : σ → Prop} {C : σ → ε → Prop}
    (hstep : ∀ s e s', P s → step s e = some s' → P s' → C s e) {s : σ} {es : List ε}
    (h : Always step P s es) :
    Meets step (fun s e => (step s e).isSome → C s e) s es := by
  induction es generalizing s with
  | nil => trivial
  | cons e es ih =>
      refine ⟨fun hsome => ?_, fun s' hs' => ih (h.2 s' hs')⟩
      obtain ⟨s', hs'⟩ := Option.isSome_iff_exists.1 hsome
      exact hstep s e s' h.1 hs' (of_always (h.2 s' hs'))

/-- If a step keeps `P` exactly unless it is a bad one, a run stays in `P` exactly if it starts in
    `P` and takes no bad step. -/
theorem always_iff_meets {P : σ → Prop} {Bad : σ → ε → Prop}
    (hstep : ∀ s e s', P s → step s e = some s' → (P s' ↔ ¬ Bad s e)) (s : σ) (es : List ε) :
    Always step P s es ↔
      P s ∧ Meets step (fun s e => (step s e).isSome → ¬ Bad s e) s es := by
  constructor
  · intro h
    refine ⟨of_always h, meets_of_always (fun s e s' hs hs' hP => ?_) h⟩
    exact (hstep s e s' hs hs').1 hP
  · rintro ⟨hs, hmeets⟩
    refine always_of_meets (fun s e s' hs hC hs' => ?_) hs hmeets
    exact (hstep s e s' hs hs').2 (hC (by rw [hs']; rfl))

end DaConcept.Run
