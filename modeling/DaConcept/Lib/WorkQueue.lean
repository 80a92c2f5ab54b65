import DaConcept.Lib.Run

set_option autoImplicit false

/-! # A work queue with a set of busy keys

Jobs, pairs of a key and a payload, wait in a queue. A job is accepted only while its key is not
busy; a round takes up to `limit` jobs from the front, and only when the jobs of the last round
are all done. The state keeps the waiting and the running jobs and, in a structure of its own, the
busy keys. `Inv` ties the two together and every operation preserves it (`inv_step`);
`accounting_step` says that jobs are taken in the order in which they were accepted. -/

namespace DaConcept

variable {κ ν : Type} [DecidableEq κ]

/-- The waiting jobs, the busy keys and the running jobs. -/
structure WorkQueue (κ ν : Type) where
  waiting : List (κ × ν)
  busy : Finset κ
  running : List (κ × ν)

namespace WorkQueue

/-- What can happen to a queue. -/
inductive Op (κ ν : Type) where
  /-- A job is offered; it is dropped if its key is busy. -/
  | offer (k : κ) (v : ν)
  /-- A round takes the first jobs. -/
  | round
  /-- The `i`-th running job is done. -/
  | done (i : Nat)

/-- One operation; a round waits for the running jobs, and only a running job can be done. -/
def step (limit : Nat) (q : WorkQueue κ ν) : Op κ ν → Option (WorkQueue κ ν)
  | .offer k v =>
      if k ∈ q.busy then some q
      else some { q with waiting := q.waiting ++ [(k, v)], busy := insert k q.busy }
  | .round =>
      if q.running = [] then
        some { q with
          waiting := q.waiting.drop limit
          running := q.waiting.take limit }
      else none
  | .done i =>
      match q.running[i]? with
      | some job =>
          some { q with running := q.running.eraseIdx i, busy := q.busy.erase job.1 }
      | none => none

/-- One operation, or none: what a step of a system that uses the queue comes to. -/
def stepOrStay (limit : Nat) (q : WorkQueue κ ν) : Option (Op κ ν) → Option (WorkQueue κ ν)
  | some op => step limit q op
  | none => some q

/-- The jobs an operation accepts. -/
def accepted (q : WorkQueue κ ν) : Op κ ν → List (κ × ν)
  | .offer k v => if k ∈ q.busy then [] else [(k, v)]
  | _ => []

/-- The jobs an operation takes from the queue. -/
def taken (limit : Nat) (q : WorkQueue κ ν) : Op κ ν → List (κ × ν)
  | .round => q.waiting.take limit
  | _ => []

/-- The keys of the jobs that wait or run. -/
def keys (q : WorkQueue κ ν) : List κ := (q.waiting ++ q.running).map Prod.fst

/-- The waiting and the running jobs have different keys, these are the busy ones, and no more
    jobs run than one round may take. -/
structure Inv (limit : Nat) (q : WorkQueue κ ν) : Prop where
  nodup : q.keys.Nodup
  busy_iff : ∀ k, k ∈ q.busy ↔ k ∈ q.keys
  running_le : q.running.length ≤ limit

/-- The queue before anything happened. -/
def empty : WorkQueue κ ν := ⟨[], ∅, []⟩

omit [DecidableEq κ] in
theorem inv_empty (limit : Nat) : Inv limit (empty : WorkQueue κ ν) where
  nodup := List.nodup_nil
  busy_iff k := by simp [empty, keys]
  running_le := Nat.zero_le _

theorem inv_offer {limit : Nat} {q : WorkQueue κ ν} (h : Inv limit q) {k : κ} {v : ν}
    (hk : k ∉ q.busy) :
    Inv limit { q with waiting := q.waiting ++ [(k, v)], busy := insert k q.busy } where
  nodup := by
    have hfresh : k ∉ q.keys := fun hmem => hk ((h.busy_iff k).2 hmem)
    have hnd := h.nodup
    simp only [keys, List.map_append, List.map_cons, List.map_nil] at hfresh hnd ⊢
    rw [List.append_assoc, List.singleton_append]
    exact List.nodup_middle.2 (List.nodup_cons.2 ⟨hfresh, hnd⟩)
  busy_iff k' := by
    have hold := h.busy_iff k'
    simp only [keys, List.map_append, List.mem_append, Finset.mem_insert, List.map_cons,
      List.map_nil, List.mem_singleton] at hold ⊢
    rw [hold]
    tauto
  running_le := h.running_le

omit [DecidableEq κ] in
theorem inv_round {limit : Nat} {q : WorkQueue κ ν} (h : Inv limit q) (hidle : q.running = []) :
    Inv limit { q with
      waiting := q.waiting.drop limit
      running := q.waiting.take limit } := by
  have hperm : (q.waiting.drop limit ++ q.waiting.take limit).Perm (q.waiting ++ q.running) := by
    rw [hidle, List.append_nil]
    exact List.perm_append_comm.trans (by rw [List.take_append_drop])
  have hkeys := hperm.map Prod.fst
  exact
    { nodup := hkeys.nodup_iff.2 h.nodup
      busy_iff := fun k => (h.busy_iff k).trans hkeys.mem_iff.symm
      running_le := List.length_take_le _ _ }

theorem inv_done {limit : Nat} {q : WorkQueue κ ν} (h : Inv limit q) {i : Nat} {job : κ × ν}
    (hi : q.running[i]? = some job) :
    Inv limit { q with running := q.running.eraseIdx i, busy := q.busy.erase job.1 } := by
  obtain ⟨hlt, rfl⟩ := List.getElem?_eq_some_iff.1 hi
  have hperm : (q.waiting ++ q.running).Perm
      (q.running[i] :: (q.waiting ++ q.running.eraseIdx i)) := by
    refine (List.Perm.append_left _ (List.getElem_cons_eraseIdx_perm hlt).symm).trans ?_
    exact List.perm_middle
  have hkeys := hperm.map Prod.fst
  have hnd := hkeys.nodup_iff.1 h.nodup
  rw [List.map_cons, List.nodup_cons] at hnd
  exact
    { nodup := hnd.2
      busy_iff := by
        intro k
        rw [Finset.mem_erase, h.busy_iff, keys, hkeys.mem_iff, List.map_cons, List.mem_cons, keys]
        constructor
        · rintro ⟨hne, heq | hmem⟩
          · exact absurd heq hne
          · exact hmem
        · intro hmem
          exact ⟨fun heq => hnd.1 (heq ▸ hmem), Or.inr hmem⟩
      running_le := (List.length_eraseIdx_le _ _).trans h.running_le }

/-- **One operation preserves the invariant.** -/
theorem inv_step {limit : Nat} {q q' : WorkQueue κ ν} {op : Op κ ν} (h : Inv limit q)
    (hstep : step limit q op = some q') : Inv limit q' := by
  cases op with
  | offer k v =>
      simp only [step] at hstep
      split at hstep
      · obtain rfl := Option.some.inj hstep
        exact h
      · next hk =>
          obtain rfl := Option.some.inj hstep
          exact inv_offer h hk
  | round =>
      simp only [step] at hstep
      split at hstep
      · next hidle =>
          obtain rfl := Option.some.inj hstep
          exact inv_round h hidle
      · cases hstep
  | done i =>
      simp only [step] at hstep
      split at hstep
      · next job hjob =>
          obtain rfl := Option.some.inj hstep
          exact inv_done h hjob
      · cases hstep

theorem inv_stepOrStay {limit : Nat} {q q' : WorkQueue κ ν} {op : Option (Op κ ν)}
    (h : Inv limit q) (hstep : stepOrStay limit q op = some q') : Inv limit q' := by
  cases op with
  | none =>
      obtain rfl := Option.some.inj hstep
      exact h
  | some op => exact inv_step h hstep

/-- What an operation accepts joins the queue at its end, what it takes leaves it at its front. -/
theorem accounting_step {limit : Nat} {q q' : WorkQueue κ ν} {op : Op κ ν}
    (hstep : step limit q op = some q') :
    q.waiting ++ accepted q op = taken limit q op ++ q'.waiting := by
  cases op with
  | offer k v =>
      simp only [step] at hstep
      split at hstep
      · next hk =>
          obtain rfl := Option.some.inj hstep
          simp [accepted, taken, hk]
      · next hk =>
          obtain rfl := Option.some.inj hstep
          simp [accepted, taken, hk]
  | round =>
      simp only [step] at hstep
      split at hstep
      · obtain rfl := Option.some.inj hstep
        simp [accepted, taken]
      · cases hstep
  | done i =>
      simp only [step] at hstep
      split at hstep
      · obtain rfl := Option.some.inj hstep
        simp [accepted, taken]
      · cases hstep

theorem accounting_stepOrStay {limit : Nat} {q q' : WorkQueue κ ν} {op : Option (Op κ ν)}
    (hstep : stepOrStay limit q op = some q') :
    q.waiting ++ op.elim [] (accepted q) = op.elim [] (taken limit q) ++ q'.waiting := by
  cases op with
  | none =>
      obtain rfl := Option.some.inj hstep
      simp
  | some op => exact accounting_step hstep

end WorkQueue

end DaConcept
