import Mathlib

set_option autoImplicit false

/-! # Keyed tables

A table is a list of rows no two of which have the same key; the list order is the order in which
a full scan meets them. The statements a program issues (insert, conditional update, insert or
update, and the insertion of a hash map) keep the keys distinct by construction, and each has one
lemma that gives its effect on `lookup`, the finite map the table stands for. -/

namespace DaConcept

/-- Rows with pairwise distinct keys. -/
structure Table {ρ κ : Type} (key : ρ → κ) where
  rows : List ρ
  nodup : (rows.map key).Nodup

namespace Table

variable {ρ κ : Type} [DecidableEq κ] {key : ρ → κ}

omit [DecidableEq κ] in
@[ext] theorem ext {s t : Table key} (h : s.rows = t.rows) : s = t := by
  cases s
  cases t
  simp_all

/-- The table without rows. -/
def empty : Table key := ⟨[], List.nodup_nil⟩

instance : Inhabited (Table key) := ⟨empty⟩

/-- The row with a given key. -/
def lookup (t : Table key) (k : κ) : Option ρ := t.rows.find? (fun r => key r = k)

/-- Add a row; `none` if its key is taken. -/
def insert (t : Table key) (r : ρ) : Option (Table key) :=
  if h : key r ∈ t.rows.map key then none
  else some ⟨t.rows ++ [r], by
    rw [List.map_append, List.map_singleton]
    exact t.nodup.append (List.nodup_singleton _) (List.disjoint_singleton.2 h)⟩

/-- Rewrite the rows that satisfy `p` with `g`, which leaves keys alone. -/
def update (t : Table key) (p : ρ → Bool) (g : ρ → ρ) (hg : ∀ r, key (g r) = key r) :
    Table key :=
  ⟨t.rows.map (fun r => if p r then g r else r), by
    have hkey : key ∘ (fun r => if p r then g r else r) = key := by
      funext r
      by_cases hp : p r
      · simp [hp, hg]
      · simp [hp]
    rw [List.map_map, hkey]
    exact t.nodup⟩

/-- Insert a row, or rewrite the row that has its key. -/
def upsert (t : Table key) (r : ρ) (g : ρ → ρ) (hg : ∀ r, key (g r) = key r) : Table key :=
  match t.insert r with
  | some t' => t'
  | none => t.update (fun r' => key r' = key r) g hg

/-- Insert a row in place of the one that has its key, if there is one. -/
def put (t : Table key) (r : ρ) : Table key :=
  ⟨t.rows.filter (fun r' => key r' ≠ key r) ++ [r], by
    rw [List.map_append, List.map_singleton]
    refine List.Nodup.append ?_ (List.nodup_singleton _) (List.disjoint_singleton.2 ?_)
    · exact t.nodup.sublist (List.filter_sublist.map key)
    · simp [List.mem_map]⟩

/-! ## Lookup -/

/-- A row of the table is the row its key looks up. -/
theorem mem_rows_iff {t : Table key} {r : ρ} : r ∈ t.rows ↔ t.lookup (key r) = some r := by
  obtain ⟨rows, hnodup⟩ := t
  change r ∈ rows ↔ rows.find? (fun r' => key r' = key r) = some r
  constructor
  · intro h
    induction rows with
    | nil => cases h
    | cons a rest ih =>
        rw [List.map_cons, List.nodup_cons] at hnodup
        rcases List.mem_cons.1 h with rfl | hmem
        · simp
        · have hne : key a ≠ key r := fun heq => hnodup.1 (heq ▸ List.mem_map_of_mem hmem)
          rw [List.find?_cons_of_neg (by simpa using hne)]
          exact ih hnodup.2 hmem
  · exact fun h => List.mem_of_find?_eq_some h

theorem key_of_lookup {t : Table key} {k : κ} {r : ρ} (h : t.lookup k = some r) : key r = k := by
  simpa using List.find?_some h

theorem lookup_eq_some_iff {t : Table key} {k : κ} {r : ρ} :
    t.lookup k = some r ↔ r ∈ t.rows ∧ key r = k := by
  constructor
  · intro h
    have hk := key_of_lookup h
    subst hk
    exact ⟨mem_rows_iff.2 h, rfl⟩
  · rintro ⟨hmem, rfl⟩
    exact mem_rows_iff.1 hmem

/-- Rows with the same key are the same row. -/
theorem eq_of_mem {t : Table key} {r r' : ρ} (h : r ∈ t.rows) (h' : r' ∈ t.rows)
    (hkey : key r = key r') : r = r' := by
  have hlookup := lookup_eq_some_iff.2 ⟨h', hkey.symm⟩
  rw [mem_rows_iff.1 h] at hlookup
  exact Option.some.inj hlookup

theorem lookup_eq_none_iff {t : Table key} {k : κ} :
    t.lookup k = none ↔ ∀ r ∈ t.rows, key r ≠ k := by
  simp [lookup]

/-- A scan for a key and a condition on its row. -/
theorem find?_rows (t : Table key) (k : κ) (p : ρ → Bool) :
    t.rows.find? (fun r => key r = k && p r) = (t.lookup k).filter p := by
  cases hk : t.lookup k with
  | none =>
      rw [lookup_eq_none_iff] at hk
      rw [Option.filter_none, List.find?_eq_none]
      intro r hr
      simp [hk r hr]
  | some r =>
      obtain ⟨hmem, hkey⟩ := lookup_eq_some_iff.1 hk
      cases hfind : t.rows.find? (fun r => key r = k && p r) with
      | none =>
          have hp := List.find?_eq_none.1 hfind r hmem
          simp only [hkey, decide_true, Bool.true_and] at hp
          rw [Option.filter_some, if_neg hp]
      | some r' =>
          have hr' := List.find?_some hfind
          simp only [Bool.and_eq_true, decide_eq_true_eq] at hr'
          have hsame := lookup_eq_some_iff.2 ⟨List.mem_of_find?_eq_some hfind, hr'.1⟩
          obtain rfl := Option.some.inj (hk.symm.trans hsame)
          rw [Option.filter_some, if_pos hr'.2]

@[simp] theorem lookup_empty (k : κ) : (empty : Table key).lookup k = none := rfl

omit [DecidableEq κ] in
@[simp] theorem rows_empty : (empty : Table key).rows = [] := rfl

/-! ## The effect of each statement -/

theorem insert_eq_none_iff {t : Table key} {r : ρ} :
    t.insert r = none ↔ (t.lookup (key r)).isSome := by
  rw [insert]
  by_cases h : key r ∈ t.rows.map key
  · obtain ⟨r', hr', hk⟩ := List.mem_map.1 h
    simp [h, lookup_eq_some_iff.2 ⟨hr', hk⟩]
  · have hnone : t.lookup (key r) = none :=
      lookup_eq_none_iff.2 (fun r' hr' hk => h (List.mem_map.2 ⟨r', hr', hk⟩))
    simp [h, hnone]

theorem rows_of_insert {t t' : Table key} {r : ρ} (h : t.insert r = some t') :
    t'.rows = t.rows ++ [r] := by
  rw [insert] at h
  split at h
  · cases h
  · obtain rfl := Option.some.inj h
    rfl

theorem lookup_eq_none_of_insert {t t' : Table key} {r : ρ} (h : t.insert r = some t') :
    t.lookup (key r) = none := by
  rw [← Option.not_isSome_iff_eq_none, ← insert_eq_none_iff, h]
  exact Option.some_ne_none t'

/-- A row whose key is free can be inserted. -/
theorem exists_insert {t : Table key} {r : ρ} (h : t.lookup (key r) = none) :
    ∃ t', t.insert r = some t' := by
  rw [← Option.isSome_iff_exists, Option.isSome_iff_ne_none, ne_eq, insert_eq_none_iff, h]
  exact Bool.false_ne_true

theorem lookup_of_insert {t t' : Table key} {r : ρ} (h : t.insert r = some t') (k : κ) :
    t'.lookup k = if k = key r then some r else t.lookup k := by
  have hfresh := lookup_eq_none_of_insert h
  rw [lookup, rows_of_insert h, List.find?_append]
  by_cases hk : k = key r
  · subst hk
    have hold : t.rows.find? (fun r' => key r' = key r) = none := hfresh
    simp [hold]
  · have hlast : [r].find? (fun r' => key r' = k) = none := by simp [Ne.symm hk]
    rw [if_neg hk, hlast, Option.or_none]
    rfl

omit [DecidableEq κ] in
@[simp] theorem rows_update (t : Table key) (p : ρ → Bool) (g : ρ → ρ)
    (hg : ∀ r, key (g r) = key r) :
    (t.update p g hg).rows = t.rows.map (fun r => if p r then g r else r) := rfl

@[simp] theorem lookup_update (t : Table key) (p : ρ → Bool) (g : ρ → ρ)
    (hg : ∀ r, key (g r) = key r) (k : κ) :
    (t.update p g hg).lookup k = (t.lookup k).map (fun r => if p r then g r else r) := by
  have hkey : (fun r' => decide (key r' = k)) ∘ (fun r => if p r then g r else r)
      = fun r' => decide (key r' = k) := by
    funext r
    by_cases hp : p r
    · simp [hp, hg]
    · simp [hp]
  rw [lookup, rows_update, List.find?_map, hkey]
  rfl

theorem lookup_upsert (t : Table key) (r : ρ) (g : ρ → ρ) (hg : ∀ r, key (g r) = key r) (k : κ) :
    (t.upsert r g hg).lookup k
      = if k = key r then some (((t.lookup k).map g).getD r) else t.lookup k := by
  rw [upsert]
  cases hins : t.insert r with
  | some t' =>
      have hfresh := lookup_eq_none_of_insert hins
      rw [lookup_of_insert hins]
      by_cases hk : k = key r
      · subst hk
        simp [hfresh]
      · simp [hk]
  | none =>
      have hsome := insert_eq_none_iff.1 hins
      rw [lookup_update]
      by_cases hk : k = key r
      · subst hk
        obtain ⟨r', hr'⟩ := Option.isSome_iff_exists.1 hsome
        simp [hr', key_of_lookup hr']
      · rw [if_neg hk]
        cases hl : t.lookup k with
        | none => rfl
        | some r' =>
            have hne : ¬ key r' = key r := fun heq => hk ((key_of_lookup hl).symm.trans heq)
            simp [hne]

/-- An insertion or update adds one row at most. -/
theorem length_upsert_le (t : Table key) (r : ρ) (g : ρ → ρ) (hg : ∀ r, key (g r) = key r) :
    (t.upsert r g hg).rows.length ≤ t.rows.length + 1 := by
  rw [upsert]
  cases hins : t.insert r with
  | some t' =>
      simp only
      rw [rows_of_insert hins, List.length_append, List.length_singleton]
  | none =>
      simp only
      rw [rows_update, List.length_map]
      exact Nat.le_succ _

theorem lookup_put (t : Table key) (r : ρ) (k : κ) :
    (t.put r).lookup k = if k = key r then some r else t.lookup k := by
  by_cases hk : k = key r
  · rw [if_pos hk]
    exact lookup_eq_some_iff.2 ⟨List.mem_append_right _ (List.mem_singleton_self r), hk.symm⟩
  · rw [if_neg hk]
    refine Option.ext fun r' => ?_
    rw [lookup_eq_some_iff, lookup_eq_some_iff]
    refine and_congr_left fun hr' => ?_
    rw [put, List.mem_append, List.mem_filter, List.mem_singleton]
    constructor
    · rintro (⟨hmem, -⟩ | rfl)
      · exact hmem
      · exact absurd hr'.symm hk
    · intro hmem
      exact Or.inl ⟨hmem, decide_eq_true fun heq => hk (hr'.symm.trans heq)⟩

theorem length_put_le (t : Table key) (r : ρ) : (t.put r).rows.length ≤ t.rows.length + 1 := by
  rw [put, List.length_append, List.length_singleton]
  exact Nat.add_le_add_right (List.length_filter_le _ _) 1

theorem mem_put {t : Table key} {r r' : ρ} (h : r' ∈ (t.put r).rows) : r' = r ∨ r' ∈ t.rows := by
  rcases List.mem_append.1 h with hold | hnew
  · exact Or.inr (List.mem_of_mem_filter hold)
  · exact Or.inl (List.mem_singleton.1 hnew)

end Table

/-! ## Decoding all rows of a result -/

/-- Rows each of which decodes, decode. -/
theorem mapM_eq_some_of_forall {α β : Type} {f : α → Option β} {as : List α}
    (h : ∀ a ∈ as, (f a).isSome) : ∃ bs, as.mapM f = some bs := by
  induction as with
  | nil => exact ⟨[], rfl⟩
  | cons a as ih =>
      rw [List.forall_mem_cons] at h
      obtain ⟨b, hb⟩ := Option.isSome_iff_exists.1 h.1
      obtain ⟨bs, hbs⟩ := ih h.2
      exact ⟨b :: bs, by simp [List.mapM_cons, hb, hbs]⟩

/-- A successful `mapM` gives the results in order. -/
theorem map_eq_of_mapM_eq_some {α β : Type} {f : α → Option β} {as : List α} {bs : List β}
    (h : as.mapM f = some bs) : as.map f = bs.map some := by
  induction as generalizing bs with
  | nil =>
      obtain rfl : [] = bs := Option.some.inj h
      rfl
  | cons a as ih =>
      simp only [List.mapM_cons, Option.bind_eq_bind, Option.bind_eq_some_iff, Option.pure_def,
        Option.some.injEq] at h
      obtain ⟨b, hb, bs', hbs', rfl⟩ := h
      rw [List.map_cons, List.map_cons, hb, ih hbs']

theorem mem_of_mapM_eq_some {α β : Type} {f : α → Option β} {as : List α} {bs : List β} {b : β}
    (h : as.mapM f = some bs) : b ∈ bs ↔ ∃ a ∈ as, f a = some b := by
  have hmem : b ∈ bs ↔ some b ∈ bs.map some := by simp
  rw [hmem, ← map_eq_of_mapM_eq_some h, List.mem_map]

/-- One row that does not decode spoils the result. -/
theorem mapM_eq_none_of_mem {α β : Type} {f : α → Option β} {as : List α} {a : α} (ha : a ∈ as)
    (h : f a = none) : as.mapM f = none := by
  induction as with
  | nil => cases ha
  | cons a' as ih =>
      rw [List.mapM_cons]
      rcases List.mem_cons.1 ha with rfl | hrest
      · simp [h]
      · simp [ih hrest]

end DaConcept
