import Mathlib.Data.List.Nodup
import Mathlib.Logic.Function.Basic
import XSocialTrader.Lib.SqlValue

/-! Tables of an SQL database as SQLite keeps them: NOT NULL, CHECK and UNIQUE constraints,
triggers that abort a statement, and what one statement leaves in a table. -/
namespace Sql

/-- A column; `currentTimestamp` is its server default. -/
structure Column where
  name : String
  affinity : Affinity
  nullable : Bool
  currentTimestamp : Bool
  deriving DecidableEq, Repr

/-- A table with an integer primary key, its UNIQUE indexes, and the messages of the triggers
that abort an UPDATE or a DELETE of one of its rows. -/
structure Table (F : Type*) where
  primaryKey : String
  columns : List Column
  checks : List (String × Cond F)
  uniques : List (String × List String)
  noUpdate : Option String
  noDelete : Option String

inductive Failure where
  | noSuchTable
  | noSuchColumn
  | constraint (name : String)
  | abort (message : String)
  | overflow
  deriving DecidableEq, Repr

/-- `values` are the bound columns of an insertion and `now` is its CURRENT_TIMESTAMP. -/
inductive Statement (F : Type*) where
  | insert (values : List (String × Value F)) (now : String)
  | insertOrReplace (values : List (String × Value F)) (now : String)
  | update (cond : Row F → Bool) (set : Row F → Row F)
  | delete (cond : Row F → Bool)

namespace Table

variable {F : Type*} [SqlReal F] (t : Table F)

/-- Both rows have the same values in the columns; NULLs are distinct. -/
def conflicts (columns : List String) (r s : Row F) : Bool :=
  columns.all fun c => (r c).compare .eq (s c) == some true

/-- What a row must meet by itself, by the name of the column or constraint. -/
def rowConstraints (row : Row F) : List (String × Bool) :=
  (t.primaryKey, (row t.primaryKey).isInt) ::
    ((t.columns.filter fun c => !c.nullable).map fun c => (c.name, !(row c.name).isNull)) ++
    t.checks.map fun c => (c.1, c.2.eval row != some false)

/-- What a row must meet beside the rows that are there. -/
def uniqueConstraints (rows : List (Row F)) (row : Row F) : List (String × Bool) :=
  t.uniques.map fun u => (u.1, rows.all fun r => !conflicts u.2 r row)

/-- The first constraint that the row violates. -/
def violation (rows : List (Row F)) (row : Row F) : Option String :=
  ((t.rowConstraints row ++ t.uniqueConstraints rows row).find? fun c => !c.2).map (·.1)

omit [SqlReal F] in
def keyOf (row : Row F) : ℤ :=
  match row t.primaryKey with
  | .int n => n
  | _ => 0

omit [SqlReal F] in
/-- The key that an insertion without one gets, one above the largest. SQLite draws it at random
once the largest is that of its range, which is left out. -/
def nextKey : List (Row F) → ℤ
  | [] => 1
  | row :: rows => (rows.map t.keyOf).foldr max (t.keyOf row) + 1

omit [SqlReal F] in
def affinityOf (name : String) : Affinity :=
  ((t.columns.find? fun c => c.name == name).map (·.affinity)).getD .blob

/-- What the columns make of the values that go into a row. -/
def stored (row : Row F) : Row F := fun name => (row name).storeAs (t.affinityOf name)

/-- The row of an insertion, with the defaults of the columns that it does not bind. -/
def newRow (rows : List (Row F)) (values : List (String × Value F)) (now : String) : Row F :=
  t.stored fun name =>
    let bound := (values.lookup name).getD .null
    if name = t.primaryKey ∧ bound.isNull then .int (t.nextKey rows)
    else if (values.lookup name).isNone ∧
        t.columns.any (fun c => c.name == name && c.currentTimestamp) then .text now
    else bound

omit [SqlReal F] in
/-- A NULL for a NOT NULL column with a default. -/
def defaulted (v : String × Value F) : Bool :=
  v.2.isNull && t.columns.any fun c => c.name == v.1 && !c.nullable && c.currentTimestamp

/-- The row of an INSERT OR REPLACE, in which the default stands in for a NULL. -/
def replacement (rows : List (Row F)) (values : List (String × Value F)) (now : String) : Row F :=
  t.newRow rows (values.filter fun v => !t.defaulted v) now

omit [SqlReal F] in
/-- The table has the columns that a statement binds. -/
def knows (values : List (String × Value F)) : Bool :=
  values.all fun v => t.columns.any fun c => c.name == v.1

/-- Rows are rewritten one at a time, each against the others as they then stand. -/
def updateRows (cond : Row F → Bool) (set : Row F → Row F) (done : List (Row F)) :
    List (Row F) → Except Failure (List (Row F))
  | [] => .ok done
  | row :: rest =>
    if cond row then
      match t.violation (done ++ rest) (t.stored (set row)) with
      | some name => .error (.constraint name)
      | none => updateRows cond set (done ++ [t.stored (set row)]) rest
    else updateRows cond set (done ++ [row]) rest

/-- The triggers run before the rows change, once for each row that the statement touches;
the rows that a conflict removes from an INSERT OR REPLACE fire none. -/
def exec (rows : List (Row F)) : Statement F → Except Failure (List (Row F))
  | .insert values now =>
    if t.knows values then
      let row := t.newRow rows values now
      match t.violation rows row with
      | some name => .error (.constraint name)
      | none => .ok (rows ++ [row])
    else .error .noSuchColumn
  | .insertOrReplace values now =>
    if t.knows values then
      let row := t.replacement rows values now
      match (t.rowConstraints row).find? fun c => !c.2 with
      | some c => .error (.constraint c.1)
      | none => .ok (rows.filter (fun r => t.uniques.all fun u => !conflicts u.2 r row) ++ [row])
    else .error .noSuchColumn
  | .update cond set =>
    match t.noUpdate with
    | some message =>
      if rows.any cond then .error (.abort message) else .ok rows
    | none => t.updateRows cond set [] rows
  | .delete cond =>
    match t.noDelete with
    | some message =>
      if rows.any cond then .error (.abort message) else .ok rows
    | none => .ok (rows.filter fun r => !cond r)

/-- An INSERT through the driver, which binds no other integers than those of 64 bits. -/
def execBound (rows : List (Row F)) (values : List (String × Value F)) (now : String) :
    Except Failure (List (Row F)) :=
  if ∀ v ∈ values, v.2.Bindable then t.exec rows (.insert values now) else .error .overflow

/-! ### What one statement leaves -/

/-- The row meets its NOT NULL and CHECK constraints; an unknown CHECK counts as met. -/
structure Admits (row : Row F) : Prop where
  key : (row t.primaryKey).isInt = true
  notNull : ∀ c ∈ t.columns, c.nullable = false → (row c.name).isNull = false
  checks : ∀ c ∈ t.checks, c.2.eval row ≠ some false

/-- Two rows that may stand side by side. -/
def Apart (r s : Row F) : Prop := ∀ u ∈ t.uniques, conflicts u.2 r s = false

/-- The invariant of a table: every row is admitted and holds what its columns store, and no
two have one key. -/
structure Sound (rows : List (Row F)) : Prop where
  admits : ∀ row ∈ rows, t.Admits row
  typed : ∀ row ∈ rows, t.stored row = row
  apart : rows.Pairwise t.Apart

variable {t} {rows rows' : List (Row F)} {row r s : Row F}

theorem stored_stored (row : Row F) : t.stored (t.stored row) = t.stored row :=
  funext fun _ => Value.storeAs_storeAs _ _

theorem stored_newRow (rows : List (Row F)) (values : List (String × Value F)) (now : String) :
    t.stored (t.newRow rows values now) = t.newRow rows values now := stored_stored _

theorem conflicts_comm (columns : List String) (r s : Row F) :
    conflicts columns r s = conflicts columns s r := by
  unfold conflicts
  simp only [compare_eq_comm]

theorem Apart.symm (h : t.Apart r s) : t.Apart s r := by
  intro u hu
  rw [conflicts_comm]
  exact h u hu

theorem rowConstraints_iff :
    (∀ c ∈ t.rowConstraints row, c.2 = true) ↔ t.Admits row := by
  simp only [rowConstraints, List.cons_append, List.mem_cons, List.mem_append, List.mem_map,
    List.mem_filter]
  constructor
  · intro h
    refine ⟨h _ (Or.inl rfl), fun c hc hnull => ?_, fun c hc => ?_⟩
    · simpa using h _ (Or.inr (Or.inl ⟨c, ⟨hc, by simp [hnull]⟩, rfl⟩))
    · simpa using h _ (Or.inr (Or.inr ⟨c, hc, rfl⟩))
  · rintro h c (rfl | ⟨d, ⟨hd, hnull⟩, rfl⟩ | ⟨d, hd, rfl⟩)
    · exact h.key
    · simpa using h.notNull d hd (by simpa using hnull)
    · simpa using h.checks d hd

theorem uniqueConstraints_iff :
    (∀ c ∈ t.uniqueConstraints rows row, c.2 = true) ↔ ∀ r ∈ rows, t.Apart r row := by
  simp only [uniqueConstraints, List.mem_map, forall_exists_index, and_imp,
    forall_apply_eq_imp_iff₂, List.all_eq_true, Bool.not_eq_true']
  exact ⟨fun h r hr u hu => h u hu r hr, fun h u hu r hr => h r hr u hu⟩

/-- A row that violates nothing is admitted, and apart from the rows that are there. -/
theorem violation_eq_none :
    t.violation rows row = none ↔ t.Admits row ∧ ∀ r ∈ rows, t.Apart r row := by
  rw [violation, Option.map_eq_none_iff, List.find?_eq_none, ← rowConstraints_iff,
    ← uniqueConstraints_iff]
  simp only [List.mem_append, Bool.not_eq_true', Bool.not_eq_false, or_imp, forall_and]

theorem Sound.append_singleton (h : t.Sound rows) (hrow : t.Admits row)
    (htyped : t.stored row = row) (hapart : ∀ r ∈ rows, t.Apart r row) :
    t.Sound (rows ++ [row]) := by
  constructor
  · intro r hr
    rcases List.mem_append.mp hr with hr | hr
    · exact h.admits r hr
    · rw [List.mem_singleton.mp hr]
      exact hrow
  · intro r hr
    rcases List.mem_append.mp hr with hr | hr
    · exact h.typed r hr
    · rw [List.mem_singleton.mp hr]
      exact htyped
  · rw [List.pairwise_append]
    refine ⟨h.apart, List.pairwise_singleton _ _, fun r hr s hs => ?_⟩
    rw [List.mem_singleton.mp hs]
    exact hapart r hr

theorem Sound.filter (h : t.Sound rows) (p : Row F → Bool) : t.Sound (rows.filter p) :=
  ⟨fun row hrow => h.admits row (List.mem_of_mem_filter hrow),
    fun row hrow => h.typed row (List.mem_of_mem_filter hrow), h.apart.filter p⟩

/-- A rewritten row takes the place of the old one among rows that it is apart from. -/
theorem Sound.replace {done rest : List (Row F)} {old new : Row F}
    (h : t.Sound (done ++ old :: rest)) (hnew : t.Admits new) (htyped : t.stored new = new)
    (hapart : ∀ r ∈ done ++ rest, t.Apart r new) : t.Sound (done ++ new :: rest) := by
  have hpair := h.apart
  rw [List.pairwise_append, List.pairwise_cons] at hpair
  obtain ⟨hdone, ⟨-, hrest⟩, hcross⟩ := hpair
  constructor
  · intro r hr
    simp only [List.mem_append, List.mem_cons] at hr
    rcases hr with hr | rfl | hr
    · exact h.admits r (by simp [hr])
    · exact hnew
    · exact h.admits r (by simp [hr])
  · intro r hr
    simp only [List.mem_append, List.mem_cons] at hr
    rcases hr with hr | rfl | hr
    · exact h.typed r (by simp [hr])
    · exact htyped
    · exact h.typed r (by simp [hr])
  · rw [List.pairwise_append, List.pairwise_cons]
    refine ⟨hdone, ⟨fun s hs => (hapart s (by simp [hs])).symm, hrest⟩, fun r hr s hs => ?_⟩
    rcases List.mem_cons.mp hs with rfl | hs
    · exact hapart r (by simp [hr])
    · exact hcross r hr s (List.mem_cons_of_mem _ hs)

theorem updateRows_sound {cond : Row F → Bool} {set : Row F → Row F} {done rest : List (Row F)}
    (h : t.Sound (done ++ rest)) (hok : t.updateRows cond set done rest = .ok rows') :
    t.Sound rows' := by
  induction rest generalizing done with
  | nil =>
    obtain rfl := Except.ok.inj hok
    simpa using h
  | cons row rest ih =>
    rw [updateRows] at hok
    by_cases hcond : cond row = true
    · rw [if_pos hcond] at hok
      cases hv : t.violation (done ++ rest) (t.stored (set row)) with
      | some name => simp [hv] at hok
      | none =>
        simp only [hv] at hok
        obtain ⟨hadm, hapart⟩ := violation_eq_none.mp hv
        apply ih _ hok
        rw [List.append_assoc]
        exact h.replace hadm (stored_stored _) hapart
    · rw [if_neg hcond] at hok
      apply ih _ hok
      rw [List.append_assoc]
      exact h

/-- The rows after an insertion: the old ones and one more. -/
theorem exec_insert_ok {values : List (String × Value F)} {now : String} :
    t.exec rows (.insert values now) = .ok rows' ↔
      t.knows values = true ∧
        t.violation rows (t.newRow rows values now) = none ∧
        rows' = rows ++ [t.newRow rows values now] := by
  simp only [exec]
  by_cases hcols : t.knows values = true
  · rw [if_pos hcols]
    cases hv : t.violation rows (t.newRow rows values now) with
    | some name => simp
    | none => simp [hcols, eq_comm]
  · rw [if_neg hcols]
    simp [hcols]

/-- An INSERT OR REPLACE of known columns succeeds exactly if the table admits its row, and
keeps the rows that this one is apart from. -/
theorem exec_insertOrReplace_ok {values : List (String × Value F)} {now : String} :
    t.exec rows (.insertOrReplace values now) = .ok rows' ↔
      t.knows values = true ∧ t.Admits (t.replacement rows values now) ∧
        rows' = rows.filter (fun r => t.uniques.all fun u =>
          !conflicts u.2 r (t.replacement rows values now)) ++
            [t.replacement rows values now] := by
  simp only [exec, ← rowConstraints_iff]
  by_cases hcols : t.knows values = true
  · rw [if_pos hcols]
    cases hv : (t.rowConstraints (t.replacement rows values now)).find? fun c => !c.2 with
    | some c =>
      have hbad := List.find?_some hv
      simp only [reduceCtorEq, hcols, true_and, false_iff, not_and]
      intro hall
      rw [hall c (List.mem_of_find?_eq_some hv)] at hbad
      cases hbad
    | none =>
      have hall : ∀ c ∈ t.rowConstraints (t.replacement rows values now), c.2 = true := by
        simpa using List.find?_eq_none.mp hv
      exact ⟨fun h => ⟨hcols, hall, (Except.ok.inj h).symm⟩, fun h => congrArg _ h.2.2.symm⟩
  · rw [if_neg hcols]
    exact ⟨nofun, fun h => absurd h.1 hcols⟩

/-- What an INSERT OR REPLACE leaves: its own row and those that share no key with it. -/
theorem mem_of_insertOrReplace {values : List (String × Value F)} {now : String}
    (hok : t.exec rows (.insertOrReplace values now) = .ok rows') :
    r ∈ rows' ↔ r = t.replacement rows values now ∨
      r ∈ rows ∧ t.Apart r (t.replacement rows values now) := by
  obtain ⟨-, -, rfl⟩ := exec_insertOrReplace_ok.mp hok
  simp only [List.mem_append, List.mem_filter, List.mem_singleton, List.all_eq_true,
    Bool.not_eq_true', Apart]
  exact or_comm

/-- Every statement that succeeds keeps the constraints of the table. -/
theorem exec_sound {statement : Statement F} (h : t.Sound rows)
    (hok : t.exec rows statement = .ok rows') : t.Sound rows' := by
  cases statement with
  | insert values now =>
    obtain ⟨-, hv, rfl⟩ := exec_insert_ok.mp hok
    obtain ⟨hadm, hapart⟩ := violation_eq_none.mp hv
    exact h.append_singleton hadm (stored_newRow _ _ _) hapart
  | insertOrReplace values now =>
    obtain ⟨-, hadm, rfl⟩ := exec_insertOrReplace_ok.mp hok
    apply (h.filter _).append_singleton hadm (stored_newRow _ _ _)
    intro r hr u hu
    have hall := (List.mem_filter.mp hr).2
    simpa using List.all_eq_true.mp hall u hu
  | update cond set =>
    simp only [exec] at hok
    cases hm : t.noUpdate with
    | some message =>
      simp only [hm] at hok
      split_ifs at hok
      obtain rfl := Except.ok.inj hok
      exact h
    | none =>
      simp only [hm] at hok
      exact updateRows_sound (by simpa using h) hok
  | delete cond =>
    simp only [exec] at hok
    cases hm : t.noDelete with
    | some message =>
      simp only [hm] at hok
      split_ifs at hok
      obtain rfl := Except.ok.inj hok
      exact h
    | none =>
      simp only [hm] at hok
      obtain rfl := Except.ok.inj hok
      exact h.filter _

/-- The table has both triggers. -/
def AppendOnly (t : Table F) : Prop := t.noUpdate.isSome = true ∧ t.noDelete.isSome = true

def Statement.replaces : Statement F → Bool
  | .insertOrReplace _ _ => true
  | _ => false

omit [SqlReal F] in
/-- What a trigger that aborts lets pass: a statement that touches no row. -/
theorem abort_or_keep_ok {cond : Row F → Bool} {failure : Failure} :
    (if rows.any cond then .error failure else .ok rows : Except Failure (List (Row F))) =
      .ok rows' ↔ (∀ r ∈ rows, cond r = false) ∧ rows' = rows := by
  by_cases hany : rows.any cond = true
  · rw [if_pos hany]
    obtain ⟨r, hr, hcond⟩ := List.any_eq_true.mp hany
    constructor
    · intro h
      cases h
    · rintro ⟨hnone, -⟩
      rw [hnone r hr] at hcond
      cases hcond
  · rw [if_neg hany]
    have hnone : ∀ r ∈ rows, cond r = false := by simpa using hany
    exact ⟨fun h => ⟨hnone, (Except.ok.inj h).symm⟩, fun h => by rw [h.2]⟩

/-- On a table with both triggers an UPDATE passes exactly when it touches no row. -/
theorem AppendOnly.exec_update (ht : t.AppendOnly) {cond : Row F → Bool}
    {set : Row F → Row F} :
    t.exec rows (.update cond set) = .ok rows' ↔ (∀ r ∈ rows, cond r = false) ∧ rows' = rows := by
  obtain ⟨message, hm⟩ := Option.isSome_iff_exists.mp ht.1
  simp only [exec, hm]
  exact abort_or_keep_ok

theorem AppendOnly.exec_delete (ht : t.AppendOnly) {cond : Row F → Bool} :
    t.exec rows (.delete cond) = .ok rows' ↔ (∀ r ∈ rows, cond r = false) ∧ rows' = rows := by
  obtain ⟨message, hm⟩ := Option.isSome_iff_exists.mp ht.2
  simp only [exec, hm]
  exact abort_or_keep_ok

/-- A table with both triggers only grows at its end, INSERT OR REPLACE apart. -/
theorem AppendOnly.exec_prefix (ht : t.AppendOnly) {statement : Statement F}
    (hrep : Statement.replaces statement = false) (hok : t.exec rows statement = .ok rows') :
    rows <+: rows' := by
  cases statement with
  | insert values now =>
    obtain ⟨-, -, rfl⟩ := exec_insert_ok.mp hok
    exact List.prefix_append _ _
  | insertOrReplace values now => cases hrep
  | update cond set =>
    obtain ⟨-, rfl⟩ := ht.exec_update.mp hok
    exact List.prefix_refl _
  | delete cond =>
    obtain ⟨-, rfl⟩ := ht.exec_delete.mp hok
    exact List.prefix_refl _

/-- The only statement that takes a row out of such a table is an INSERT OR REPLACE of another
row with one of its keys. -/
theorem AppendOnly.exec_loses (ht : t.AppendOnly) {statement : Statement F}
    (hok : t.exec rows statement = .ok rows') (hr : r ∈ rows) (hlost : r ∉ rows') :
    ∃ values now, statement = .insertOrReplace values now ∧
      ∃ u ∈ t.uniques, conflicts u.2 r (t.replacement rows values now) = true := by
  by_cases hrep : Statement.replaces statement = true
  · cases statement with
    | insertOrReplace values now =>
      refine ⟨values, now, rfl, ?_⟩
      rw [mem_of_insertOrReplace hok, not_or, not_and] at hlost
      simpa [Apart] using hlost.2 hr
    | insert values now => cases hrep
    | update cond set => cases hrep
    | delete cond => cases hrep
  · have hextends := ht.exec_prefix (by simpa using hrep) hok
    exact absurd (hextends.subset hr) hlost

end Table
end Sql
