import XSocialTrader.Lib.SqlTable

/-! A database of tables and the connections that write to it. At most one connection has
uncommitted changes; another one that writes meanwhile finds the database locked. -/
namespace Sql

variable {F ι : Type*} [SqlReal F]

/-- The tables of a database by name. -/
abbrev Schema (F : Type*) := List (String × Table F)

/-- The rows of each table. -/
abbrev Data (F : Type*) := String → List (Row F)

/-- One statement on a named table; a failed one changes nothing. -/
def execute (schema : Schema F) (data : Data F) (target : String) (statement : Statement F) :
    Except Failure (Data F) :=
  match schema.lookup target with
  | none => .error .noSuchTable
  | some t => (t.exec (data target) statement).map fun rows => Function.update data target rows

/-- `writer` is the connection in a write transaction and what it sees. -/
structure Store (ι F : Type*) where
  committed : Data F
  writer : Option (ι × Data F)

/-- A process that dies or closes its session rolls back. -/
inductive DbAction (ι F : Type*) where
  | statement (connection : ι) (target : String) (statement : Statement F)
  | commit (connection : ι)
  | rollback (connection : ι)

namespace Store

variable [DecidableEq ι]

omit [SqlReal F] in
/-- What a statement of the connection works on; `none` when the database is locked. -/
def working (s : Store ι F) (connection : ι) : Option (Data F) :=
  match s.writer with
  | none => some s.committed
  | some (i, data) => if i = connection then some data else none

def step (schema : Schema F) (s : Store ι F) : DbAction ι F → Store ι F
  | .statement connection target statement =>
    match s.working connection with
    | none => s
    | some data =>
      match execute schema data target statement with
      | .error _ => s
      | .ok data' => { s with writer := some (connection, data') }
  | .commit connection =>
    match s.writer with
    | none => s
    | some (i, data) => if i = connection then ⟨data, none⟩ else s
  | .rollback connection =>
    match s.writer with
    | none => s
    | some (i, _) => if i = connection then ⟨s.committed, none⟩ else s

def run (schema : Schema F) (s : Store ι F) (actions : List (DbAction ι F)) : Store ι F :=
  actions.foldl (step schema) s

/-- What one action can do: nothing, one statement of the writer, a commit, a rollback. -/
theorem step_cases (schema : Schema F) (s : Store ι F) (a : DbAction ι F) :
    step schema s a = s ∨
    (∃ i target statement data data', a = .statement i target statement ∧
      s.working i = some data ∧ execute schema data target statement = .ok data' ∧
      step schema s a = { s with writer := some (i, data') }) ∨
    (∃ i data, s.writer = some (i, data) ∧ step schema s a = ⟨data, none⟩) ∨
    step schema s a = ⟨s.committed, none⟩ := by
  cases a with
  | statement i target statement =>
    cases hw : s.working i with
    | none => exact Or.inl (by simp [step, hw])
    | some data =>
      cases he : execute schema data target statement with
      | error failure => exact Or.inl (by simp [step, hw, he])
      | ok data' =>
        exact Or.inr (Or.inl
          ⟨i, target, statement, data, data', rfl, hw, he, by simp [step, hw, he]⟩)
  | commit i =>
    cases hw : s.writer with
    | none => exact Or.inl (by simp [step, hw])
    | some w =>
      obtain ⟨j, data⟩ := w
      by_cases hij : j = i
      · exact Or.inr (Or.inr (Or.inl ⟨j, data, rfl, by simp [step, hw, hij]⟩))
      · exact Or.inl (by simp [step, hw, hij])
  | rollback i =>
    cases hw : s.writer with
    | none => exact Or.inl (by simp [step, hw])
    | some w =>
      obtain ⟨j, data⟩ := w
      by_cases hij : j = i
      · exact Or.inr (Or.inr (Or.inr (by simp [step, hw, hij])))
      · exact Or.inl (by simp [step, hw, hij])

/-- A property of the committed tables and of what the writer sees. -/
def Holds (P : Data F → Prop) (s : Store ι F) : Prop :=
  P s.committed ∧ ∀ i data, s.writer = some (i, data) → P data

omit [SqlReal F] in
theorem Holds.working {P : Data F → Prop} {s : Store ι F} (h : s.Holds P) {i : ι}
    {data : Data F} (hw : s.working i = some data) : P data := by
  unfold Store.working at hw
  split at hw
  · exact Option.some.inj hw ▸ h.1
  · rename_i j d heq
    split_ifs at hw
    exact Option.some.inj hw ▸ h.2 j d heq

/-- What every statement keeps holds of all that any interleaving reaches. -/
theorem run_holds {schema : Schema F} {P : Data F → Prop}
    (hstatement : ∀ data target statement data', P data →
      execute schema data target statement = .ok data' → P data')
    {s : Store ι F} (h : s.Holds P) (actions : List (DbAction ι F)) :
    (run schema s actions).Holds P := by
  induction actions generalizing s with
  | nil => exact h
  | cons a actions ih =>
    apply ih
    rcases step_cases schema s a with hs | ⟨i, target, statement, data, data', -, hw, he, hs⟩ |
      ⟨i, data, hw, hs⟩ | hs
    · exact hs.symm ▸ h
    · rw [hs]
      refine ⟨h.1, fun j d hjd => ?_⟩
      obtain ⟨-, rfl⟩ := Prod.mk.inj (Option.some.inj hjd)
      exact hstatement data target statement data' (h.working hw) he
    · rw [hs]
      exact ⟨h.2 i data hw, by simp⟩
    · rw [hs]
      exact ⟨h.1, by simp⟩

/-- What every statement of the run relates to its outcome relates the committed tables to
all that comes later. -/
theorem run_relates {schema : Schema F} {R : Data F → Data F → Prop}
    (htrans : ∀ d e f, R d e → R e f → R d f) {s : Store ι F}
    (h : s.Holds (R s.committed)) {actions : List (DbAction ι F)}
    (hstatement : ∀ i target statement, DbAction.statement i target statement ∈ actions →
      ∀ data data', execute schema data target statement = .ok data' → R data data') :
    (run schema s actions).Holds (R s.committed) := by
  suffices hinv : ∀ s' : Store ι F, s'.Holds (R s.committed) →
      (run schema s' actions).Holds (R s.committed) from hinv s h
  induction actions with
  | nil => exact fun s' h' => h'
  | cons a actions ih =>
    intro s' h'
    apply ih fun i target st hmem => hstatement i target st (List.mem_cons_of_mem a hmem)
    rcases step_cases schema s' a with hs | ⟨i, target, statement, data, data', ha, hw, he, hs⟩ |
      ⟨i, data, hw, hs⟩ | hs
    · exact hs.symm ▸ h'
    · rw [hs]
      refine ⟨h'.1, fun j d hjd => ?_⟩
      obtain ⟨-, rfl⟩ := Prod.mk.inj (Option.some.inj hjd)
      have hR := hstatement i target statement (ha ▸ List.mem_cons_self) data data' he
      exact htrans _ _ _ (h'.working hw) hR
    · rw [hs]
      exact ⟨h'.2 i data hw, by simp⟩
    · rw [hs]
      exact ⟨h'.1, by simp⟩

/-- What the writer sees stays ahead of what is committed, through every commit. -/
theorem run_ahead {schema : Schema F} {R : Data F → Data F → Prop} (hrefl : ∀ d, R d d)
    (htrans : ∀ d e f, R d e → R e f → R d f) {s : Store ι F}
    (h : s.Holds (R s.committed)) {actions : List (DbAction ι F)}
    (hstatement : ∀ i target statement, DbAction.statement i target statement ∈ actions →
      ∀ data data', execute schema data target statement = .ok data' → R data data') :
    (run schema s actions).Holds (R (run schema s actions).committed) := by
  induction actions generalizing s with
  | nil => exact h
  | cons a actions ih =>
    refine ih ?_ fun i target st hmem => hstatement i target st (List.mem_cons_of_mem a hmem)
    rcases step_cases schema s a with hs | ⟨i, target, statement, data, data', ha, hw, he, hs⟩ |
      ⟨i, data, hw, hs⟩ | hs
    · exact hs.symm ▸ h
    · rw [hs]
      refine ⟨hrefl _, fun j d hjd => ?_⟩
      obtain ⟨-, rfl⟩ := Prod.mk.inj (Option.some.inj hjd)
      have hR := hstatement i target statement (ha ▸ List.mem_cons_self) data data' he
      exact htrans _ _ _ (h.working hw) hR
    · rw [hs]
      exact ⟨hrefl _, by simp⟩
    · rw [hs]
      exact ⟨hrefl _, by simp⟩

end Store

/-! ## What every database keeps -/

/-- The constraints hold in every table. -/
def Sound (schema : Schema F) (data : Data F) : Prop :=
  ∀ name t, schema.lookup name = some t → t.Sound (data name)

theorem execute_ok {schema : Schema F} {data data' : Data F} {target : String}
    {statement : Statement F} (h : execute schema data target statement = .ok data') :
    ∃ t rows, schema.lookup target = some t ∧ t.exec (data target) statement = .ok rows ∧
      data' = Function.update data target rows := by
  unfold execute at h
  cases ht : schema.lookup target with
  | none => simp [ht] at h
  | some t =>
    simp only [ht] at h
    cases hr : t.exec (data target) statement with
    | error failure => simp [hr, Except.map] at h
    | ok rows =>
      rw [hr] at h
      exact ⟨t, rows, rfl, hr, (Except.ok.inj h).symm⟩

theorem execute_sound {schema : Schema F} {data data' : Data F} {target : String}
    {statement : Statement F} (hs : Sound schema data)
    (h : execute schema data target statement = .ok data') : Sound schema data' := by
  obtain ⟨t, rows, ht, hr, rfl⟩ := execute_ok h
  intro name t' ht'
  by_cases hname : name = target
  · subst hname
    rw [Function.update_self]
    obtain rfl := Option.some.inj (ht.symm.trans ht')
    exact Table.exec_sound (hs name t ht) hr
  · rw [Function.update_of_ne hname]
    exact hs name t' ht'

/-- In every interleaving of any number of connections the constraints hold of what is
committed and of what the writer sees. -/
theorem run_sound [DecidableEq ι] {schema : Schema F} {s : Store ι F}
    (h : s.Holds (Sound schema)) (actions : List (DbAction ι F)) :
    (s.run schema actions).Holds (Sound schema) :=
  Store.run_holds (fun _ _ _ _ hs he => execute_sound hs he) h actions

/-- No action replaces rows of the table. -/
def NeverReplaced (name : String) (actions : List (DbAction ι F)) : Prop :=
  ∀ i statement, DbAction.statement i name statement ∈ actions →
    Table.Statement.replaces statement = false

/-- A statement leaves the rows of such a table in place. -/
theorem execute_prefix {schema : Schema F} {name : String} {t : Table F}
    (ht : schema.lookup name = some t) (haudit : t.AppendOnly)
    {actions : List (DbAction ι F)} (hrep : NeverReplaced name actions) {i : ι} {target : String}
    {statement : Statement F} (hmem : DbAction.statement i target statement ∈ actions)
    {data data' : Data F} (he : execute schema data target statement = .ok data') :
    data name <+: data' name := by
  obtain ⟨t', rows, ht', hr, rfl⟩ := execute_ok he
  by_cases hname : name = target
  · subst hname
    rw [Function.update_self]
    obtain rfl := Option.some.inj (ht.symm.trans ht')
    exact haudit.exec_prefix (hrep i statement hmem) hr
  · have hsame : Function.update data target rows name = data name :=
      Function.update_of_ne hname rows data
    exact hsame.symm ▸ List.prefix_refl (data name)

/-- The rows of a table with both triggers that are committed at one point of an interleaving
are a prefix of what is committed and seen at every later point. -/
theorem run_prefix [DecidableEq ι] {schema : Schema F} {name : String} {t : Table F}
    (ht : schema.lookup name = some t) (haudit : t.AppendOnly) {s : Store ι F}
    (hs : s.writer = none) {before after : List (DbAction ι F)}
    (hrep : NeverReplaced name (before ++ after)) :
    (s.run schema (before ++ after)).Holds fun data =>
      (s.run schema before).committed name <+: data name := by
  have hahead : (s.run schema before).Holds fun data =>
      (s.run schema before).committed name <+: data name := by
    apply Store.run_ahead (R := fun d e => d name <+: e name) (fun d => List.prefix_refl _)
      (fun d e f hde hef => hde.trans hef)
    · exact ⟨List.prefix_refl _, by simp [hs]⟩
    · intro i target statement hmem data data' he
      exact execute_prefix ht haudit hrep (List.mem_append_left _ hmem) he
  have hrun : s.run schema (before ++ after) = (s.run schema before).run schema after := by
    simp only [Store.run, List.foldl_append]
  rw [hrun]
  apply Store.run_relates (R := fun d e => d name <+: e name)
    (fun d e f hde hef => hde.trans hef) hahead
  intro i target statement hmem data data' he
  exact execute_prefix ht haudit hrep (List.mem_append_right _ hmem) he

/-- No trigger stops an INSERT OR REPLACE: where the table admits its row it succeeds, and it
keeps exactly the rows that share no key with this one. -/
theorem execute_insertOrReplace {schema : Schema F} {name : String} {t : Table F}
    (ht : schema.lookup name = some t) {data : Data F} {values : List (String × Value F)}
    {now : String} (hknows : t.knows values = true)
    (hadm : t.Admits (t.replacement (data name) values now)) :
    ∃ left, execute schema data name (.insertOrReplace values now) = .ok left ∧
      ∀ row, row ∈ left name ↔ row = t.replacement (data name) values now ∨
        row ∈ data name ∧ t.Apart row (t.replacement (data name) values now) := by
  have hexec := Table.exec_insertOrReplace_ok.mpr ⟨hknows, hadm, rfl⟩
  refine ⟨_, by simp only [execute, ht, hexec, Except.map]; rfl, fun row => ?_⟩
  rw [Function.update_self]
  exact Table.mem_of_insertOrReplace hexec

/-- The action succeeds, puts a row with one of its keys in the table, and takes the row out. -/
def Replaces [DecidableEq ι] (schema : Schema F) (t : Table F) (name : String) (row : Row F)
    (s : Store ι F) (a : DbAction ι F) : Prop :=
  ∃ i values now data left, a = .statement i name (.insertOrReplace values now) ∧
    s.working i = some data ∧
    execute schema data name (.insertOrReplace values now) = .ok left ∧
    row ∈ data name ∧ row ∉ left name ∧ t.replacement (data name) values now ∈ left name ∧
    ∃ u ∈ t.uniques, Table.conflicts u.2 row (t.replacement (data name) values now) = true

/-- A row of a table with both triggers is still in all that any interleaving makes of it,
unless one of the actions has replaced it. -/
theorem run_keeps_row [DecidableEq ι] {schema : Schema F} {name : String} {t : Table F}
    (ht : schema.lookup name = some t) (haudit : t.AppendOnly) {row : Row F} {s : Store ι F}
    (hs : s.Holds fun data => row ∈ data name) (actions : List (DbAction ι F)) :
    (s.run schema actions).Holds (fun data => row ∈ data name) ∨
      ∃ before a after, actions = before ++ a :: after ∧
        Replaces schema t name row (s.run schema before) a := by
  induction actions generalizing s with
  | nil => exact Or.inl hs
  | cons a actions ih =>
    by_cases hrep : Replaces schema t name row s a
    · exact Or.inr ⟨[], a, actions, rfl, hrep⟩
    · have hstep : (s.step schema a).Holds fun data => row ∈ data name := by
        rcases s.step_cases schema a with h | ⟨i, target, statement, data, left, rfl, hw, he, h⟩ |
          ⟨i, data, hw, h⟩ | h
        · exact h.symm ▸ hs
        · rw [h]
          refine ⟨hs.1, fun j d hjd => ?_⟩
          obtain ⟨-, rfl⟩ := Prod.mk.inj (Option.some.inj hjd)
          obtain ⟨t', rows, ht', hr, rfl⟩ := execute_ok he
          by_cases hname : name = target
          · subst hname
            obtain rfl := Option.some.inj (ht.symm.trans ht')
            by_contra hlost
            rw [Function.update_self] at hlost
            obtain ⟨values, now, rfl, hkey⟩ := haudit.exec_loses hr (hs.working hw) hlost
            have hnew := (Table.mem_of_insertOrReplace hr).mpr (Or.inl rfl)
            refine hrep ⟨i, values, now, data, _, rfl, hw, he, hs.working hw, ?_, ?_, hkey⟩ <;>
              rwa [Function.update_self]
          · rw [Function.update_of_ne hname]
            exact hs.working hw
        · rw [h]
          exact ⟨hs.2 i data hw, by simp⟩
        · rw [h]
          exact ⟨hs.1, by simp⟩
      rcases ih hstep with hkept | ⟨before, b, after, rfl, hb⟩
      · exact Or.inl hkept
      · exact Or.inr ⟨a :: before, b, after, rfl, hb⟩

end Sql
