import Mathlib.Data.List.MinMax
import XSocialTrader.Lib.SqlStore

/-! Rows that a script looks up by a key and inserts where they are missing. -/
namespace Sql

variable {F : Type*} [SqlReal F]

/-- A row to have in a table: the columns that it is looked up by, and what an insertion binds. -/
structure Wanted (F : Type*) where
  target : String
  key : List String
  values : List (String × Value F)

inductive SeedFailure where
  | database (failure : Failure)
  | multipleResults
  | unreadable
  deriving DecidableEq, Repr

namespace Wanted

/-- The condition of the lookup. -/
def found (w : Wanted F) (row : Row F) : Bool :=
  w.key.all fun c => (row c).compare .eq ((w.values.lookup c).getD .null) == some true

/-- Look the row up and insert it if it is missing; whether it was is the first component. The
row that is found is loaded, which fails where it holds what `loads` does not take, and two
rows where one is expected are an error. -/
def ensure (schema : Schema F) (loads : String → Row F → Bool) (now : Wanted F → String)
    (data : Data F) (w : Wanted F) : Except SeedFailure (Bool × Data F) :=
  match (data w.target).filter w.found with
  | [] => match execute schema data w.target (.insert w.values (now w)) with
    | .error failure => .error (.database failure)
    | .ok left => .ok (true, left)
  | [row] => if loads w.target row then .ok (false, data) else .error .unreadable
  | _ => .error .multipleResults

def ensureAll (schema : Schema F) (loads : String → Row F → Bool) (now : Wanted F → String)
    (data : Data F) : List (Wanted F) → Except SeedFailure (List Bool × Data F)
  | [] => .ok ([], data)
  | w :: ws => do
    let (inserted, data) ← ensure schema loads now data w
    let (rest, data) ← ensureAll schema loads now data ws
    return (inserted :: rest, data)

def Present (data : Data F) (w : Wanted F) : Prop := ∃ row ∈ data w.target, w.found row = true

/-- The row is not there, or can be loaded. -/
def Readable (loads : String → Row F → Bool) (data : Data F) (w : Wanted F) : Prop :=
  ∀ row ∈ data w.target, w.found row = true → loads w.target row = true

instance (loads : String → Row F → Bool) (data : Data F) (w : Wanted F) :
    Decidable (w.Readable loads data) :=
  inferInstanceAs (Decidable (∀ row ∈ data w.target, w.found row = true → _))

/-- Rows that one lookup finds the other one does not. -/
def Distinct (w v : Wanted F) : Prop :=
  w.target = v.target → ∃ c ∈ w.key, c ∈ v.key ∧ w.values.lookup c ≠ v.values.lookup c

/-- A value that is found again by comparing: a text, or an integer in the primary key. -/
def KeyValue (t : Table F) (c : String) (v : Value F) : Prop :=
  ((∃ s, v = .text s) ∨ c = t.primaryKey ∧ ∃ n, v = .int n) ∧ v.storeAs (t.affinityOf c) = v

/-- The table takes the row whenever its key is missing: the key is one of its UNIQUE indexes,
any other index is the primary key, which the insertion leaves to the database, and the row
meets the constraints by itself. -/
structure Fits (schema : Schema F) (w : Wanted F) (t : Table F) : Prop where
  table : schema.lookup w.target = some t
  columns : t.knows w.values = true
  key : ∃ u ∈ t.uniques, u.2 = w.key
  others : ∀ u ∈ t.uniques, u.2 = w.key ∨ u.2 = [t.primaryKey] ∧
    w.values.lookup t.primaryKey = none
  bound : ∀ c ∈ w.key, ∃ v, w.values.lookup c = some v ∧ KeyValue t c v
  admits : ∀ rows now, t.Admits (t.newRow rows w.values now)

end Wanted

namespace Table

variable {t : Table F} {rows : List (Row F)} {row : Row F} {now : String}
  {values : List (String × Value F)}

omit [SqlReal F] in
theorem keyOf_lt_nextKey (h : row ∈ rows) : t.keyOf row < t.nextKey rows := by
  have hbase (key : ℤ) (keys : List ℤ) : key ≤ keys.foldr max key := by
    induction keys with
    | nil => exact le_rfl
    | cons k keys ih => exact le_max_of_le_right ih
  cases rows with
  | nil => cases h
  | cons r rows =>
    apply Int.lt_add_one_of_le
    rcases List.mem_cons.mp h with rfl | h
    · exact hbase _ _
    · exact List.le_max_of_le' _ (List.mem_map_of_mem h) le_rfl

/-- The key that the database gives out is on no row yet. -/
theorem Admits.conflicts_nextKey (h : t.Admits row) (hrow : row ∈ rows)
    (hkey : values.lookup t.primaryKey = none) (hadm : t.Admits (t.newRow rows values now)) :
    conflicts [t.primaryKey] row (t.newRow rows values now) = false := by
  have hnew : t.newRow rows values now t.primaryKey = .int (t.nextKey rows) := by
    have hstored : t.newRow rows values now t.primaryKey =
        (Value.int (t.nextKey rows)).storeAs (t.affinityOf t.primaryKey) := by
      simp [newRow, stored, hkey, Value.isNull]
    have hint := hadm.key
    rw [hstored] at hint ⊢
    cases ha : t.affinityOf t.primaryKey <;> rw [ha] at hint <;> first | rfl | cases hint
  have hlt := keyOf_lt_nextKey (t := t) hrow
  have hint := h.key
  unfold keyOf at hlt
  cases hv : row t.primaryKey with
  | int n =>
    rw [hv] at hlt
    have hne : n ≠ t.nextKey rows := Int.ne_of_lt hlt
    simp [conflicts, hv, hnew, Value.compare, Operator.onInts, hne]
  | null => simp [hv, Value.isInt] at hint
  | real x => simp [hv, Value.isInt] at hint
  | text s => simp [hv, Value.isInt] at hint
  | blob bytes => simp [hv, Value.isInt] at hint

end Table

namespace Wanted

variable {schema : Schema F} {w v : Wanted F} {t : Table F} {data left : Data F}
  {rows : List (Row F)} {r s : Row F} {now : Wanted F → String} {loads : String → Row F → Bool}

/-- An admitted row compares equal with such a value only if it holds it. -/
theorem KeyValue.compare_iff {c : String} {v : Value F} (h : KeyValue t c v)
    (hr : t.Admits r) : (r c).compare .eq v = some true ↔ r c = v := by
  rcases h.1 with ⟨s, rfl⟩ | ⟨rfl, n, rfl⟩
  · exact compare_text_eq
  · have hint := hr.key
    cases hv : r t.primaryKey <;>
      simp_all [Value.isInt, Value.compare, Operator.onInts]

theorem Fits.found_iff (h : Fits schema w t) (hr : t.Admits r) :
    w.found r = true ↔ ∀ c ∈ w.key, w.values.lookup c = some (r c) := by
  simp only [found, List.all_eq_true, beq_iff_eq]
  refine forall₂_congr fun c hc => ?_
  obtain ⟨v, hv, hkey⟩ := h.bound c hc
  rw [hv, Option.getD_some, hkey.compare_iff hr, Option.some.injEq, eq_comm]

/-- The inserted row is found again. -/
theorem Fits.newRow_key (h : Fits schema w t) (rows : List (Row F)) (stamp : String) :
    ∀ c ∈ w.key, w.values.lookup c = some (t.newRow rows w.values stamp c) := by
  intro c hc
  obtain ⟨v, hv, hkey⟩ := h.bound c hc
  have hnull : v.isNull = false := by
    rcases hkey.1 with ⟨s, rfl⟩ | ⟨-, n, rfl⟩ <;> rfl
  simp [Table.newRow, Table.stored, hv, hnull, hkey.2]

/-- A row conflicts with one that has the key exactly if it is found. -/
theorem conflicts_iff (hs : ∀ c ∈ w.key, w.values.lookup c = some (s c)) :
    Table.conflicts w.key r s = true ↔ w.found r = true := by
  simp only [Table.conflicts, found, List.all_eq_true, beq_iff_eq]
  refine forall₂_congr fun c hc => ?_
  rw [hs c hc, Option.getD_some]

/-- At most one row of a table is found. -/
theorem Fits.found_le_one (h : Fits schema w t) (hs : t.Sound rows) :
    (rows.filter w.found).length ≤ 1 := by
  obtain ⟨u, hu, hkey⟩ := h.key
  by_contra hlen
  have hfound : ∀ x ∈ rows.filter w.found, t.Admits x ∧ w.found x = true := fun x hx =>
    ⟨hs.admits x (List.mem_of_mem_filter hx), (List.mem_filter.mp hx).2⟩
  have hapart := (hs.filter w.found).apart
  rcases heq : rows.filter w.found with _ | ⟨r, _ | ⟨s, rest⟩⟩
  · simp [heq] at hlen
  · simp [heq] at hlen
  · rw [heq] at hapart hfound
    have hr := hfound r (by simp)
    have hs' := hfound s (by simp)
    have hdistinct := List.rel_of_pairwise_cons hapart List.mem_cons_self u hu
    rw [hkey, Bool.eq_false_iff] at hdistinct
    exact hdistinct ((conflicts_iff ((h.found_iff hs'.1).mp hs'.2)).mpr hr.2)

/-- An insertion of a row whose key is missing succeeds. -/
theorem Fits.violation_eq_none (h : Fits schema w t) (hs : t.Sound rows)
    (hmissing : rows.filter w.found = []) (stamp : String) :
    t.violation rows (t.newRow rows w.values stamp) = none := by
  refine Table.violation_eq_none.mpr ⟨h.admits rows stamp, fun r hr u hu => ?_⟩
  have hadm := hs.admits r hr
  rcases h.others u hu with hkey | ⟨hkey, hnone⟩
  · rw [hkey, Bool.eq_false_iff]
    intro hconflict
    have hfound := (conflicts_iff (h.newRow_key rows stamp)).mp hconflict
    exact List.not_mem_nil (hmissing ▸ List.mem_filter.mpr ⟨hr, hfound⟩)
  · rw [hkey]
    exact hadm.conflicts_nextKey hr hnone (h.admits rows stamp)

theorem present_iff : Present data w ↔ (data w.target).filter w.found ≠ [] := by
  simp [Present, List.filter_eq_nil_iff]

theorem Present.mono (h : Present data w) (hextends : ∀ name, data name <+: left name) :
    Present left w := by
  obtain ⟨row, hrow, hfound⟩ := h
  exact ⟨row, (hextends w.target).subset hrow, hfound⟩

/-- Rows that can all be loaded are no more than those of a table that has grown. -/
theorem Readable.anti (h : w.Readable loads left) (hextends : ∀ name, data name <+: left name) :
    w.Readable loads data :=
  fun row hrow => h row ((hextends w.target).subset hrow)

/-- What a lookup with its insertion leaves. -/
structure Ensured (schema : Schema F) (data : Data F) (w : Wanted F) (inserted : Bool)
    (left : Data F) : Prop where
  sound : Sound schema left
  present : Present left w
  inserted_iff : inserted = true ↔ ¬ Present data w
  grown : ∃ new, left = Function.update data w.target (data w.target ++ new) ∧
    new.length = inserted.toNat ∧ ∀ row ∈ new, w.found row = true

theorem Ensured.extends {inserted : Bool} (h : Ensured schema data w inserted left)
    (name : String) : data name <+: left name := by
  obtain ⟨new, rfl, -⟩ := h.grown
  by_cases hname : name = w.target
  · subst hname
    rw [Function.update_self]
    exact List.prefix_append _ _
  · have hsame := Function.update_of_ne hname (data w.target ++ new) data
    exact hsame.symm ▸ List.prefix_refl (data name)

/-- A new row is not found by the lookup of another one. -/
theorem Ensured.readable {inserted : Bool} (h : Ensured schema data w inserted left)
    (hfit : Fits schema w t) {t' : Table F} (hfit' : Fits schema v t') (hdistinct : Distinct w v)
    (hr : v.Readable loads data) : v.Readable loads left := by
  intro row hrow hfound
  have hsound := h.sound
  obtain ⟨new, rfl, -, hnew⟩ := h.grown
  by_cases hname : v.target = w.target
  · have hrows := hrow
    rw [hname, Function.update_self] at hrows
    rcases List.mem_append.mp hrows with hold | hold
    · exact hr row (hname ▸ hold) hfound
    · obtain ⟨c, hw, hv, hne⟩ := hdistinct hname.symm
      have hadm := (hsound v.target t' hfit'.table).admits row hrow
      obtain rfl : t = t' := Option.some.inj (hfit.table.symm.trans (hname ▸ hfit'.table))
      have hkey := (hfit.found_iff hadm).mp (hnew row hold) c hw
      exact absurd (hkey.trans ((hfit'.found_iff hadm).mp hfound c hv).symm) hne
  · rw [Function.update_of_ne hname] at hrow
    exact hr row hrow hfound

variable (now) in
/-- Looking up a row and inserting it where it is missing succeeds on a sound database if the
row can be loaded. -/
theorem Fits.ensure_ok (h : Fits schema w t) (hs : Sound schema data)
    (hr : w.Readable loads data) : ∃ inserted left,
      ensure schema loads now data w = .ok (inserted, left) ∧
        Ensured schema data w inserted left := by
  have hsound := hs w.target t h.table
  have hone := h.found_le_one hsound
  unfold ensure
  rcases hrows : (data w.target).filter w.found with _ | ⟨row, _ | ⟨s, rest⟩⟩
  · have hv := h.violation_eq_none hsound hrows (now w)
    have hexec := Table.exec_insert_ok.mpr ⟨h.columns, hv, rfl⟩
    have hrun : execute schema data w.target (.insert w.values (now w)) =
        .ok (Function.update data w.target (data w.target ++
          [t.newRow (data w.target) w.values (now w)])) := by
      simp only [execute, h.table, hexec, Except.map]
    have hmem : t.newRow (data w.target) w.values (now w) ∈ Function.update data w.target
        (data w.target ++ [t.newRow (data w.target) w.values (now w)]) w.target := by
      rw [Function.update_self]
      exact List.mem_append_right _ List.mem_cons_self
    have hfound : w.found (t.newRow (data w.target) w.values (now w)) = true :=
      (h.found_iff (h.admits _ _)).mpr (h.newRow_key _ _)
    exact ⟨true, _, by simp only [hrun], execute_sound hs hrun, ⟨_, hmem, hfound⟩,
      by simp [present_iff, hrows], _, rfl, rfl, by simpa using hfound⟩
  · have hpresent : Present data w := by
      rw [present_iff, hrows]
      exact List.cons_ne_nil row []
    have hmem : row ∈ (data w.target).filter w.found := hrows ▸ List.mem_cons_self
    obtain ⟨hrow, hfound⟩ := List.mem_filter.mp hmem
    refine ⟨false, data, if_pos (hr row hrow hfound), hs, hpresent, by simp [hpresent], [], ?_,
      rfl, by simp⟩
    rw [List.append_nil, Function.update_eq_self]
  · rw [hrows] at hone
    simp at hone

/-- It fails if the row is there and cannot be loaded. -/
theorem Fits.ensure_unreadable (h : Fits schema w t) (hs : Sound schema data)
    (hr : ¬ w.Readable loads data) : ensure schema loads now data w = .error .unreadable := by
  have hone := h.found_le_one (hs w.target t h.table)
  simp only [Readable, not_forall, exists_prop] at hr
  obtain ⟨row, hrow, hfound, hload⟩ := hr
  have hmem : row ∈ (data w.target).filter w.found := List.mem_filter.mpr ⟨hrow, hfound⟩
  unfold ensure
  rcases hrows : (data w.target).filter w.found with _ | ⟨r, _ | ⟨s, rest⟩⟩
  · rw [hrows] at hmem
    cases hmem
  · rw [hrows] at hmem
    obtain rfl := List.mem_singleton.mp hmem
    exact if_neg hload
  · rw [hrows] at hone
    simp at hone

/-- A row that is there is left alone. -/
theorem Fits.ensure_present (h : Fits schema w t) (hs : Sound schema data)
    (hr : w.Readable loads data) (hpresent : Present data w) :
    ensure schema loads now data w = .ok (false, data) := by
  obtain ⟨inserted, left, hok, hensured⟩ := h.ensure_ok now hs hr
  have hfalse : inserted = false := by
    rw [← Bool.not_eq_true, hensured.inserted_iff, not_not]
    exact hpresent
  subst hfalse
  obtain ⟨new, rfl, hlen, -⟩ := hensured.grown
  obtain rfl := List.length_eq_zero_iff.mp hlen
  rw [hok, List.append_nil, Function.update_eq_self]

variable (now) in
/-- What a list of them leaves: every row is there, and the tables have only grown. -/
theorem ensureAll_ok {ws : List (Wanted F)} (h : ∀ w ∈ ws, ∃ t, Fits schema w t)
    (hdistinct : ws.Pairwise Distinct) (hs : Sound schema data)
    (hr : ∀ w ∈ ws, w.Readable loads data) : ∃ inserted left,
      ensureAll schema loads now data ws = .ok (inserted, left) ∧ Sound schema left ∧
        (∀ name, data name <+: left name) ∧ ∀ w ∈ ws, Present left w := by
  induction ws generalizing data with
  | nil => exact ⟨[], data, rfl, hs, fun _ => List.prefix_refl _, by simp⟩
  | cons w ws ih =>
    obtain ⟨t, ht⟩ := h w List.mem_cons_self
    obtain ⟨hfirst_distinct, hrest_distinct⟩ := List.pairwise_cons.mp hdistinct
    obtain ⟨first, data₁, hfirst, hensured⟩ := ht.ensure_ok now hs (hr w List.mem_cons_self)
    have hr₁ : ∀ v ∈ ws, v.Readable loads data₁ := fun v hv => by
      obtain ⟨t', ht'⟩ := h v (List.mem_cons_of_mem _ hv)
      exact hensured.readable ht ht' (hfirst_distinct v hv) (hr v (List.mem_cons_of_mem _ hv))
    obtain ⟨rest, data₂, hrest, hs₂, hextends, hpresent⟩ :=
      ih (fun w hw => h w (List.mem_cons_of_mem _ hw)) hrest_distinct hensured.sound hr₁
    refine ⟨first :: rest, data₂, ?_, hs₂,
      fun name => (hensured.extends name).trans (hextends name), ?_⟩
    · rw [ensureAll, hfirst]
      show (ensureAll schema loads now data₁ ws >>= _) = _
      rw [hrest]
      rfl
    · rw [List.forall_mem_cons]
      exact ⟨hensured.present.mono hextends, hpresent⟩

/-- One that cannot be loaded ends the list. -/
theorem ensureAll_unreadable {ws : List (Wanted F)} (h : ∀ w ∈ ws, ∃ t, Fits schema w t)
    (hs : Sound schema data) (hr : ∃ w ∈ ws, ¬ w.Readable loads data) :
    ensureAll schema loads now data ws = .error .unreadable := by
  induction ws generalizing data with
  | nil => simp at hr
  | cons w ws ih =>
    obtain ⟨t, ht⟩ := h w List.mem_cons_self
    rw [ensureAll]
    by_cases hw : w.Readable loads data
    · obtain ⟨first, data₁, hfirst, hensured⟩ := ht.ensure_ok now hs hw
      have hlater : ∃ v ∈ ws, ¬ v.Readable loads data₁ := by
        obtain ⟨v, hv, hbad⟩ := hr
        rcases List.mem_cons.mp hv with rfl | hv
        · exact absurd hw hbad
        · exact ⟨v, hv, fun hgood => hbad (hgood.anti hensured.extends)⟩
      have hrest := ih (fun w hw => h w (List.mem_cons_of_mem _ hw)) hensured.sound hlater
      rw [hfirst]
      show (ensureAll schema loads now data₁ ws >>= _) = _
      rw [hrest]
      rfl
    · rw [ht.ensure_unreadable hs hw]
      rfl

/-- Rows that are all there are left alone. -/
theorem ensureAll_present {ws : List (Wanted F)} (h : ∀ w ∈ ws, ∃ t, Fits schema w t)
    (hs : Sound schema data) (hr : ∀ w ∈ ws, w.Readable loads data)
    (hpresent : ∀ w ∈ ws, Present data w) :
    ensureAll schema loads now data ws = .ok (ws.map fun _ => false, data) := by
  induction ws with
  | nil => rfl
  | cons w ws ih =>
    obtain ⟨t, ht⟩ := h w List.mem_cons_self
    have hrest := ih (fun w hw => h w (List.mem_cons_of_mem _ hw))
      (fun w hw => hr w (List.mem_cons_of_mem _ hw))
      fun w hw => hpresent w (List.mem_cons_of_mem _ hw)
    rw [ensureAll, ht.ensure_present hs (hr w List.mem_cons_self) (hpresent w List.mem_cons_self)]
    show (ensureAll schema loads now data ws >>= _) = _
    rw [hrest]
    rfl

/-- The rows of one table that are reported as inserted are the ones by which it has grown, and
no other table changes. -/
theorem ensureAll_counts {ws : List (Wanted F)} (h : ∀ w ∈ ws, ∃ t, Fits schema w t)
    (hs : Sound schema data) {name : String} (htarget : ∀ w ∈ ws, w.target = name)
    {inserted : List Bool} (hok : ensureAll schema loads now data ws = .ok (inserted, left)) :
    (left name).length = (data name).length + inserted.count true ∧
      ∀ other, other ≠ name → left other = data other := by
  induction ws generalizing data inserted with
  | nil =>
    obtain ⟨rfl, rfl⟩ := Prod.mk.inj (Except.ok.inj hok)
    exact ⟨rfl, fun _ _ => rfl⟩
  | cons w ws ih =>
    obtain ⟨t, ht⟩ := h w List.mem_cons_self
    rw [ensureAll] at hok
    by_cases hw : w.Readable loads data
    · obtain ⟨first, data₁, hfirst, hensured⟩ := ht.ensure_ok now hs hw
      rw [hfirst] at hok
      change (ensureAll schema loads now data₁ ws >>= _) = _ at hok
      cases hrest : ensureAll schema loads now data₁ ws with
      | error failure =>
        rw [hrest] at hok
        cases hok
      | ok out =>
        obtain ⟨rest, data₂⟩ := out
        rw [hrest] at hok
        obtain ⟨rfl, rfl⟩ := Prod.mk.inj (Except.ok.inj hok)
        obtain ⟨hcount, hframe⟩ := ih (fun w hw => h w (List.mem_cons_of_mem _ hw)) hensured.sound
          (fun w hw => htarget w (List.mem_cons_of_mem _ hw)) hrest
        obtain ⟨new, rfl, hlen, -⟩ := hensured.grown
        obtain rfl := htarget w List.mem_cons_self
        refine ⟨?_, fun other hother => ?_⟩
        · rw [hcount, Function.update_self, List.length_append, hlen]
          cases first with
          | false => simp
          | true =>
            rw [List.count_cons_self, Bool.toNat_true]
            omega
        · rw [hframe other hother, Function.update_of_ne hother]
    · rw [ht.ensure_unreadable hs hw] at hok
      cases hok

end Wanted

end Sql
