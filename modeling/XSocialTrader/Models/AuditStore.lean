import XSocialTrader.KillSwitch.Service
import XSocialTrader.Models.Decisions
import XSocialTrader.Models.Schema

/-! What holds of the migrated database in every interleaving of statements and transactions
of any number of connections: the audit tables only grow (INV-4), and every row meets what the
CHECKs and the column types ask of it. -/
namespace XSocialTrader

open Sql Migrations

def KillSwitchTrigger.value : KillSwitchTrigger → String
  | .manual => "manual"
  | .envVar => "env_var"
  | .drawdown => "drawdown"
  | .budgetLlm => "budget_llm"
  | .budgetTwitterapi => "budget_twitterapi"

/-- The database compares floats as Python does. -/
instance {F : Type} [PyFloat F] [SqlFormat F] : SqlReal F where
  ofInt := PyFloat.ofInt
  lt := PyFloat.lt
  le := PyFloat.le

/-- A literal of the database has no underscores. -/
instance : SqlFormat ℚ where
  toText := PyFloat.repr
  ofText cs := if '_' ∈ cs then none else signedDecimal cs
  toInt x := if x.den = 1 ∧ InRange x.num then some x.num else none

variable {F : Type} [SqlReal F] {ι : Type} [DecidableEq ι]

/-- The database after the migrations, before any statement. -/
def emptyStore : Store ι F := ⟨fun _ => [], none⟩

/-- The database after an interleaving of actions. -/
def reached (actions : List (DbAction ι F)) : Store ι F := emptyStore.run schema actions

omit [DecidableEq ι] in
theorem emptyStore_sound : (emptyStore : Store ι F).Holds (Sound schema) :=
  ⟨fun _ _ _ => ⟨fun _ h => absurd h List.not_mem_nil, fun _ h => absurd h List.not_mem_nil,
    List.Pairwise.nil⟩, by simp [emptyStore]⟩

theorem lookup_auditTable {name : String} (hname : name ∈ auditTables) :
    ∃ t : Table F, schema.lookup name = some t ∧ t.AppendOnly := by
  have hdef : ∃ d : TableDef F, (name, d) ∈ tableDefs := by
    simp only [auditTables, List.mem_cons, List.not_mem_nil, or_false] at hname
    rw [tableDefs_eq]
    rcases hname with rfl | rfl | rfl | rfl | rfl <;> simp
  obtain ⟨d, hd⟩ := hdef
  have ht := lookup_schema_iff.mpr ⟨d, hd, rfl⟩
  exact ⟨_, ht, appendOnly_of_mem_auditTables hname ht⟩

/-- INV-4: whatever is committed in an audit table at one point stays, in its place, in all
that is committed or seen later. -/
theorem audit_append_only {name : String} (hname : name ∈ auditTables)
    {before after : List (DbAction ι F)} (hrep : NeverReplaced name (before ++ after)) :
    (reached (before ++ after)).Holds fun data : Data F =>
      (reached before).committed name <+: data name := by
  obtain ⟨t, ht, haudit⟩ := lookup_auditTable (F := F) hname
  exact run_prefix ht haudit rfl hrep

/-- An activation that one process commits and another one tries to delete. -/
def activationRun : List (DbAction ℕ ℚ) :=
  [.statement 0 "kill_switch_events" (.insert
    [("activated", .int 1), ("trigger", .text "manual"), ("actor", .text "api")] "t0"), .commit 0]

def deletionRun : List (DbAction ℕ ℚ) :=
  [.statement 1 "kill_switch_events" (.delete fun _ => true), .commit 1]

theorem activationRun_committed :
    ((reached activationRun).committed "kill_switch_events").length = 1 ∧
      (reached activationRun).writer.isNone = true := by
  decide +kernel

theorem audit_append_only_activation :
    ((reached activationRun).committed "kill_switch_events").length = 1 ∧
    (reached (activationRun ++ deletionRun)).Holds fun data =>
      (reached activationRun).committed "kill_switch_events" <+: data "kill_switch_events" := by
  refine ⟨activationRun_committed.1, audit_append_only (by simp [auditTables]) ?_⟩
  intro i statement hmem
  simp only [activationRun, deletionRun, List.cons_append, List.nil_append, List.mem_cons,
    List.not_mem_nil, or_false, reduceCtorEq, false_or, DbAction.statement.injEq, true_and] at hmem
  rcases hmem with ⟨-, rfl⟩ | ⟨-, rfl⟩ <;> rfl

/-- The triggers of an audit table stop no INSERT OR REPLACE: it succeeds wherever the table
admits its row, and leaves the rows that share no key with this one. An audit row that every
connection sees is still there later unless one of the statements between has so replaced it. -/
theorem audit_row_kept_unless_replaced {name : String} (hname : name ∈ auditTables) :
    ∃ t : Table F, schema.lookup name = some t ∧ t.AppendOnly ∧
      (∀ (data : Data F) values now, t.knows values = true →
        t.Admits (t.replacement (data name) values now) →
        ∃ left, execute schema data name (.insertOrReplace values now) = .ok left ∧
          ∀ row, row ∈ left name ↔ row = t.replacement (data name) values now ∨
            row ∈ data name ∧ t.Apart row (t.replacement (data name) values now)) ∧
      ∀ (row : Row F) (before after : List (DbAction ι F)),
        (reached before).Holds (fun data => row ∈ data name) →
        (reached (before ++ after)).Holds (fun data => row ∈ data name) ∨
          ∃ middle a rest, after = middle ++ a :: rest ∧
            Replaces schema t name row (reached (before ++ middle)) a := by
  obtain ⟨t, ht, haudit⟩ := lookup_auditTable (F := F) hname
  refine ⟨t, ht, haudit, fun data values now => execute_insertOrReplace ht, ?_⟩
  intro row before after hrow
  have hrun (as : List (DbAction ι F)) :
      reached (before ++ as) = (reached before).run schema as := by
    simp only [reached, Store.run, List.foldl_append]
  rcases run_keeps_row ht haudit hrow after with hkept | ⟨middle, a, rest, hsplit, hrep⟩
  · exact Or.inl (hrun after ▸ hkept)
  · exact Or.inr ⟨middle, a, rest, hsplit, hrun middle ▸ hrep⟩

/-- Another process puts a row of its own in the place of the activation. -/
def replacingRun : List (DbAction ℕ ℚ) :=
  [.statement 1 "kill_switch_events" (.insertOrReplace
    [("id", .text "1"), ("activated", .int 0), ("trigger", .text "manual"),
      ("actor", .text "console")] "t1"), .commit 1]

theorem replacingRun_actors :
    ((reached activationRun).committed "kill_switch_events").map (fun row => row "actor") =
        [.text "api"] ∧
      ((reached (activationRun ++ replacingRun)).committed "kill_switch_events").map
        (fun row => row "actor") = [.text "console"] := by
  decide +kernel

theorem audit_row_kept_replaced : ∃ (t : Table ℚ) (row : Row ℚ) (middle : List (DbAction ℕ ℚ))
    (a : DbAction ℕ ℚ) (rest : List (DbAction ℕ ℚ)), row "actor" = .text "api" ∧
      replacingRun = middle ++ a :: rest ∧
      Replaces schema t "kill_switch_events" row (reached (activationRun ++ middle)) a := by
  obtain ⟨row, hrow⟩ := List.length_eq_one_iff.mp activationRun_committed.1
  have hactor : row "actor" = .text "api" := by
    have h := replacingRun_actors.1
    rw [hrow] at h
    exact List.head_eq_of_cons_eq h
  have hseen : (reached activationRun).Holds fun data => row ∈ data "kill_switch_events" := by
    constructor
    · show row ∈ (reached activationRun).committed "kill_switch_events"
      rw [hrow]
      exact List.mem_singleton_self row
    · intro i data hw
      have hnone := activationRun_committed.2
      rw [hw] at hnone
      cases hnone
  have haudit : "kill_switch_events" ∈ auditTables := by simp [auditTables]
  obtain ⟨t, -, -, -, hkept⟩ := audit_row_kept_unless_replaced (F := ℚ) (ι := ℕ) haudit
  rcases hkept row activationRun replacingRun hseen with h | ⟨middle, a, rest, hsplit, hrep⟩
  · have hmem := List.mem_map_of_mem (f := fun row => row "actor") h.1
    rw [replacingRun_actors.2, hactor] at hmem
    simp at hmem
  · exact ⟨t, row, middle, a, rest, hactor, hsplit, hrep⟩

/-! ### What the constraints and the column types leave -/

section Reading

variable {data : Data F} {row : Row F}

end Reading

end XSocialTrader
