import XSocialTrader.Lib.OrderedDict
import XSocialTrader.Lib.SqlStore

/-! The objects of a database (tables, indexes, triggers, views), the statements that create
and drop them, and the frame rule for a list of such statements. -/
namespace Sql

inductive TriggerEvent where
  | update | delete
  deriving DecidableEq, Repr

/-- What CREATE TABLE fixes; `foreignKeys` are the tables that it refers to. -/
structure TableDef (F : Type*) where
  columns : List Column
  primaryKey : String
  checks : List (String × Cond F)
  uniques : List (String × List String)
  foreignKeys : List String

/-- The body of a trigger is one RAISE(ABORT, message); a view reads tables and views. -/
inductive Object (F : Type*) where
  | table (definition : TableDef F)
  | index (table : String) (columns : List String) (unique : Bool)
  | trigger (table : String) (event : TriggerEvent) (message : String)
  | view (reads : List String)

inductive Kind where
  | table | index | trigger | view
  deriving DecidableEq, Repr

/-- What a statement looks at in an object: the table that an index or a trigger goes with, and
the tables and views that a table or a view depends on. -/
class SchemaObject (ω : Type*) where
  kind : ω → Kind
  owner : ω → Option String
  references : ω → List String

instance {F : Type*} : SchemaObject (Object F) where
  kind
    | .table _ => .table
    | .index _ _ _ => .index
    | .trigger _ _ _ => .trigger
    | .view _ => .view
  owner
    | .index target _ _ => some target
    | .trigger target _ _ => some target
    | _ => none
  references
    | .table definition => definition.foreignKeys
    | .view reads => reads
    | _ => []

/-- Names are compared without regard to the case of their ASCII letters. -/
def folded (name : String) : List Char := name.toList.map Char.toLower

def sameName (a b : String) : Bool := folded a == folded b

/-- Triggers have names of their own; tables, indexes and views share theirs. -/
def Kind.sameSpace (k l : Kind) : Bool := (k == .trigger) == (l == .trigger)

/-- What others can depend on. -/
def Kind.isRelation (k : Kind) : Bool := k == .table || k == .view

abbrev Catalog (ω : Type*) := List (String × ω)

inductive Ddl (ω : Type*) where
  | create (name : String) (object : ω)
  | drop (kind : Kind) (name : String)
  | dropIfExists (kind : Kind) (name : String)

namespace Ddl

variable {ω υ : Type*}

def name : Ddl ω → String
  | .create name _ => name
  | .drop _ name => name
  | .dropIfExists _ name => name

def kind [SchemaObject ω] : Ddl ω → Kind
  | .create _ object => SchemaObject.kind object
  | .drop kind _ => kind
  | .dropIfExists kind _ => kind

def map (f : ω → υ) : Ddl ω → Ddl υ
  | .create name object => .create name (f object)
  | .drop kind name => .drop kind name
  | .dropIfExists kind name => .dropIfExists kind name

/-- The entry that a CREATE adds. -/
def entry : Ddl ω → Option (String × ω)
  | .create name object => some (name, object)
  | _ => none

end Ddl

namespace Catalog

variable {ω υ : Type*} [SchemaObject ω] [SchemaObject υ]

open SchemaObject

/-- A name is taken by any object that shares its names with the kind. -/
def taken (c : Catalog ω) (k : Kind) (name : String) : Bool :=
  c.any fun e => sameName e.1 name && k.sameSpace (kind e.2)

def has (c : Catalog ω) (k : Kind) (name : String) : Bool :=
  c.any fun e => sameName e.1 name && k == kind e.2

def hasRelation (c : Catalog ω) (name : String) : Bool := c.has .table name || c.has .view name

/-- Dropping a table drops its indexes and triggers. -/
def without (c : Catalog ω) (k : Kind) (name : String) : Catalog ω :=
  c.filter fun e => !(sameName e.1 name && k == kind e.2) &&
    !(k == .table && (owner e.2).any fun target => sameName target name)

/-- Some object depends on the table or view. -/
def needed (c : Catalog ω) (k : Kind) (name : String) : Bool :=
  k.isRelation && c.any fun e => (references e.2).any fun r => sameName r name

def dropObject (enforced : Bool) (c : Catalog ω) (k : Kind) (name : String) :
    Option (Catalog ω) :=
  if enforced && (c.without k name).needed k name then none else some (c.without k name)

/-- `none` when the statement fails: the name is taken, or there is nothing of that name, or a
DROP VIEW names a table. SQLite lets foreign keys and views refer to what is not there; a
database that enforces them refuses such objects, and to drop what is referred to. -/
def exec (enforced : Bool) (c : Catalog ω) : Ddl ω → Option (Catalog ω)
  | .create name object =>
    if c.taken (kind object) name then none
    else if (owner object).all (c.has .table) &&
        (!enforced || (references object).all c.hasRelation) then some (c ++ [(name, object)])
    else none
  | .drop k name => if c.has k name then c.dropObject enforced k name else none
  | .dropIfExists k name =>
    if c.has k name then c.dropObject enforced k name
    else if k.isRelation && c.hasRelation name then none
    else some c

def run (enforced : Bool) (c : Catalog ω) : List (Ddl ω) → Option (Catalog ω)
  | [] => some c
  | op :: ops => (c.exec enforced op).bind fun c' => run enforced c' ops

/-- Every index and trigger has its table, and where it is enforced every foreign key and every
view what it refers to. -/
def Closed (enforced : Bool) (c : Catalog ω) : Prop :=
  ∀ e ∈ c, (∀ target, owner e.2 = some target → c.has .table target = true) ∧
    (enforced = true → ∀ r ∈ references e.2, c.hasRelation r = true)

/-- The statements use no name of the catalog. -/
def Fresh (c : Catalog ω) (ops : List (Ddl ω)) : Prop :=
  ∀ op ∈ ops, c.taken op.kind op.name = false

variable {enforced : Bool} {base c : Catalog ω} {k : Kind} {name : String}

/-- Statements succeed by the names, kinds, owners and references alone. -/
theorem run_map {f : ω → υ} (hkind : ∀ o, kind (f o) = kind o)
    (howner : ∀ o, owner (f o) = owner o) (hrefs : ∀ o, references (f o) = references o)
    (ops : List (Ddl ω)) : run enforced (c.map (Prod.map id f)) (ops.map (Ddl.map f)) =
      (c.run enforced ops).map (List.map (Prod.map id f)) := by
  have hwithout (c : Catalog ω) (k : Kind) (name : String) :
      without (c.map (Prod.map id f)) k name = (c.without k name).map (Prod.map id f) := by
    simp [without, List.filter_map, Function.comp_def, hkind, howner]
  have htaken (c : Catalog ω) : taken (c.map (Prod.map id f)) = c.taken := by
    funext k name
    simp [taken, List.any_map, Function.comp_def, hkind]
  have hhas (c : Catalog ω) : has (c.map (Prod.map id f)) = c.has := by
    funext k name
    simp [has, List.any_map, Function.comp_def, hkind]
  have hrelation (c : Catalog ω) : hasRelation (c.map (Prod.map id f)) = c.hasRelation := by
    funext name
    simp [hasRelation, hhas]
  have hneeded (c : Catalog ω) : needed (c.map (Prod.map id f)) = c.needed := by
    funext k name
    simp [needed, List.any_map, Function.comp_def, hrefs]
  have hdrop (c : Catalog ω) (k : Kind) (name : String) :
      dropObject enforced (c.map (Prod.map id f)) k name =
        (c.dropObject enforced k name).map (List.map (Prod.map id f)) := by
    simp only [dropObject, hwithout, hneeded]
    split_ifs <;> rfl
  induction ops generalizing c with
  | nil => rfl
  | cons op ops ih =>
    have hop : exec enforced (c.map (Prod.map id f)) (op.map f) =
        (c.exec enforced op).map (List.map (Prod.map id f)) := by
      cases op with
      | create name object =>
        simp only [Ddl.map, exec, hkind, howner, hrefs, htaken, hhas, hrelation]
        split_ifs <;> simp
      | drop k name =>
        simp only [Ddl.map, exec, hhas, hdrop]
        split_ifs <;> simp
      | dropIfExists k name =>
        simp only [Ddl.map, exec, hhas, hrelation, hdrop]
        split_ifs <;> simp
    rw [List.map_cons, run, run, hop]
    cases c.exec enforced op with
    | none => rfl
    | some c' => exact ih

theorem run_append (ops ops' : List (Ddl ω)) :
    c.run enforced (ops ++ ops') = (c.run enforced ops).bind fun c' => c'.run enforced ops' := by
  induction ops generalizing c with
  | nil => rfl
  | cons op ops ih =>
    simp only [List.cons_append, run, Option.bind_assoc]
    congr 1
    funext c'
    exact ih

/-- A statement that is not refused where references are enforced does the same elsewhere. -/
theorem exec_of_enforced {op : Ddl ω} {c' : Catalog ω} (h : c.exec true op = some c') :
    c.exec enforced op = some c' := by
  have hdrop {k : Kind} {name : String} (h : c.dropObject true k name = some c') :
      c.dropObject enforced k name = some c' := by
    unfold dropObject at h ⊢
    split_ifs at h with hneeded
    rw [if_neg (by simp_all)]
    exact h
  cases op with
  | create name object =>
    simp only [exec] at h ⊢
    split_ifs at h with htaken howner
    rw [if_neg htaken, if_pos (by simp_all)]
    exact h
  | drop k name =>
    simp only [exec] at h ⊢
    split_ifs at h with hhas
    rw [if_pos hhas]
    exact hdrop h
  | dropIfExists k name =>
    simp only [exec] at h ⊢
    split_ifs at h ⊢
    · exact hdrop h
    · exact h

theorem run_of_enforced {ops : List (Ddl ω)} {c' : Catalog ω} (h : c.run true ops = some c') :
    c.run enforced ops = some c' := by
  induction ops generalizing c with
  | nil => exact h
  | cons op ops ih =>
    obtain ⟨d, hd, hrest⟩ := Option.bind_eq_some_iff.mp h
    rw [run, exec_of_enforced hd]
    exact ih hrest

theorem taken_append : taken (base ++ c) k name = (base.taken k name || c.taken k name) :=
  List.any_append

theorem has_append : has (base ++ c) k name = (base.has k name || c.has k name) :=
  List.any_append

/-- An object takes its name. -/
theorem taken_of_has (h : c.has k name = true) : c.taken k name = true := by
  obtain ⟨e, he, hname⟩ := List.any_eq_true.mp h
  simp only [Bool.and_eq_true, beq_iff_eq] at hname
  exact List.any_eq_true.mpr ⟨e, he, by simp [hname.1, hname.2, Kind.sameSpace]⟩

/-- Tables and views take their names from each other. -/
theorem taken_of_hasRelation (hk : k.isRelation = true) (h : c.hasRelation name = true) :
    c.taken k name = true := by
  have hspace (l : Kind) (hl : l.isRelation = true) : c.has l name = true →
      c.taken k name = true := by
    intro hhas
    have htaken := taken_of_has hhas
    unfold taken Kind.sameSpace at htaken ⊢
    cases k <;> cases l <;> simp_all [Kind.isRelation]
  rcases Bool.or_eq_true_iff.mp h with h | h
  · exact hspace .table rfl h
  · exact hspace .view rfl h

theorem sameName_trans {a b d : String} (h : sameName a b = true) :
    sameName d a = sameName d b := by
  rw [sameName, sameName, beq_iff_eq.mp h]

theorem has_congr {a b : String} (h : sameName a b = true) : c.has k a = c.has k b := by
  simp only [has, sameName_trans h]

section Frame

variable (hclosed : base.Closed enforced) (hname : base.taken k name = false)

include hname in
theorem has_eq_false : base.has k name = false := by
  rw [Bool.eq_false_iff]
  intro h
  simp [taken_of_has h] at hname

include hclosed hname in
theorem without_of_fresh : base.without k name = base := by
  rw [without, List.filter_eq_self]
  intro e he
  have hne : (sameName e.1 name && k == kind e.2) = false :=
    Bool.eq_false_iff.mpr fun h =>
      Bool.eq_false_iff.mp (has_eq_false hname) (List.any_eq_true.mpr ⟨e, he, h⟩)
  have howner : (k == .table && (owner e.2).any fun target => sameName target name) = false := by
    rw [Bool.eq_false_iff]
    intro h
    obtain ⟨hk, htarget⟩ := Bool.and_eq_true_iff.mp h
    obtain ⟨target, htarget, hsame⟩ := (Option.any_eq_true _ _).mp htarget
    have htable := (hclosed e he).1 target htarget
    rw [has_congr hsame, ← beq_iff_eq.mp hk] at htable
    simp [has_eq_false hname] at htable
  rw [hne, howner]
  rfl

include hclosed hname in
theorem without_append : (base ++ c).without k name = base ++ c.without k name := by
  conv_rhs => rw [← without_of_fresh hclosed hname]
  simp only [without, List.filter_append]

include hclosed hname in
theorem needed_append (he : enforced = true) :
    (base ++ c).needed k name = c.needed k name := by
  cases hk : k.isRelation with
  | false => simp [needed, hk]
  | true =>
    have hbase : (base.any fun e => (references e.2).any fun r => sameName r name) = false := by
      rw [Bool.eq_false_iff]
      intro h
      obtain ⟨e, hmem, hrefs⟩ := List.any_eq_true.mp h
      obtain ⟨r, hr, hsame⟩ := List.any_eq_true.mp hrefs
      have hrelation := (hclosed e hmem).2 he r hr
      rw [hasRelation, has_congr hsame, has_congr hsame] at hrelation
      simp [taken_of_hasRelation hk hrelation] at hname
    simp only [needed, List.any_append, hbase, Bool.false_or]

include hclosed hname in
theorem dropObject_append : (base ++ c).dropObject enforced k name =
    (c.dropObject enforced k name).map (base ++ ·) := by
  rw [dropObject, without_append hclosed hname, dropObject]
  cases enforced with
  | false => rfl
  | true =>
    rw [needed_append hclosed hname rfl]
    split_ifs <;> rfl

/-- A statement that succeeds by itself does the same beside objects of other names. -/
theorem exec_frame (hclosed : base.Closed enforced) {op : Ddl ω} {c' : Catalog ω}
    (hname : base.taken op.kind op.name = false) (h : c.exec enforced op = some c') :
    exec enforced (base ++ c) op = some (base ++ c') := by
  cases op with
  | create name object =>
    simp only [exec] at h ⊢
    split_ifs at h with htaken howner
    obtain rfl := Option.some.inj h
    have hnew : taken (base ++ c) (kind object) name = false := by
      rw [taken_append, Bool.or_eq_false_iff]
      exact ⟨hname, Bool.eq_false_iff.mpr htaken⟩
    have htable (target : String) (h : c.has .table target = true) :
        has (base ++ c) .table target = true := by rw [has_append, h, Bool.or_true]
    have hrelation (r : String) (h : c.hasRelation r = true) :
        hasRelation (base ++ c) r = true := by
      simp only [hasRelation, has_append, Bool.or_eq_true] at h ⊢
      exact h.imp Or.inr Or.inr
    have howner' : ((owner object).all (has (base ++ c) .table) &&
        (!enforced || (references object).all (hasRelation (base ++ c)))) = true := by
      rw [Bool.and_eq_true, Bool.or_eq_true, List.all_eq_true] at howner ⊢
      refine ⟨?_, howner.2.imp_right fun hall r hr => hrelation r (hall r hr)⟩
      cases ho : owner object with
      | none => rfl
      | some target =>
        rw [ho] at howner
        exact htable target howner.1
    rw [if_neg (Bool.eq_false_iff.mp hnew), if_pos howner', List.append_assoc]
  | drop k name =>
    change base.taken k name = false at hname
    simp only [exec] at h ⊢
    split_ifs at h with hmem
    rw [has_append, hmem, Bool.or_true, if_pos rfl, dropObject_append hclosed hname]
    exact congrArg (Option.map (base ++ ·)) h
  | dropIfExists k name =>
    change base.taken k name = false at hname
    have hother : (k.isRelation && hasRelation (base ++ c) name) =
        (k.isRelation && c.hasRelation name) := by
      cases hk : k.isRelation with
      | false => rfl
      | true =>
        have hbase : base.hasRelation name = false := by
          refine Bool.eq_false_iff.mpr fun hrelation => ?_
          simp [taken_of_hasRelation hk hrelation] at hname
        rw [hasRelation, Bool.or_eq_false_iff] at hbase
        simp only [hasRelation, has_append, hbase.1, hbase.2, Bool.false_or]
    simp only [exec, has_append, has_eq_false hname, hother, Bool.false_or] at h ⊢
    split_ifs at h ⊢ with hmem
    · rw [dropObject_append hclosed hname]
      exact congrArg (Option.map (base ++ ·)) h
    · obtain rfl := Option.some.inj h
      rfl

end Frame

/-- The frame rule: what a list of statements makes of the empty database it makes beside
any objects of other names. -/
theorem run_frame (hclosed : base.Closed enforced) {ops : List (Ddl ω)} {c' : Catalog ω}
    (hfresh : base.Fresh ops) (h : c.run enforced ops = some c') :
    run enforced (base ++ c) ops = some (base ++ c') := by
  induction ops generalizing c with
  | nil =>
    obtain rfl := Option.some.inj h
    rfl
  | cons op ops ih =>
    obtain ⟨c₁, hop, hrest⟩ := Option.bind_eq_some_iff.mp h
    have hframe := exec_frame hclosed (hfresh op List.mem_cons_self) hop
    rw [run, hframe, Option.bind_some]
    exact ih (fun op' hop' => hfresh op' (List.mem_cons_of_mem op hop')) hrest

/-- Statements that only create. -/
def Creates (ops : List (Ddl ω)) : Prop := ∀ op ∈ ops, op.entry.isSome = true

/-- What they leave when they succeed, which they do only if none of their names is taken. -/
theorem Creates.run_some {ops : List (Ddl ω)} (hcreate : Creates ops) {c' : Catalog ω}
    (h : c.run enforced ops = some c') : c.Fresh ops ∧ c' = c ++ ops.filterMap Ddl.entry := by
  induction ops generalizing c with
  | nil =>
    obtain rfl := Option.some.inj h
    exact ⟨fun op hop => absurd hop List.not_mem_nil, by simp⟩
  | cons op ops ih =>
    obtain ⟨c₁, hop, hrest⟩ := Option.bind_eq_some_iff.mp h
    obtain ⟨hname, rfl⟩ : c.taken op.kind op.name = false ∧ c₁ = c ++ op.entry.toList := by
      cases op with
      | create name object =>
        simp only [exec] at hop
        split_ifs at hop with htaken howner
        exact ⟨Bool.eq_false_iff.mpr htaken, (Option.some.inj hop).symm⟩
      | drop k name => exact absurd (hcreate _ List.mem_cons_self) (by simp [Ddl.entry])
      | dropIfExists k name => exact absurd (hcreate _ List.mem_cons_self) (by simp [Ddl.entry])
    obtain ⟨hfresh, rfl⟩ := ih (fun op' hop' => hcreate op' (List.mem_cons_of_mem _ hop')) hrest
    constructor
    · intro op' hop'
      rcases List.mem_cons.mp hop' with rfl | hop'
      · exact hname
      · have hnot := hfresh op' hop'
        rw [taken_append, Bool.or_eq_false_iff] at hnot
        exact hnot.1
    · rw [List.append_assoc, List.filterMap_cons]
      cases op.entry <;> simp

end Catalog

/-! ## The tables of a catalog -/

variable {F : Type*}

/-- The columns that a unique index of the table covers. -/
def Object.uniqueOn (target : String) : Object F → Option (List String)
  | .index t columns true => if t = target then some columns else none
  | _ => none

/-- The message of a trigger of the table for the event. -/
def Object.abortsOn (target : String) (on : TriggerEvent) : Object F → Option String
  | .trigger t event message => if t = target ∧ event = on then some message else none
  | _ => none

namespace Catalog

variable (c : Catalog (Object F))

/-- A table with what the indexes and triggers add to it. -/
def tableOf (name : String) (d : TableDef F) : Table F where
  primaryKey := d.primaryKey
  columns := d.columns
  checks := d.checks
  uniques := d.uniques ++ c.filterMap fun e => (e.2.uniqueOn name).map fun columns => (e.1, columns)
  noUpdate := c.findSome? fun e => e.2.abortsOn name .update
  noDelete := c.findSome? fun e => e.2.abortsOn name .delete

def schema : Schema F :=
  c.filterMap fun e =>
    match e.2 with
    | .table d => some (e.1, c.tableOf e.1 d)
    | _ => none

variable {c}

theorem mem_schema {name : String} {t : Table F} :
    (name, t) ∈ c.schema ↔ ∃ d, (name, Object.table d) ∈ c ∧ t = c.tableOf name d := by
  simp only [schema, List.mem_filterMap]
  constructor
  · rintro ⟨⟨n, object⟩, hmem, h⟩
    cases object with
    | table d =>
      obtain ⟨rfl, rfl⟩ := Prod.mk.inj (Option.some.inj h)
      exact ⟨d, hmem, rfl⟩
    | index target columns unique => cases h
    | trigger target event message => cases h
    | view => cases h
  · rintro ⟨d, hmem, rfl⟩
    exact ⟨(name, .table d), hmem, rfl⟩

theorem schema_nodup (h : (c.map Prod.fst).Nodup) : (c.schema.map Prod.fst).Nodup := by
  have hsub : c.schema.map Prod.fst =
      (c.filter fun e => SchemaObject.kind e.2 == .table).map Prod.fst := by
    unfold schema
    generalize c.tableOf = tableOf
    clear h
    induction c with
    | nil => rfl
    | cons e c ih =>
      obtain ⟨n, object⟩ := e
      cases object <;> simp_all [SchemaObject.kind]
  rw [hsub]
  exact List.Nodup.sublist (List.filter_sublist.map Prod.fst) h

/-- The table of a name is the one that its CREATE TABLE and its indexes make. -/
theorem lookup_schema (h : (c.map Prod.fst).Nodup) {name : String} {t : Table F} :
    c.schema.lookup name = some t ↔ ∃ d, (name, Object.table d) ∈ c ∧ t = c.tableOf name d := by
  rw [← OrderedDict.mem_iff_lookup (schema_nodup h), mem_schema]

/-- A table with a trigger for both events is append-only. -/
theorem appendOnly_tableOf {name n m : String} {message message' : String} {d : TableDef F}
    (hu : (n, Object.trigger name .update message) ∈ c)
    (hd : (m, Object.trigger name .delete message') ∈ c) : (c.tableOf name d).AppendOnly := by
  constructor
  · rw [tableOf, List.findSome?_isSome_iff]
    exact ⟨_, hu, by simp [Object.abortsOn]⟩
  · rw [tableOf, List.findSome?_isSome_iff]
    exact ⟨_, hd, by simp [Object.abortsOn]⟩

end Catalog
end Sql
