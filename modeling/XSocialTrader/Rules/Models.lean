import XSocialTrader.Models.Tables
import Mathlib.Data.List.Sort
import Mathlib.Data.String.Basic

/-! Validated rules. A `LoadedRules` value carries what `load_rules_from_dir` guarantees, so the
engine's callers never re-check it. -/
namespace XSocialTrader

inductive ConditionField where
  | intent | ticker | confidence | timeHorizon
  deriving DecidableEq, Repr

inductive ConditionOp where
  | eq | neq | gt | gte | lt | lte | isIn
  deriving DecidableEq, Repr

def ConditionField.value : ConditionField → String
  | .intent => "intent"
  | .ticker => "ticker"
  | .confidence => "confidence"
  | .timeHorizon => "time_horizon"

def ConditionOp.value : ConditionOp → String
  | .eq => "eq"
  | .neq => "neq"
  | .gt => "gt"
  | .gte => "gte"
  | .lt => "lt"
  | .lte => "lte"
  | .isIn => "in"

structure ConditionSpec (F : Type) where
  field : ConditionField
  op : ConditionOp
  value : PyValue F

/-- Order template of a rule. Nothing relates `limit_price` to `order_type`. -/
structure ActionSpec (F : Type) [PyFloat F] where
  tradingMode : TradingMode := .paper
  side : OrderSide
  orderType : OrderType
  quantity : ℤ
  limitPrice : Option F := none
  referencePriceUsd : F
  strategyId : String
  quantity_pos : 0 < quantity
  reference_pos : PyFloat.le referencePriceUsd (PyFloat.ofInt 0) = false
  strategyId_length : 1 ≤ strategyId.length ∧ strategyId.length ≤ 64

structure RuleSpec (F : Type) [PyFloat F] where
  id : String
  priority : ℤ
  enabled : Bool := true
  description : String := ""
  conditions : List (ConditionSpec F)
  action : ActionSpec F
  id_length : 1 ≤ id.length ∧ id.length ≤ 64
  conditions_nonempty : conditions ≠ []

variable {F : Type} [PyFloat F]

/-- The sort key `(-priority, id)`. -/
def ruleLe (r s : RuleSpec F) : Prop :=
  s.priority < r.priority ∨ r.priority = s.priority ∧ r.id ≤ s.id

instance : DecidableRel (ruleLe (F := F)) := fun r s => by
  unfold ruleLe
  infer_instance

theorem ruleLe_total (r s : RuleSpec F) : ruleLe r s ∨ ruleLe s r := by
  unfold ruleLe
  rcases lt_trichotomy r.priority s.priority with h | h | h
  · exact Or.inr (Or.inl h)
  · rcases le_total r.id s.id with hi | hi
    · exact Or.inl (Or.inr ⟨h, hi⟩)
    · exact Or.inr (Or.inr ⟨h.symm, hi⟩)
  · exact Or.inl (Or.inl h)

theorem ruleLe_trans {r s t : RuleSpec F} (h : ruleLe r s) (h' : ruleLe s t) : ruleLe r t := by
  unfold ruleLe at *
  rcases h with h | ⟨h, hi⟩ <;> rcases h' with h' | ⟨h', hi'⟩
  · exact Or.inl (h'.trans h)
  · exact Or.inl (h' ▸ h)
  · exact Or.inl (h ▸ h')
  · exact Or.inr ⟨h.trans h', hi.trans hi'⟩

instance : Std.Total (ruleLe (F := F)) := ⟨ruleLe_total⟩

instance : IsTrans (RuleSpec F) ruleLe := ⟨fun _ _ _ => ruleLe_trans⟩

theorem ruleLe_antisymm_id {r s : RuleSpec F} (h : ruleLe r s) (h' : ruleLe s r) :
    r.id = s.id := by
  unfold ruleLe at *
  rcases h with h | ⟨h, hi⟩ <;> rcases h' with h' | ⟨h', hi'⟩
  · omega
  · omega
  · omega
  · exact le_antisymm hi hi'

/-- What `load_rules_from_dir` returns: distinct ids, sorted by `(-priority, id)`. -/
structure LoadedRules (F : Type) [PyFloat F] where
  rules : List (RuleSpec F)
  ids_nodup : (rules.map RuleSpec.id).Nodup
  sorted : rules.Pairwise ruleLe

end XSocialTrader
