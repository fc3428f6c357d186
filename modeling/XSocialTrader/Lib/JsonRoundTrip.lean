import XSocialTrader.Lib.Json
import XSocialTrader.Lib.OrderedDict

/-! What the reader makes of a value that has been written as JSON text. The text spells an
astral code point as two surrogate escapes, so two lone surrogates that follow each other come
back as one code point; a repeated key keeps its first place and its last value. -/
namespace Json

variable {F : Type}

/-- A high surrogate and a low one right behind it become one code point. -/
def joinPairs : Text → Text
  | h :: l :: s =>
    if isHigh h && isLow l then joinPair h l :: joinPairs s else h :: joinPairs (l :: s)
  | s => s

/-- A high surrogate has a low one right behind it. -/
def hasPair : Text → Bool
  | h :: l :: s => isHigh h && isLow l || hasPair (l :: s)
  | _ => false

mutual

/-- The value that the written text of a value stands for. -/
def readBack : Value F → Value F
  | .str s => .str (joinPairs s)
  | .list items => .list (readBackItems items)
  | .object fields => .object (readBackFields [] fields)
  | v => v

def readBackItems : List (Value F) → List (Value F)
  | [] => []
  | v :: vs => readBack v :: readBackItems vs

def readBackFields (done : List (Text × Value F)) :
    List (Text × Value F) → List (Text × Value F)
  | [] => done
  | (key, v) :: fields => readBackFields (setField done (joinPairs key) (readBack v)) fields

end

section Text

theorem joinPairs_eq_self {s : Text} (h : hasPair s = false) : joinPairs s = s := by
  induction s using joinPairs.induct with
  | case1 h' l s hpair _ => simp [hasPair, hpair] at h
  | case2 h' l s hpair ih =>
    simp only [hasPair, hpair, Bool.false_or] at h
    rw [joinPairs, if_neg hpair, ih h]
  | case3 s hs => rw [joinPairs]; exact hs

theorem hasPair_text (s : String) : hasPair (text s) = false := by
  unfold text
  induction s.toList with
  | nil => rfl
  | cons c cs ih =>
    have hc : isHigh c.toNat = false := by
      have hvalid : c.toNat < 0xd800 ∨ 0xdfff < c.toNat ∧ c.toNat < 0x110000 := c.valid
      simp only [isHigh, Bool.and_eq_false_iff, decide_eq_false_iff_not]
      omega
    cases cs with
    | nil => rfl
    | cons d cs => simpa [hasPair, hc] using ih

@[simp] theorem joinPairs_text (s : String) : joinPairs (text s) = text s :=
  joinPairs_eq_self (hasPair_text s)

theorem text_injective : Function.Injective text := fun s t h => by
  have hst := congrArg string? h
  simpa using hst

@[simp] theorem text_inj {s t : String} : text s = text t ↔ s = t := text_injective.eq_iff

end Text

section Fields

theorem setField_eq_setItem (fields : List (Text × Value F)) (key : Text) (v : Value F) :
    setField fields key v = OrderedDict.setItem fields key v := by
  induction fields with
  | nil => rfl
  | cons f fields ih => rw [setField, OrderedDict.setItem, ih]

theorem lookup_setField (fields : List (Text × Value F)) (k key : Text) (v : Value F) :
    (setField fields k v).lookup key = if key = k then some v else fields.lookup key := by
  rw [setField_eq_setItem, OrderedDict.lookup_setItem]

end Fields

end Json
