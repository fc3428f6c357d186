import Mathlib.Data.Nat.Basic
import Mathlib.Tactic.IntervalCases
import XSocialTrader.Lib.JsonRoundTrip

/-! JSON text as the library writes it by default: ASCII only, `, ` and `: ` between the parts.
The reader makes of it what `readBack` says. -/
namespace Json

variable {F : Type}

section Write

/-- A lower-case hexadecimal digit. -/
def hexDigit (d : ℕ) : ℕ := if d < 10 then 0x30 + d else 0x61 + (d - 10)

/-- A UTF-16 code unit as an escape. -/
def escapeUnit (u : ℕ) : Text :=
  text "\\u" ++ [hexDigit (u / 0x1000), hexDigit (u / 0x100 % 0x10), hexDigit (u / 0x10 % 0x10),
    hexDigit (u % 0x10)]

/-- One code point of a text in quotes. -/
def escapeChar (c : ℕ) : Text :=
  if c = '"'.toNat ∨ c = '\\'.toNat then ['\\'.toNat, c]
  else if c = 0x0a then text "\\n"
  else if c = 0x0d then text "\\r"
  else if c = 0x09 then text "\\t"
  else if c = 0x0c then text "\\f"
  else if c = 0x08 then text "\\b"
  else if 0x20 ≤ c ∧ c ≤ 0x7e then [c]
  else if c < 0x10000 then escapeUnit c
  else escapeUnit (0xd800 + (c - 0x10000) / 0x400) ++
    escapeUnit (0xdc00 + (c - 0x10000) % 0x400)

def quoted (s : Text) : Text := '"'.toNat :: (s.flatMap escapeChar ++ ['"'.toNat])

variable (floatText : F → Text)

mutual

/-- The text of a value; `floatText` is the text of a float. -/
def dumps : Value F → Text
  | .null => text "null"
  | .bool b => text (if b then "true" else "false")
  | .int n => text (toString n)
  | .float x => floatText x
  | .str s => quoted s
  | .list items => text "[" ++ (text ", ").intercalate (dumpsItems items) ++ text "]"
  | .object fields =>
    text "\x7b" ++ (text ", ").intercalate (dumpsFields fields) ++ text "\x7d"

def dumpsItems : List (Value F) → List Text
  | [] => []
  | v :: vs => dumps v :: dumpsItems vs

def dumpsFields : List (Text × Value F) → List Text
  | [] => []
  | (key, v) :: fields => (quoted key ++ text ": " ++ dumps v) :: dumpsFields fields

end

end Write

section Run

variable {host : Host F} {s t u : State F}

/-- The reader gets from `s` to `t` over the text. -/
def Leads (host : Host F) (s : State F) (raw : Text) (t : State F) : Prop :=
  raw.foldlM (step host) s = .ok t

theorem Leads.nil : Leads host s [] s := rfl

theorem Leads.cons {c : ℕ} {raw : Text} (hc : step host s c = .ok t) (h : Leads host t raw u) :
    Leads host s (c :: raw) u := by
  rw [Leads, List.foldlM_cons, hc]
  exact h

theorem Leads.single {c : ℕ} (hc : step host s c = .ok t) : Leads host s [c] t := .cons hc .nil

theorem Leads.append {raw raw' : Text} (h : Leads host s raw t) (h' : Leads host t raw' u) :
    Leads host s (raw ++ raw') u := by
  rw [Leads, List.foldlM_append, h]
  exact h'

theorem Leads.uncons {c : ℕ} {raw : Text} (h : Leads host s (c :: raw) u) :
    ∃ t, step host s c = .ok t ∧ Leads host t raw u := by
  rw [Leads, List.foldlM_cons] at h
  cases hc : step host s c with
  | error e =>
    rw [hc] at h
    cases h
  | ok t =>
    rw [hc] at h
    exact ⟨t, rfl, h⟩

end Run

section Surrogates

theorem joinPairs_cons_of_not_high {c : ℕ} (h : isHigh c = false) (s : Text) :
    joinPairs (c :: s) = c :: joinPairs s := by
  cases s with
  | nil => rfl
  | cons l s => rw [joinPairs, h, Bool.false_and, if_neg Bool.false_ne_true]

theorem joinPairs_cons_of_not_low (c : ℕ) {l : ℕ} (h : isLow l = false) (s : Text) :
    joinPairs (c :: l :: s) = c :: joinPairs (l :: s) := by
  rw [joinPairs, h, Bool.and_false, if_neg Bool.false_ne_true]

theorem not_low_of_isHigh {u : ℕ} (h : isHigh u = true) : isLow u = false := by
  simp only [isLow, isHigh, Bool.and_eq_true, decide_eq_true_eq, Bool.and_eq_false_iff,
    decide_eq_false_iff_not] at *
  omega

theorem not_surrogate {c : ℕ} (h : c < 0xd800 ∨ 0xdfff < c) :
    isHigh c = false ∧ isLow c = false := by
  simp only [isHigh, isLow, Bool.and_eq_false_iff, decide_eq_false_iff_not]
  omega

/-- A code point that is no surrogate ends a pair that has not been completed. -/
theorem joinPairs_toList_cons {c : ℕ} (h : isHigh c = false ∧ isLow c = false)
    (high : Option ℕ) (s : Text) :
    joinPairs (high.toList ++ c :: s) = high.toList ++ c :: joinPairs s := by
  cases high with
  | none => exact joinPairs_cons_of_not_high h.1 s
  | some u =>
    show joinPairs (u :: c :: s) = u :: c :: joinPairs s
    rw [joinPairs_cons_of_not_low u h.2, joinPairs_cons_of_not_high h.1]

theorem joinPair_split {c : ℕ} (h : 0x10000 ≤ c) :
    joinPair (0xd800 + (c - 0x10000) / 0x400) (0xdc00 + (c - 0x10000) % 0x400) = c := by
  unfold joinPair
  omega

/-- The two escapes of an astral code point are joined again. -/
theorem joinPairs_escapeUnits {c : ℕ} (hlarge : 0x10000 ≤ c) (hc : c < 0x110000)
    (high : Option ℕ) (s : Text) :
    joinPairs (high.toList ++
      (0xd800 + (c - 0x10000) / 0x400) :: (0xdc00 + (c - 0x10000) % 0x400) :: s) =
      joinPairs (high.toList ++ c :: s) := by
  have hu₁ : isHigh (0xd800 + (c - 0x10000) / 0x400) = true := by
    simp only [isHigh, Bool.and_eq_true, decide_eq_true_eq]
    omega
  have hu₂ : isLow (0xdc00 + (c - 0x10000) % 0x400) = true := by
    simp only [isLow, Bool.and_eq_true, decide_eq_true_eq]
    omega
  have hpair := joinPair_split hlarge
  generalize 0xd800 + (c - 0x10000) / 0x400 = u₁ at *
  generalize 0xdc00 + (c - 0x10000) % 0x400 = u₂ at *
  have hjoined : joinPairs (u₁ :: u₂ :: s) = c :: joinPairs s := by
    rw [joinPairs, hu₁, hu₂, Bool.and_self, if_pos rfl, hpair]
  rw [joinPairs_toList_cons (c := c) (not_surrogate (by omega))]
  cases high with
  | none => exact hjoined
  | some h =>
    show joinPairs (h :: u₁ :: u₂ :: s) = h :: c :: joinPairs s
    rw [joinPairs_cons_of_not_low h (not_low_of_isHigh hu₁), hjoined]

/-- What the reader holds after a code unit. -/
def pushUnit (read : Text) (high : Option ℕ) (u : ℕ) : Text × Option ℕ :=
  match high with
  | some h =>
    if isLow u then (read ++ [joinPair h u], none)
    else if isHigh u then (read ++ [h], some u)
    else (read ++ [h, u], none)
  | none => if isHigh u then (read, some u) else (read ++ [u], none)

variable {read : Text} {high : Option ℕ} {u : ℕ}

theorem pushUnit_joinPairs (hhigh : ∀ h ∈ high, isHigh h = true) (s : Text) :
    (pushUnit read high u).1 ++ joinPairs ((pushUnit read high u).2.toList ++ s) =
      read ++ joinPairs (high.toList ++ u :: s) := by
  cases high with
  | none =>
    by_cases hu : isHigh u = true
    · simp [pushUnit, hu]
    · rw [Bool.not_eq_true] at hu
      simp [pushUnit, hu, joinPairs_cons_of_not_high]
  | some h =>
    have hh : isHigh h = true := hhigh h rfl
    by_cases hl : isLow u = true
    · simp [pushUnit, hl, hh, joinPairs]
    · rw [Bool.not_eq_true] at hl
      have hcons : joinPairs (h :: u :: s) = h :: joinPairs (u :: s) :=
        joinPairs_cons_of_not_low h hl s
      by_cases hu : isHigh u = true
      · simp [pushUnit, hl, hu, hcons]
      · rw [Bool.not_eq_true] at hu
        simp [pushUnit, hl, hu, hcons, joinPairs_cons_of_not_high]

theorem pushUnit_high : ∀ h ∈ (pushUnit read high u).2, isHigh h = true := by
  intro h hh
  cases high <;> unfold pushUnit at hh <;> split_ifs at hh <;> simp_all

end Surrogates

section Chars

variable {host : Host F} {stack : List (Frame F)} {target : Target F} {read : Text}
  {high : Option ℕ}

theorem hexDigit?_hexDigit {d : ℕ} (h : d < 16) : hexDigit? (hexDigit d) = some d := by
  have hall : ∀ d < 16, hexDigit? (hexDigit d) = some d := by decide
  exact hall d h

theorem read_escapeUnit {u : ℕ} (h : u < 0x10000) :
    Leads host ⟨.chars target read high .plain, stack⟩ (escapeUnit u)
      ⟨.chars target (pushUnit read high u).1 (pushUnit read high u).2 .plain, stack⟩ := by
  have hdigit (digits : List ℕ) (d : ℕ) (hd : d < 16) (hlen : digits.length < 3) :
      step host ⟨.chars target read high (.hex digits), stack⟩ (hexDigit d) =
        .ok ⟨.chars target read high (.hex (digits ++ [d])), stack⟩ := by
    show stepChars stack target read high (.hex digits) (hexDigit d) = _
    simp only [stepChars, hexDigit?_hexDigit hd, if_pos hlen]
  have hvalue : ofDigits 16 [u / 0x1000, u / 0x100 % 0x10, u / 0x10 % 0x10, u % 0x10] = u := by
    simp only [ofDigits, List.foldl_cons, List.foldl_nil]
    omega
  have hlast : step host ⟨.chars target read high
        (.hex [u / 0x1000, u / 0x100 % 0x10, u / 0x10 % 0x10]), stack⟩ (hexDigit (u % 0x10)) =
      .ok ⟨.chars target (pushUnit read high u).1 (pushUnit read high u).2 .plain, stack⟩ := by
    have hd : u % 0x10 < 16 := by omega
    have hfull : ¬ [u / 0x1000, u / 0x100 % 0x10, u / 0x10 % 0x10].length < 3 := by simp
    show stepChars stack target read high (.hex [_, _, _]) (hexDigit (u % 0x10)) = _
    simp only [stepChars, hexDigit?_hexDigit hd, if_neg hfull, List.cons_append, List.nil_append,
      hvalue, pushUnit]
    cases high with
    | none => split_ifs <;> simp
    | some h =>
      split_ifs <;> simp only [Option.toList_some, List.append_assoc, List.cons_append,
        List.nil_append]
  apply Leads.cons (t := ⟨.chars target read high .slash, stack⟩) rfl
  apply Leads.cons (t := ⟨.chars target read high (.hex []), stack⟩) rfl
  apply Leads.cons (hdigit [] (u / 0x1000) (by omega) (by decide))
  apply Leads.cons (hdigit [u / 0x1000] (u / 0x100 % 0x10) (by omega) (by simp))
  apply Leads.cons (hdigit [u / 0x1000, u / 0x100 % 0x10] (u / 0x10 % 0x10) (by omega) (by simp))
  exact .single hlast

/-- Between the quotes, what is held after `c` gives the same text as what was held before,
whatever comes next. -/
structure Consumes (before : Text) (high : Option ℕ) (c : ℕ) (after : Text) (high' : Option ℕ) :
    Prop where
  surrogate : ∀ h ∈ high', isHigh h = true
  joined : ∀ s, after ++ joinPairs (high'.toList ++ s) = before ++ joinPairs (high.toList ++ c :: s)

theorem read_escapeUnits {u₁ u₂ c : ℕ} (h₁ : u₁ < 0x10000) (h₂ : u₂ < 0x10000)
    (hhigh : ∀ h ∈ high, isHigh h = true)
    (hjoin : ∀ s, joinPairs (high.toList ++ u₁ :: u₂ :: s) = joinPairs (high.toList ++ c :: s)) :
    ∃ after high', Leads host ⟨.chars target read high .plain, stack⟩
        (escapeUnit u₁ ++ escapeUnit u₂) ⟨.chars target after high' .plain, stack⟩ ∧
      Consumes read high c after high' := by
  let first := pushUnit read high u₁
  let second := pushUnit first.1 first.2 u₂
  refine ⟨second.1, second.2, (read_escapeUnit h₁).append (read_escapeUnit h₂), pushUnit_high,
    fun s => ?_⟩
  rw [pushUnit_joinPairs pushUnit_high, pushUnit_joinPairs hhigh, hjoin]

/-- Any code point, however it is written. -/
theorem read_escapeChar {c : ℕ} (hc : c < 0x110000) (hhigh : ∀ h ∈ high, isHigh h = true) :
    ∃ after high', Leads host ⟨.chars target read high .plain, stack⟩ (escapeChar c)
        ⟨.chars target after high' .plain, stack⟩ ∧ Consumes read high c after high' := by
  have hplain (hsmall : c < 0x80) : Consumes read high c (read ++ high.toList ++ [c]) none := by
    refine ⟨nofun, fun s => ?_⟩
    rw [joinPairs_toList_cons (not_surrogate (by omega))]
    simp
  have hslash (x : ℕ) (hx : step host ⟨.chars target read high .slash, stack⟩ x =
      .ok ⟨.chars target (read ++ high.toList ++ [c]) none .plain, stack⟩) (hsmall : c < 0x80) :
      ∃ after high', Leads host ⟨.chars target read high .plain, stack⟩ ['\\'.toNat, x]
        ⟨.chars target after high' .plain, stack⟩ ∧ Consumes read high c after high' :=
    ⟨_, none, .cons (t := ⟨.chars target read high .slash, stack⟩) rfl (.single hx),
      hplain hsmall⟩
  unfold escapeChar
  by_cases hmeta : c = '"'.toNat ∨ c = '\\'.toNat
  · rw [if_pos hmeta]
    apply hslash c
    · rcases hmeta with rfl | rfl <;> rfl
    · rcases hmeta with rfl | rfl <;> decide
  rw [if_neg hmeta]
  by_cases hn : c = 0x0a
  · rw [if_pos hn]
    exact hslash 'n'.toNat (hn ▸ rfl) (by omega)
  rw [if_neg hn]
  by_cases hr : c = 0x0d
  · rw [if_pos hr]
    exact hslash 'r'.toNat (hr ▸ rfl) (by omega)
  rw [if_neg hr]
  by_cases ht : c = 0x09
  · rw [if_pos ht]
    exact hslash 't'.toNat (ht ▸ rfl) (by omega)
  rw [if_neg ht]
  by_cases hf : c = 0x0c
  · rw [if_pos hf]
    exact hslash 'f'.toNat (hf ▸ rfl) (by omega)
  rw [if_neg hf]
  by_cases hb : c = 0x08
  · rw [if_pos hb]
    exact hslash 'b'.toNat (hb ▸ rfl) (by omega)
  rw [if_neg hb]
  by_cases hprintable : 0x20 ≤ c ∧ c ≤ 0x7e
  · rw [if_pos hprintable]
    rw [not_or] at hmeta
    have hcontrol : ¬ c ≤ 0x1f := by omega
    refine ⟨read ++ high.toList ++ [c], none, .single ?_, hplain (by omega)⟩
    show stepChars stack target read high .plain c = _
    simp only [stepChars, if_neg hmeta.1, if_neg hmeta.2, if_neg hcontrol]
  rw [if_neg hprintable]
  by_cases hunit : c < 0x10000
  · rw [if_pos hunit]
    exact ⟨_, _, read_escapeUnit hunit, pushUnit_high, pushUnit_joinPairs hhigh⟩
  rw [if_neg hunit]
  exact read_escapeUnits (by omega) (by omega) hhigh (joinPairs_escapeUnits (by omega) hc high)

theorem read_chars {s : Text} (hs : ∀ c ∈ s, c < 0x110000)
    (hhigh : ∀ h ∈ high, isHigh h = true) :
    Leads host ⟨.chars target read high .plain, stack⟩ (s.flatMap escapeChar ++ ['"'.toNat])
      (placeText (read ++ joinPairs (high.toList ++ s)) stack target) := by
  induction s generalizing read high with
  | nil =>
    have hheld : joinPairs (high.toList ++ []) = high.toList := by cases high <;> rfl
    rw [hheld]
    exact .single rfl
  | cons c s ih =>
    rw [List.forall_mem_cons] at hs
    obtain ⟨after, high', hread, hafter⟩ := read_escapeChar hs.1 hhigh
    rw [List.flatMap_cons, List.append_assoc, ← hafter.joined]
    exact hread.append (ih hs.2 hafter.surrogate)

/-- A text in quotes comes back with its surrogate pairs joined. -/
theorem read_quoted {s : Text} (hs : ∀ c ∈ s, c < 0x110000) {before : State F}
    (hquote : step host before '"'.toNat = .ok ⟨.chars target [] none .plain, stack⟩) :
    Leads host before (quoted s) (placeText (joinPairs s) stack target) :=
  .cons hquote (read_chars hs nofun)

end Chars

section Numbers

variable {host : Host F} {v : Value F} {stack : List (Frame F)} {s : State F}

/-- The reader has the value, or a number that the next separator or the end completes. -/
inductive Completes (host : Host F) (v : Value F) (stack : List (Frame F)) : State F → Prop
  | placed : Completes host v stack (place v stack)
  | number {part : Part} {negative : Bool} {whole rest : Text}
    (h : closeNumber host part negative whole rest = .ok (some v)) :
    Completes host v stack ⟨.number part negative whole rest, stack⟩

def isSeparator (c : ℕ) : Bool := c == ','.toNat || c == ']'.toNat || c == '\x7d'.toNat

theorem nextPart_separator {c : ℕ} (h : isSeparator c = true) (part : Part) :
    nextPart c part = none := by
  simp only [isSeparator, Bool.or_eq_true, beq_iff_eq] at h
  rcases h with (rfl | rfl) | rfl <;> cases part <;> rfl

theorem Completes.step (h : Completes host v stack s) {c : ℕ} (hc : isSeparator c = true) :
    step host s c = stepAfter (place v stack) c := by
  cases h with
  | placed =>
    cases stack with
    | nil => rfl
    | cons frame stack => cases frame <;> rfl
  | @number part negative whole rest h =>
    show stepNumber host stack part negative whole rest c = _
    unfold stepNumber
    rw [nextPart_separator hc]
    cases part with
    | minus => simp [closeNumber] at h
    | _ => simp only [h]

theorem Completes.finish (h : Completes host v [] s) : finish host s = .ok v := by
  cases h with
  | placed => rfl
  | number h => simp only [Json.finish, h]

/-- No fraction and no exponent yet. -/
def isEarly : Part → Bool
  | .minus | .zero | .whole => true
  | _ => false

theorem isEarly_of_isWhole {part : Part} (h : isWhole part = true) : isEarly part = true := by
  cases part <;> first | rfl | exact absurd h Bool.false_ne_true

/-- Only the start of a number is continued to a whole part. -/
theorem isEarly_of_nextPart {c : ℕ} {part next : Part} (h : nextPart c part = some next)
    (hnext : isEarly next = true) : isEarly part = true ∧ isWhole next = true := by
  cases part <;> simp only [nextPart] at h <;> split_ifs at h <;> cases h <;>
    first | exact ⟨rfl, rfl⟩ | exact absurd hnext Bool.false_ne_true

/-- The part that a number is in after some more of its text. -/
def partAfter (part : Part) (number : Text) : Option Part :=
  number.foldlM (fun part c => nextPart c part) part

theorem partAfter_cons {c : ℕ} {number : Text} {part last : Part}
    (h : partAfter part (c :: number) = some last) :
    ∃ next, nextPart c part = some next ∧ partAfter next number = some last := by
  rw [partAfter, List.foldlM_cons] at h
  exact Option.bind_eq_some_iff.mp h

theorem read_parts {number : Text} {part last : Part} {negative : Bool} {whole rest : Text}
    (h : partAfter part number = some last) (hearly : isEarly part = true → rest = []) :
    ∃ whole' rest', Leads host ⟨.number part negative whole rest, stack⟩ number
        ⟨.number last negative whole' rest', stack⟩ ∧
      whole' ++ rest' = whole ++ rest ++ number ∧ (isEarly last = true → rest' = []) := by
  induction number generalizing part whole rest with
  | nil =>
    obtain rfl : part = last := Option.some.inj h
    exact ⟨whole, rest, .nil, (List.append_nil _).symm, hearly⟩
  | cons c number ih =>
    obtain ⟨next, hnext, h⟩ := partAfter_cons h
    have hstep : Json.step host ⟨.number part negative whole rest, stack⟩ c =
        .ok (if isWhole next then ⟨.number next negative (whole ++ [c]) rest, stack⟩
          else ⟨.number next negative whole (rest ++ [c]), stack⟩) := by
      show stepNumber host stack part negative whole rest c = _
      simp only [stepNumber, hnext]
      cases isWhole next <;> rfl
    cases hw : isWhole next with
    | true =>
      rw [hw, if_pos rfl] at hstep
      have hrest : rest = [] := hearly (isEarly_of_nextPart hnext (isEarly_of_isWhole hw)).1
      obtain ⟨whole', rest', hrun, heq, hlast⟩ := ih h fun _ => hrest
      exact ⟨whole', rest', .cons hstep hrun, by simp [heq, hrest], hlast⟩
    | false =>
      rw [hw, if_neg Bool.false_ne_true] at hstep
      obtain ⟨whole', rest', hrun, heq, hlast⟩ := ih h
        fun hn => absurd (isEarly_of_nextPart hnext hn).2 (by simp [hw])
      exact ⟨whole', rest', .cons hstep hrun, by simp [heq], hlast⟩

theorem step_value_digit {c : ℕ} {next : Part} (h : nextPart c .minus = some next) :
    Json.step host ⟨.value, stack⟩ c = .ok ⟨.number next false [c] [], stack⟩ := by
  have hdigit : 0x30 ≤ c ∧ c ≤ 0x39 := by
    simp only [nextPart] at h
    split_ifs at h with hzero hdigit
    · rw [hzero]
      decide
    · simpa [isDigit] using hdigit
  obtain ⟨hlow, hhigh⟩ := hdigit
  interval_cases c <;> cases h <;> rfl

def sign (negative : Bool) : Text := if negative then text "-" else []

theorem read_number (negative : Bool) {number : Text} {last : Part} (hne : number ≠ [])
    (h : partAfter .minus number = some last) :
    ∃ whole rest, Leads host ⟨.value, stack⟩ (sign negative ++ number)
        ⟨.number last negative whole rest, stack⟩ ∧
      whole ++ rest = number ∧ (isEarly last = true → rest = []) := by
  cases negative with
  | true =>
    obtain ⟨whole, rest, hread, heq, hlast⟩ := read_parts h fun _ => rfl
    exact ⟨whole, rest, .cons (t := ⟨.number .minus true [] [], stack⟩) rfl hread, heq, hlast⟩
  | false =>
    obtain ⟨c, number, rfl⟩ := List.exists_cons_of_ne_nil hne
    obtain ⟨next, hnext, h⟩ := partAfter_cons h
    obtain ⟨whole, rest, hread, heq, hlast⟩ := read_parts h fun _ => rfl
    exact ⟨whole, rest, .cons (step_value_digit hnext) hread, heq, hlast⟩

/-- A number with a fraction or an exponent. -/
def IsFloatText (s : Text) : Prop :=
  ∃ negative number last, s = sign negative ++ number ∧ partAfter .minus number = some last ∧
    (last = .fraction ∨ last = .exponent)

theorem read_floatText {s : Text} {x : F} (h : IsFloatText s) (hx : host.float s = some x) :
    ∃ st, Leads host ⟨.value, stack⟩ s st ∧ Completes host (.float x) stack st := by
  obtain ⟨negative, number, last, rfl, hnumber, hlast⟩ := h
  have hne : number ≠ [] := by
    rintro rfl
    rcases hlast with rfl | rfl <;> cases hnumber
  obtain ⟨whole, rest, hread, hwhole, -⟩ := read_number negative hne hnumber
  refine ⟨_, hread, .number ?_⟩
  have hclose : closeNumber host last negative whole rest =
      .ok ((host.float (sign negative ++ whole ++ rest)).map .float) := by
    rcases hlast with rfl | rfl <;> rfl
  rw [hclose, List.append_assoc, hwhole, hx]
  rfl

/-- The digits of a number that is not zero start with another digit. -/
theorem toDigits_head {n : ℕ} (h : n ≠ 0) :
    ∃ c digits, Nat.toDigits 10 n = c :: digits ∧ c ≠ '0' := by
  induction n using Nat.base_induction 10 (by omega) with
  | single m hm =>
    exact ⟨m.digitChar, [], Nat.toDigits_of_lt_base hm, Nat.digitChar_eq_zero.not.mpr h⟩
  | digit m k hk hm ih =>
    obtain ⟨c, digits, hdigits, hc⟩ := ih (by omega)
    exact ⟨c, digits ++ Nat.toDigits 10 k,
      by rw [← Nat.toDigits_append_toDigits (by omega) hm hk, hdigits, List.cons_append], hc⟩

/-- The decimal digits of a natural number. -/
def natText (n : ℕ) : Text := (Nat.toDigits 10 n).map Char.toNat

theorem text_toString (n : ℤ) :
    text (toString n) = sign (decide (n < 0)) ++ natText n.natAbs := by
  rw [Int.toString_eq_repr, Int.repr_eq_if]
  split_ifs with h
  · have hneg : ¬ n < 0 := by omega
    have habs : n.toNat = n.natAbs := by omega
    simp [sign, hneg, habs, text, natText]
  · have hneg : n < 0 := by omega
    have habs : (-n).toNat = n.natAbs := by omega
    simp [sign, hneg, habs, text, natText]

theorem natText_isDigit {n c : ℕ} (h : c ∈ natText n) : isDigit c = true := by
  obtain ⟨d, hd, rfl⟩ := List.mem_map.mp h
  have hdigit := Nat.isDigit_of_mem_toDigits (by omega) (by omega) hd
  simp only [isDigit, Bool.and_eq_true, decide_eq_true_eq]
  exact Char.isDigit_iff_toNat.mp hdigit

theorem ofDigits_natText (n : ℕ) : ofDigits 10 ((natText n).map (· - 0x30)) = n := by
  have hfold := Nat.ofDigitChars_ten_toDigits (n := n)
  rw [Nat.ofDigitChars_eq_foldl] at hfold
  simp only [ofDigits, natText, List.map_map, List.foldl_map]
  exact hfold

theorem partAfter_digits {digits : Text} (h : ∀ c ∈ digits, isDigit c = true) :
    partAfter .whole digits = some .whole := by
  induction digits with
  | nil => rfl
  | cons c digits ih =>
    rw [List.forall_mem_cons] at h
    rw [partAfter, List.foldlM_cons]
    simp only [nextPart, if_pos h.1]
    exact ih h.2

theorem partAfter_natText (n : ℕ) :
    partAfter .minus (natText n) = some (if n = 0 then .zero else .whole) := by
  split_ifs with h
  · subst h
    rfl
  · obtain ⟨c, digits, hdigits, hc⟩ := toDigits_head h
    have htext : natText n = c.toNat :: digits.map Char.toNat := by rw [natText, hdigits]; rfl
    have hall : ∀ d ∈ natText n, isDigit d = true := fun _ => natText_isDigit
    rw [htext, List.forall_mem_cons] at hall
    have hzero : c.toNat ≠ '0'.toNat := fun h => hc (Char.ext (UInt32.toNat_inj.mp h))
    rw [htext, partAfter, List.foldlM_cons]
    simp only [nextPart, if_neg hzero, if_pos hall.1]
    exact partAfter_digits hall.2

theorem read_int {n : ℤ} (h : (natText n.natAbs).length ≤ host.digits) :
    ∃ st, Leads host ⟨.value, stack⟩ (text (toString n)) st ∧
      Completes host (.int n) stack st := by
  have hne : natText n.natAbs ≠ [] := by simp [natText]
  obtain ⟨whole, rest, hread, hwhole, hrest⟩ :=
    read_number (decide (n < 0)) hne (partAfter_natText n.natAbs)
  have hrest : rest = [] := hrest (by split_ifs <;> rfl)
  rw [hrest, List.append_nil] at hwhole
  rw [text_toString]
  refine ⟨_, hread, .number ?_⟩
  have hvalue : readInt host (decide (n < 0)) whole = .ok n := by
    simp only [readInt, hwhole, if_pos h, ofDigits_natText, decide_eq_true_eq]
    split_ifs with hneg <;> congr 1 <;> omega
  have hclose : closeNumber host (if n.natAbs = 0 then .zero else .whole) (decide (n < 0)) whole
      rest = (readInt host (decide (n < 0)) whole).map fun n => some (.int n) := by
    split_ifs <;> rfl
  rw [hclose, hvalue]
  rfl

end Numbers

section Values

variable (host : Host F) (floatText : F → Text)

/-- The host takes the text of a float as that float. -/
def FloatReadable (x : F) : Prop :=
  (IsFloatText (floatText x) ∨
    floatText x ∈ [text "NaN", text "Infinity", text "-Infinity"]) ∧
    host.float (floatText x) = some x

mutual

/-- The reader gets through the text of the value when `depth` containers are open. -/
def Readable : ℕ → Value F → Prop
  | _, .null | _, .bool _ => True
  | _, .int n => (natText n.natAbs).length ≤ host.digits
  | _, .float x => FloatReadable host floatText x
  | _, .str s => ∀ c ∈ s, c < 0x110000
  | depth, .list items => depth < host.depth ∧ ReadableItems (depth + 1) items
  | depth, .object fields => depth < host.depth ∧ ReadableFields (depth + 1) fields

def ReadableItems : ℕ → List (Value F) → Prop
  | _, [] => True
  | depth, v :: vs => Readable depth v ∧ ReadableItems depth vs

def ReadableFields : ℕ → List (Text × Value F) → Prop
  | _, [] => True
  | depth, (key, v) :: fields =>
    (∀ c ∈ key, c < 0x110000) ∧ Readable depth v ∧ ReadableFields depth fields

end

variable {host floatText} {stack : List (Frame F)}

theorem read_literal (c : ℕ) (todo : Text) (v : Value F) :
    Leads host ⟨.literal (c :: todo) (some v), stack⟩ (c :: todo) (place v stack) := by
  induction todo generalizing c with
  | nil => exact .single (by simp only [step, if_pos])
  | cons d todo ih => exact .cons (by simp only [step, if_pos]) (ih d)

theorem read_float {x : F} (h : FloatReadable host floatText x) :
    ∃ st, Leads host ⟨.value, stack⟩ (floatText x) st ∧ Completes host (.float x) stack st := by
  obtain ⟨hnumber | hconstant, hx⟩ := h
  · exact read_floatText hnumber hx
  · have hread : Leads host ⟨.value, stack⟩ (floatText x) (place (.float x) stack) := by
      simp only [List.mem_cons, List.not_mem_nil, or_false] at hconstant
      rcases hconstant with h | h | h <;> rw [h] at hx ⊢
      · apply Leads.cons (t := ⟨.literal (text "aN") (some (.float x)), stack⟩)
        · show Except.ok (⟨.literal _ ((host.float (text "NaN")).map .float), stack⟩ : State F) = _
          rw [hx]
          rfl
        · exact read_literal ..
      · apply Leads.cons (t := ⟨.literal (text "nfinity") (some (.float x)), stack⟩)
        · show Except.ok (⟨.literal _ ((host.float (text "Infinity")).map .float), stack⟩ :
            State F) = _
          rw [hx]
          rfl
        · exact read_literal ..
      · apply Leads.cons (t := ⟨.number .minus true [] [], stack⟩) rfl
        apply Leads.cons (t := ⟨.literal (text "nfinity") (some (.float x)), stack⟩)
        · show Except.ok (⟨.literal _ ((host.float (text "-Infinity")).map .float), stack⟩ :
            State F) = _
          rw [hx]
          rfl
        · exact read_literal ..
    exact ⟨_, hread, .placed⟩

theorem place_mode (v : Value F) (stack : List (Frame F)) : (place v stack).mode ≠ .value := by
  cases stack with
  | nil => exact nofun
  | cons frame stack => cases frame <;> exact nofun

/-- The first item of a list is read as the items behind a separator are. -/
theorem read_firstItem {s : Text} {st : State F} (hst : st.mode ≠ .value)
    (h : Leads host ⟨.value, .list [] :: stack⟩ s st) : Leads host ⟨.firstItem, stack⟩ s st := by
  induction s with
  | nil =>
    obtain rfl : (⟨.value, .list [] :: stack⟩ : State F) = st := Except.ok.inj h
    exact absurd rfl hst
  | cons c s ih =>
    obtain ⟨t, hstep, hrest⟩ := h.uncons
    by_cases hspace : isSpace c = true
    · have hitem : step host ⟨.firstItem, stack⟩ c = .ok ⟨.firstItem, stack⟩ := by
        simp only [step, if_pos hspace]
      simp only [step, if_pos hspace] at hstep
      cases hstep
      exact .cons hitem (ih hrest)
    · by_cases hclose : c = ']'.toNat
      · subst hclose
        cases hstep
      · have hsame : step host ⟨.firstItem, stack⟩ c =
            step host ⟨.value, .list [] :: stack⟩ c := by
          simp only [step, if_neg hspace, if_neg hclose]
        exact .cons (hsame.trans hstep) hrest

/-- A field up to its value: the key, a colon and a space. -/
theorem read_key {key : Text} (hkey : ∀ c ∈ key, c < 0x110000) {before : State F}
    {done : List (Text × Value F)}
    (hquote : step host before '"'.toNat = .ok ⟨.chars (.key done) [] none .plain, stack⟩) :
    Leads host before (quoted key ++ text ": ") ⟨.value, .object done (joinPairs key) :: stack⟩ :=
  (read_quoted hkey hquote).append (.cons rfl (.single rfl))

theorem intercalate_cons {α : Type} (sep a : List α) (rest : List (List α)) :
    sep.intercalate (a :: rest) = a ++ rest.flatMap (sep ++ ·) := by
  induction rest generalizing a with
  | nil => simp
  | cons b rest ih =>
    simp only [List.intercalate_cons_cons, ih, List.flatMap_cons, List.append_assoc]

mutual

/-- The text of a value leads to what `readBack` makes of the value. -/
theorem read_dumps : ∀ (v : Value F) (stack : List (Frame F)),
    Readable host floatText stack.length v →
    ∃ st, Leads host ⟨.value, stack⟩ (dumps floatText v) st ∧
      Completes host (readBack v) stack st
  | .null, _, _ => ⟨_, .cons rfl (read_literal 'u'.toNat (text "ll") .null), .placed⟩
  | .bool true, _, _ => ⟨_, .cons rfl (read_literal 'r'.toNat (text "ue") (.bool true)), .placed⟩
  | .bool false, _, _ =>
    ⟨_, .cons rfl (read_literal 'a'.toNat (text "lse") (.bool false)), .placed⟩
  | .int _, _, h => read_int h
  | .float _, _, h => read_float h
  | .str _, _, h => ⟨_, read_quoted h rfl, .placed⟩
  | .list [], stack, ⟨hdepth, _⟩ => by
    have hopen : step host ⟨.value, stack⟩ '['.toNat = .ok ⟨.firstItem, stack⟩ := if_pos hdepth
    exact ⟨_, .cons hopen (.single rfl), .placed⟩
  | .list (v :: vs), stack, ⟨hdepth, hv, hvs⟩ => by
    have hopen : step host ⟨.value, stack⟩ '['.toNat = .ok ⟨.firstItem, stack⟩ := if_pos hdepth
    obtain ⟨st, hread, hst⟩ := read_dumps v (.list [] :: stack) hv
    have hitems := read_firstItem (place_mode _ _) (hread.append (read_items vs [] stack hst hvs))
    refine ⟨_, ?_, .placed⟩
    rw [dumps, dumpsItems, intercalate_cons, List.append_assoc, List.append_assoc]
    exact .cons hopen hitems
  | .object [], stack, ⟨hdepth, _⟩ => by
    have hopen : step host ⟨.value, stack⟩ '\x7b'.toNat = .ok ⟨.firstKey, stack⟩ := if_pos hdepth
    exact ⟨_, .cons hopen (.single rfl), .placed⟩
  | .object ((key, v) :: fields), stack, ⟨hdepth, hkey, hv, hfields⟩ => by
    have hopen : step host ⟨.value, stack⟩ '\x7b'.toNat = .ok ⟨.firstKey, stack⟩ := if_pos hdepth
    obtain ⟨st, hread, hst⟩ := read_dumps v (.object [] (joinPairs key) :: stack) hv
    refine ⟨_, ?_, .placed⟩
    rw [dumps, dumpsFields, intercalate_cons, List.append_assoc, List.append_assoc]
    exact .cons hopen (((read_key hkey rfl).append hread).append
      (read_fields fields [] stack hst hfields))

theorem read_items : ∀ (vs : List (Value F)) (done : List (Value F)) (stack : List (Frame F))
    {v : Value F} {st : State F}, Completes host v (.list done :: stack) st →
    ReadableItems host floatText (stack.length + 1) vs →
    Leads host st ((dumpsItems floatText vs).flatMap (text ", " ++ ·) ++ text "]")
      (place (.list (done ++ v :: readBackItems vs)) stack)
  | [], _, _, _, _, hst, _ => .single (hst.step rfl)
  | w :: vs, done, stack, v, st, hst, ⟨hw, hvs⟩ => by
    obtain ⟨st', hread, hst'⟩ := read_dumps w (.list (done ++ [v]) :: stack) hw
    have hrest := read_items vs (done ++ [v]) stack hst' hvs
    rw [List.append_assoc] at hrest
    rw [dumpsItems, List.flatMap_cons, List.append_assoc, List.append_assoc]
    exact .cons (hst.step rfl) (.cons rfl (hread.append hrest))

theorem read_fields : ∀ (fields : List (Text × Value F)) (done : List (Text × Value F))
    (stack : List (Frame F)) {key : Text} {v : Value F} {st : State F},
    Completes host v (.object done key :: stack) st →
    ReadableFields host floatText (stack.length + 1) fields →
    Leads host st ((dumpsFields floatText fields).flatMap (text ", " ++ ·) ++ text "\x7d")
      (place (.object (readBackFields (setField done key v) fields)) stack)
  | [], _, _, _, _, _, hst, _ => .single (hst.step rfl)
  | (k, w) :: fields, done, stack, key, v, st, hst, ⟨hkey, hw, hfields⟩ => by
    obtain ⟨st', hread, hst'⟩ :=
      read_dumps w (.object (setField done key v) (joinPairs k) :: stack) hw
    have hrest := read_fields fields (setField done key v) stack hst' hfields
    rw [dumpsFields, List.flatMap_cons, List.append_assoc, List.append_assoc]
    exact .cons (hst.step rfl) (.cons rfl (((read_key hkey rfl).append hread).append hrest))

end

/-- Reading what was written gives the value with its surrogate pairs joined and its repeated
keys merged. -/
theorem loads_dumps {v : Value F} (h : Readable host floatText 0 v) :
    loads host (dumps floatText v) = .ok (readBack v) := by
  obtain ⟨st, hread, hst⟩ := read_dumps v [] h
  rw [loads, hread]
  exact hst.finish

end Values

end Json
