import XSocialTrader.Lib.FixedWidth
import XSocialTrader.Core.Values

/-! UTC calendar dates and times, and the texts in which the store keeps and compares
them. SQLite's `CURRENT_TIMESTAMP` writes whole seconds; SQLAlchemy binds a `datetime`
with six digits of microseconds. -/
namespace XSocialTrader
open FixedWidth

def isLeapYear (year : ℕ) : Bool :=
  year % 4 == 0 && (year % 100 != 0 || year % 400 == 0)

def daysInMonth (year month : ℕ) : ℕ :=
  if month = 2 then if isLeapYear year then 29 else 28
  else if month = 4 ∨ month = 6 ∨ month = 9 ∨ month = 11 then 30
  else 31

theorem daysInMonth_le (year month : ℕ) : daysInMonth year month ≤ 31 := by
  unfold daysInMonth
  split_ifs <;> omega

theorem le_daysInMonth (year month : ℕ) : 28 ≤ daysInMonth year month := by
  unfold daysInMonth
  split_ifs <;> omega

/-- A date `datetime` can hold. -/
structure UtcDate where
  year : ℕ
  month : ℕ
  day : ℕ
  year_bounds : 1 ≤ year ∧ year ≤ 9999
  month_bounds : 1 ≤ month ∧ month ≤ 12
  day_bounds : 1 ≤ day ∧ day ≤ daysInMonth year month
  deriving DecidableEq

namespace UtcDate

/-- Dates in calendar order. -/
def code (d : UtcDate) : ℕ := d.year * 10000 + d.month * 100 + d.day

theorem day_le (d : UtcDate) : d.day ≤ 31 := d.day_bounds.2.trans (daysInMonth_le _ _)

theorem code_inj {d e : UtcDate} : d.code = e.code ↔ d = e := by
  constructor
  · intro h
    have hd := d.day_le
    have he := e.day_le
    have hdm := d.month_bounds
    have hem := e.month_bounds
    obtain ⟨y, m, a, _, _, _⟩ := d
    obtain ⟨y', m', a', _, _, _⟩ := e
    simp only [code] at h hd he hdm hem
    simp only [mk.injEq]
    omega
  · rintro rfl
    rfl

/-- `date + timedelta(days=1)`; past 9999-12-31 Python raises `OverflowError`. -/
def nextDay (d : UtcDate) : Option UtcDate :=
  if h : d.day < daysInMonth d.year d.month then
    some ⟨d.year, d.month, d.day + 1, d.year_bounds, d.month_bounds, ⟨by omega, h⟩⟩
  else if h : d.month < 12 then
    some ⟨d.year, d.month + 1, 1, d.year_bounds, ⟨by omega, h⟩,
      ⟨le_rfl, by have := le_daysInMonth d.year (d.month + 1); omega⟩⟩
  else if h : d.year < 9999 then
    some ⟨d.year + 1, 1, 1, ⟨by omega, h⟩, ⟨le_rfl, by omega⟩,
      ⟨le_rfl, by have := le_daysInMonth (d.year + 1) 1; omega⟩⟩
  else none

/-- No valid date lies strictly between a date and the next one. -/
theorem nextDay_code {d e x : UtcDate} (h : d.nextDay = some e) :
    d.code < e.code ∧ (d.code < x.code → e.code ≤ x.code) := by
  have hd := d.day_le
  have hx := x.day_le
  have hdb := d.day_bounds
  have hxb := x.day_bounds
  have hdm := d.month_bounds
  have hxm := x.month_bounds
  unfold nextDay at h
  split_ifs at h with h₁ h₂ h₃
  · obtain rfl := Option.some.inj h
    simp only [code]
    omega
  · obtain rfl := Option.some.inj h
    simp only [code]
    refine ⟨by omega, fun hlt => ?_⟩
    by_contra hle
    -- A date of the same month after its last day is not a date.
    obtain ⟨hy, hm⟩ : x.year = d.year ∧ x.month = d.month := by omega
    rw [hy, hm] at hxb
    omega
  · obtain rfl := Option.some.inj h
    simp only [code]
    refine ⟨by omega, fun hlt => ?_⟩
    by_contra hle
    obtain ⟨hy, hm⟩ : x.year = d.year ∧ x.month = d.month := by omega
    rw [hy, hm] at hxb
    omega

/-- `YYYY-MM-DD`. -/
def text (d : UtcDate) : List Char :=
  digits 4 d.year ++ ('-' :: digits 2 d.month ++ ('-' :: digits 2 d.day))

@[simp] theorem text_length (d : UtcDate) : d.text.length = 10 := by simp [text]

theorem text_lt_iff (d e : UtcDate) : d.text < e.text ↔ d.code < e.code := by
  have hd := d.day_le
  have he := e.day_le
  have hdm := d.month_bounds
  have hem := e.month_bounds
  have hdy := d.year_bounds
  have hey := e.year_bounds
  rw [text, text, append_lt_append_iff (by simp), digits_lt_iff (by omega) (by omega),
    digits_inj (by omega) (by omega), List.cons_append, List.cons_append,
    List.cons_lt_cons_iff, append_lt_append_iff (by simp), digits_lt_iff (by omega) (by omega),
    digits_inj (by omega) (by omega), List.cons_lt_cons_iff,
    digits_lt_iff (by omega) (by omega)]
  simp only [Char.lt_irrefl, true_and, false_or]
  unfold code
  omega

theorem text_inj {d e : UtcDate} : d.text = e.text ↔ d = e := by
  constructor
  · intro h
    have h₁ := text_lt_iff d e
    have h₂ := text_lt_iff e d
    rw [h] at h₁ h₂
    apply code_inj.mp
    have hlt : ¬ e.text < e.text := List.lt_irrefl _
    have n₁ : ¬ d.code < e.code := fun hc => hlt (h₁.mpr hc)
    have n₂ : ¬ e.code < d.code := fun hc => hlt (h₂.mpr hc)
    omega
  · rintro rfl
    rfl

end UtcDate

/-- A timezone-aware `datetime` in UTC. -/
structure UtcDateTime where
  date : UtcDate
  hour : ℕ
  minute : ℕ
  second : ℕ
  microsecond : ℕ
  hour_lt : hour < 24
  minute_lt : minute < 60
  second_lt : second < 60
  microsecond_lt : microsecond < 1000000
  deriving DecidableEq

namespace UtcDateTime

/-- Times in the order of the clock. -/
def stamp (t : UtcDateTime) : ℕ :=
  (((t.date.code * 100 + t.hour) * 100 + t.minute) * 100 + t.second) * 1000000 + t.microsecond

theorem date_code_le {s t : UtcDateTime} (h : s.stamp ≤ t.stamp) :
    s.date.code ≤ t.date.code := by
  have h₁ := s.hour_lt
  have h₂ := s.minute_lt
  have h₃ := s.second_lt
  have h₄ := t.hour_lt
  have h₅ := t.minute_lt
  have h₆ := t.second_lt
  have h₇ := s.microsecond_lt
  have h₈ := t.microsecond_lt
  unfold stamp at h
  omega

/-- The clock shows `00:00:00`, with any fraction of the second. -/
def InFirstSecond (t : UtcDateTime) : Prop := t.hour = 0 ∧ t.minute = 0 ∧ t.second = 0

instance (t : UtcDateTime) : Decidable t.InFirstSecond := by
  unfold InFirstSecond
  infer_instance

/-- `HH:MM:SS`. -/
def timeText (t : UtcDateTime) : List Char :=
  digits 2 t.hour ++ (':' :: digits 2 t.minute ++ (':' :: digits 2 t.second))

@[simp] theorem timeText_length (t : UtcDateTime) : t.timeText.length = 8 := by simp [timeText]

/-- SQLite's `CURRENT_TIMESTAMP`: the fraction of the second is cut off. -/
def currentTimestamp (t : UtcDateTime) : String :=
  String.ofList (t.date.text ++ ' ' :: t.timeText)

/-- `datetime.isoformat()` of a UTC time. -/
def isoformat (t : UtcDateTime) : String :=
  String.ofList (t.date.text ++ 'T' :: t.timeText ++
    (if t.microsecond = 0 then [] else '.' :: digits 6 t.microsecond) ++ "+00:00".toList)

end UtcDateTime

/-- `datetime(y, m, d, tzinfo=UTC)` as SQLAlchemy binds it for SQLite. -/
def midnightText (d : UtcDate) : String :=
  String.ofList (d.text ++ ' ' :: "00:00:00.000000".toList)

/-- SQLite compares two texts byte-wise. -/
def sqlTextLt (a b : String) : Prop := a.toList < b.toList

instance (a b : String) : Decidable (sqlTextLt a b) := by
  unfold sqlTextLt
  infer_instance

/-- No time of day comes before the zeros, and the zeros alone equal the first second. -/
theorem timeText_lt_zeros_iff (t : UtcDateTime) :
    t.timeText < "00:00:00.000000".toList ↔ t.InFirstSecond := by
  have hh := t.hour_lt
  have hm := t.minute_lt
  have hs := t.second_lt
  have hz : "00:00:00.000000".toList =
      digits 2 0 ++ ((':' :: digits 2 0) ++ ((':' :: digits 2 0) ++ ".000000".toList)) := by
    decide
  rw [hz, UtcDateTime.timeText, append_lt_append_iff (by simp),
    digits_lt_iff (by omega) (by omega), digits_inj (by omega) (by omega),
    append_lt_append_iff (by simp), List.cons_lt_cons_iff,
    digits_lt_iff (by omega) (by omega), List.cons.injEq, digits_inj (by omega) (by omega)]
  have hlast : ':' :: digits 2 t.second < (':' :: digits 2 0) ++ ".000000".toList ↔
      t.second = 0 := by
    rw [List.cons_append, List.cons_lt_cons_iff, ← List.append_nil (digits 2 t.second),
      append_lt_append_iff (by simp), digits_lt_iff (by omega) (by omega),
      digits_inj (by omega) (by omega)]
    simp only [Char.lt_irrefl, true_and, false_or, Nat.not_lt_zero, and_iff_left_iff_imp]
    intro _
    decide
  rw [hlast]
  simp only [Nat.not_lt_zero, Char.lt_irrefl, true_and, false_or, UtcDateTime.InFirstSecond]

/-- The stored text of a time is below the midnight bound of a date on earlier dates and in
the first second of that very date, whose text is a proper prefix of the bound. -/
theorem currentTimestamp_lt_midnight_iff (t : UtcDateTime) (d : UtcDate) :
    sqlTextLt t.currentTimestamp (midnightText d) ↔
      t.date.code < d.code ∨ t.date = d ∧ t.InFirstSecond := by
  unfold sqlTextLt UtcDateTime.currentTimestamp midnightText
  rw [String.toList_ofList, String.toList_ofList, append_lt_append_iff (by simp),
    UtcDate.text_lt_iff, UtcDate.text_inj, List.cons_lt_cons_iff, timeText_lt_zeros_iff]
  simp only [Char.lt_irrefl, true_and, false_or]

def paperNoon : UtcDateTime where
  date := ⟨2025, 3, 4, by decide, by decide, by decide⟩
  hour := 12
  minute := 0
  second := 0
  microsecond := 0
  hour_lt := by decide
  minute_lt := by decide
  second_lt := by decide
  microsecond_lt := by decide

end XSocialTrader
