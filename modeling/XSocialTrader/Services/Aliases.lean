import XSocialTrader.Core.Text
import Mathlib.Data.List.Dedup
import Mathlib.Data.List.Sort
import Mathlib.Data.String.Basic

/-! `resolve_tickers`: mentions to a sorted list of tickers without duplicates. -/
namespace XSocialTrader

structure AliasRow where
  mention : String
  ticker : String
  priority : ℤ
  deriving DecidableEq, Repr

/-- `mention.lstrip("$").strip()`. -/
def bareMention (mention : String) : String :=
  String.ofList (stripChars (mention.toList.dropWhile (· == '$')))

def normalizeMention (text : UnicodeText) (mention : String) : String :=
  text.lower (bareMention mention)

/-- `_TICKER_RE.fullmatch`. -/
def isTickerText (s : String) : Bool :=
  decide (1 ≤ s.length ∧ s.length ≤ 5) && s.toList.all fun c => decide ('A' ≤ c ∧ c ≤ 'Z')

def looksLikeTicker (text : UnicodeText) (mention : String) : Bool :=
  isTickerText (text.upper (bareMention mention))

/-- `(priority, -ord(ticker[0]) if ticker else 0)`. -/
def aliasRank (priority : ℤ) (ticker : String) : ℤ × ℤ :=
  (priority, match ticker.toList with
    | [] => 0
    | c :: _ => -(c.toNat : ℤ))

/-- Tuples compare from the left. -/
def aliasRankLt (a b : ℤ × ℤ) : Bool :=
  decide (a.1 < b.1) || (decide (a.1 = b.1) && decide (a.2 < b.2))

/-- One row of the loop that fills `grouped`; the newest entry of a key comes first. -/
def groupAlias (text : UnicodeText) (grouped : List (String × ℤ × String)) (row : AliasRow) :
    List (String × ℤ × String) :=
  let key := normalizeMention text row.mention
  match grouped.lookup key with
  | none => (key, row.priority, row.ticker) :: grouped
  | some existing =>
    if aliasRankLt (aliasRank existing.1 existing.2) (aliasRank row.priority row.ticker) then
      (key, row.priority, row.ticker) :: grouped
    else grouped

/-- SQLite's `lower()` folds ASCII letters only. -/
def sqlLower (s : String) : String := s.map Char.toLower

/-- What one mention adds to `resolved`. -/
def resolveMention (text : UnicodeText) (grouped : List (String × ℤ × String)) (raw : String) :
    Option String :=
  match grouped.lookup (normalizeMention text raw) with
  | some (_, ticker) => some (text.upper ticker)
  | none => if looksLikeTicker text raw then some (text.upper (bareMention raw)) else none

def resolveTickers (text : UnicodeText) (aliases : List AliasRow) (mentions : List String) :
    List String :=
  let keys := (mentions.filter fun m => pyStrip m != "").map (normalizeMention text)
  if keys = [] then []
  else
    let rows := aliases.filter fun row => keys.contains (sqlLower row.mention)
    let grouped := rows.foldl (groupAlias text) []
    (mentions.filterMap (resolveMention text grouped)).dedup.insertionSort (· ≤ ·)

theorem resolveTickers_nodup (text : UnicodeText) (aliases : List AliasRow)
    (mentions : List String) : (resolveTickers text aliases mentions).Nodup := by
  unfold resolveTickers
  dsimp only
  split_ifs
  · exact List.nodup_nil
  · exact (List.perm_insertionSort (· ≤ ·) _).nodup_iff.mpr (List.nodup_dedup _)

theorem resolveTickers_sorted (text : UnicodeText) (aliases : List AliasRow)
    (mentions : List String) : (resolveTickers text aliases mentions).Pairwise (· ≤ ·) := by
  unfold resolveTickers
  dsimp only
  split_ifs
  · exact List.Pairwise.nil
  · exact List.pairwise_insertionSort (· ≤ ·) _

end XSocialTrader
