import XSocialTrader.Lib.KeyedBest
import XSocialTrader.Services.Aliases
import Mathlib.Data.Int.ConditionallyCompleteOrder
import Mathlib.Data.Prod.Lex
import Mathlib.Order.ConditionallyCompleteLattice.Basic

/-! The row that wins a mention, and what the order of the rows has to do with it. The rank that
decides looks at the first letter of a ticker only. -/
namespace XSocialTrader

variable {text : UnicodeText}

section Grouping

/-- `keys`. -/
def aliasKeys (text : UnicodeText) (mentions : List String) : List String :=
  (mentions.filter fun m => pyStrip m != "").map (normalizeMention text)

/-- The rows that the select returns. -/
def fetchedAliases (text : UnicodeText) (aliases : List AliasRow) (mentions : List String) :
    List AliasRow :=
  aliases.filter fun row => (aliasKeys text mentions).contains (sqlLower row.mention)

/-- `grouped` after the loop. -/
def groupedAliases (text : UnicodeText) (rows : List AliasRow) : List (String × ℤ × String) :=
  rows.foldl (groupAlias text) []

theorem resolveTickers_eq (text : UnicodeText) (aliases : List AliasRow)
    (mentions : List String) : resolveTickers text aliases mentions =
      if aliasKeys text mentions = [] then []
      else (mentions.filterMap (resolveMention text (groupedAliases text
        (fetchedAliases text aliases mentions)))).dedup.insertionSort (· ≤ ·) := rfl

/-- The rank of an entry of `grouped`; tuples compare from the left. -/
def entryRank (entry : ℤ × String) : ℤ ×ₗ ℤ := toLex (aliasRank entry.1 entry.2)

def AliasRow.entry (row : AliasRow) : ℤ × String := (row.priority, row.ticker)

theorem aliasRankLt_iff (a b : ℤ × String) :
    aliasRankLt (aliasRank a.1 a.2) (aliasRank b.1 b.2) = true ↔ entryRank a < entryRank b := by
  rw [aliasRankLt, entryRank, entryRank, Prod.Lex.toLex_lt_toLex]
  simp

theorem groupAlias_eq (grouped : List (String × ℤ × String)) (row : AliasRow) :
    groupAlias text grouped row =
      KeyedBest.insert entryRank grouped (normalizeMention text row.mention, row.entry) := by
  unfold groupAlias KeyedBest.insert
  dsimp only
  cases grouped.lookup (normalizeMention text row.mention) with
  | none => rfl
  | some existing =>
    have hrank := aliasRankLt_iff existing row.entry
    by_cases h : entryRank existing < entryRank row.entry
    · exact (if_pos (hrank.mpr h)).trans (if_pos h).symm
    · exact (if_neg (hrank.not.mpr h)).trans (if_neg h).symm

/-- The entries that compete for a key, in the order of the rows. -/
def entriesOf (text : UnicodeText) (rows : List AliasRow) (key : String) : List (ℤ × String) :=
  (rows.filter fun row => normalizeMention text row.mention = key).map AliasRow.entry

theorem mem_entriesOf {rows : List AliasRow} {key : String} {entry : ℤ × String} :
    entry ∈ entriesOf text rows key ↔ ∃ row ∈ rows,
      normalizeMention text row.mention = key ∧ row.entry = entry := by
  simp [entriesOf, and_assoc]

/-- A key gets the first of its rows of the highest rank. -/
theorem groupedAliases_lookup (rows : List AliasRow) (key : String) :
    (groupedAliases text rows).lookup key = (entriesOf text rows key).argmax entryRank := by
  have hfold : groupedAliases text rows = (rows.map fun row =>
      (normalizeMention text row.mention, row.entry)).foldl (KeyedBest.insert entryRank) [] := by
    rw [groupedAliases, List.foldl_map]
    congr 1
    funext grouped row
    exact groupAlias_eq grouped row
  rw [hfold, KeyedBest.lookup_foldl_insert, entriesOf, KeyedBest.valuesOf, List.filter_map,
    List.map_map]
  rfl

end Grouping

section Order

/-- Whatever order the rows come in, the result is the same and every mention is won by a row of
the top priority with the least ticker among those. -/
def OrderIndependent (text : UnicodeText) (rows : List AliasRow) (mentions : List String) : Prop :=
  ∀ rows' : List AliasRow, rows'.Perm rows →
    resolveTickers text rows' mentions = resolveTickers text rows mentions ∧
    ∀ key priority ticker, (groupedAliases text (fetchedAliases text rows' mentions)).lookup key =
        some (priority, ticker) →
      (∃ row ∈ fetchedAliases text rows mentions, normalizeMention text row.mention = key ∧
        row.priority = priority ∧ row.ticker = ticker) ∧
      ∀ row ∈ fetchedAliases text rows mentions, normalizeMention text row.mention = key →
        row.priority ≤ priority ∧ (row.priority = priority → ticker ≤ row.ticker)

/-- A ticker that ranks before another at one priority is less, and rows of one rank have one
priority. -/
theorem ticker_lt_of_rank_lt {p : ℤ} {s t : String} (h : entryRank (p, s) < entryRank (p, t)) :
    t < s := by
  simp only [entryRank, Prod.Lex.toLex_lt_toLex, aliasRank, lt_irrefl, true_and, false_or] at h
  rw [String.lt_iff_toList_lt]
  cases ht : t.toList with
  | nil =>
    cases hs : s.toList with
    | nil => simp [hs, ht] at h
    | cons c cs => exact List.nil_lt_cons c cs
  | cons d ds =>
    cases hs : s.toList with
    | nil => simp [hs, ht] at h; omega
    | cons c cs =>
      simp only [hs, ht] at h
      have hletter : d.toNat < c.toNat := by omega
      exact List.cons_lt_cons_iff.mpr (Or.inl hletter)

theorem priority_le_of_rank_le {a b : ℤ × String} (h : entryRank a ≤ entryRank b) : a.1 ≤ b.1 := by
  rw [entryRank, entryRank, Prod.Lex.toLex_le_toLex] at h
  rcases h with hlt | ⟨heq, -⟩
  · exact le_of_lt hlt
  · exact le_of_eq heq

/-- The rows that are returned do not tie: those of one key that have the highest rank name one
ticker. -/
def NoTies (text : UnicodeText) (rows : List AliasRow) (mentions : List String) : Prop :=
  ∀ r ∈ fetchedAliases text rows mentions, ∀ s ∈ fetchedAliases text rows mentions,
    normalizeMention text r.mention = normalizeMention text s.mention →
    (∀ x ∈ fetchedAliases text rows mentions,
      normalizeMention text x.mention = normalizeMention text r.mention →
        entryRank x.entry ≤ entryRank r.entry) →
    entryRank r.entry = entryRank s.entry → r.ticker = s.ticker

variable {rows : List AliasRow} {mentions : List String}

theorem NoTies.entries (h : NoTies text rows mentions) {key : String} {b c : ℤ × String}
    (hb : b ∈ entriesOf text (fetchedAliases text rows mentions) key)
    (hc : c ∈ entriesOf text (fetchedAliases text rows mentions) key)
    (htop : ∀ d ∈ entriesOf text (fetchedAliases text rows mentions) key,
      entryRank d ≤ entryRank b) (hrank : entryRank b = entryRank c) : b = c := by
  obtain ⟨r, hr, rfl, rfl⟩ := mem_entriesOf.mp hb
  obtain ⟨s, hs, hkey, rfl⟩ := mem_entriesOf.mp hc
  have hticker := h r hr s hs hkey.symm
    (fun x hx hxkey => htop _ (mem_entriesOf.mpr ⟨x, hx, hxkey, rfl⟩)) hrank
  have hpriority := le_antisymm (priority_le_of_rank_le hrank.le) (priority_le_of_rank_le hrank.ge)
  exact Prod.ext hpriority hticker

/-- Without ties every order of the rows groups them alike. -/
theorem NoTies.lookup_eq (h : NoTies text rows mentions) {rows' : List AliasRow}
    (hperm : rows'.Perm rows) (key : String) :
    (groupedAliases text (fetchedAliases text rows' mentions)).lookup key =
      (groupedAliases text (fetchedAliases text rows mentions)).lookup key := by
  rw [groupedAliases_lookup, groupedAliases_lookup]
  apply KeyedBest.argmax_eq_of_perm
  · exact ((hperm.filter _).filter _).map _
  · exact fun b hb c hc htop hrank => h.entries hb hc htop hrank

/-- With a row first that nothing outranks, its mention is won by that row. -/
theorem lookup_cons_self {r : AliasRow} (hr : r ∈ fetchedAliases text rows mentions)
    (htop : ∀ x ∈ fetchedAliases text rows mentions,
      normalizeMention text x.mention = normalizeMention text r.mention →
        entryRank x.entry ≤ entryRank r.entry) :
    (groupedAliases text (fetchedAliases text (r :: rows.erase r) mentions)).lookup
      (normalizeMention text r.mention) = some r.entry := by
  have hkey := (List.mem_filter.mp hr).2
  have hcons : fetchedAliases text (r :: rows.erase r) mentions =
      r :: fetchedAliases text (rows.erase r) mentions := List.filter_cons_of_pos hkey
  have hentries : entriesOf text (r :: fetchedAliases text (rows.erase r) mentions)
      (normalizeMention text r.mention) = r.entry ::
        entriesOf text (fetchedAliases text (rows.erase r) mentions)
          (normalizeMention text r.mention) := by
    simp [entriesOf]
  rw [groupedAliases_lookup, hcons, hentries]
  apply KeyedBest.argmax_cons_self
  intro c hc
  obtain ⟨x, hx, hxkey, rfl⟩ := mem_entriesOf.mp hc
  obtain ⟨hmem, hfetched⟩ := List.mem_filter.mp hx
  exact htop x (List.mem_filter.mpr ⟨List.mem_of_mem_erase hmem, hfetched⟩) hxkey

theorem OrderIndependent.noTies (h : OrderIndependent text rows mentions) :
    NoTies text rows mentions := by
  intro r hr s hs hkey htop hrank
  -- whichever of the two comes first wins, so each is at most the other
  have hle : ∀ r ∈ fetchedAliases text rows mentions, ∀ s ∈ fetchedAliases text rows mentions,
      normalizeMention text r.mention = normalizeMention text s.mention →
      (∀ x ∈ fetchedAliases text rows mentions,
        normalizeMention text x.mention = normalizeMention text r.mention →
          entryRank x.entry ≤ entryRank r.entry) →
      entryRank r.entry = entryRank s.entry → r.ticker ≤ s.ticker := by
    intro r hr s hs hkey htop hrank
    have hperm : (r :: rows.erase r).Perm rows :=
      (List.perm_cons_erase (List.mem_filter.mp hr).1).symm
    have hbest := ((h _ hperm).2 _ _ _ (lookup_cons_self hr htop)).2 s hs hkey.symm
    exact hbest.2 (le_antisymm hbest.1 (priority_le_of_rank_le hrank.le))
  apply le_antisymm (hle r hr s hs hkey htop hrank)
  refine hle s hs r hr hkey.symm (fun x hx hxkey => ?_) hrank.symm
  exact (htop x hx (hxkey.trans hkey.symm)).trans hrank.le

/-- The order of the rows does not matter, and the least ticker of the top priority wins, exactly
if no two returned rows tie. -/
theorem orderIndependent_iff (text : UnicodeText) (rows : List AliasRow)
    (mentions : List String) :
    OrderIndependent text rows mentions ↔ NoTies text rows mentions := by
  constructor
  · exact OrderIndependent.noTies
  · intro h rows' hperm
    have hresolve : resolveMention text (groupedAliases text (fetchedAliases text rows' mentions)) =
        resolveMention text (groupedAliases text (fetchedAliases text rows mentions)) := by
      funext raw
      simp only [resolveMention, h.lookup_eq hperm]
    refine ⟨by rw [resolveTickers_eq, resolveTickers_eq, hresolve], fun key p t hlookup => ?_⟩
    rw [h.lookup_eq hperm, groupedAliases_lookup] at hlookup
    obtain ⟨best, hbest, hkey, hentry⟩ := mem_entriesOf.mp (List.argmax_mem hlookup)
    obtain ⟨rfl, rfl⟩ := Prod.mk.inj hentry
    have htop : ∀ row ∈ fetchedAliases text rows mentions,
        normalizeMention text row.mention = key → entryRank row.entry ≤ entryRank best.entry :=
      fun row hrow hrowkey => List.le_of_mem_argmax
        (mem_entriesOf.mpr ⟨row, hrow, hrowkey, rfl⟩) hlookup
    refine ⟨⟨best, hbest, hkey, rfl, rfl⟩, fun row hrow hrowkey => ?_⟩
    refine ⟨priority_le_of_rank_le (htop row hrow hrowkey), fun hpriority => ?_⟩
    rcases (htop row hrow hrowkey).eq_or_lt with hrank | hrank
    · exact (h best hbest row hrow (hkey.trans hrowkey.symm)
        (fun x hx hxkey => htop x hx (hxkey.trans hkey)) hrank.symm).le
    · rw [AliasRow.entry, AliasRow.entry, hpriority] at hrank
      exact (ticker_lt_of_rank_lt hrank).le

/-- Two tickers that share their first letter tie, and the first row wins. -/
theorem tie_depends_on_order : ¬ ∀ (text : UnicodeText) (rows : List AliasRow)
    (mentions : List String), OrderIndependent text rows mentions := by
  intro h
  let tsla : AliasRow := ⟨"tesla", "TSLA", 10⟩
  let tslq : AliasRow := ⟨"tesla", "TSLQ", 10⟩
  have hties := (h asciiText [tsla, tslq] ["Tesla"]).noTies
  have hkey : normalizeMention asciiText "Tesla" = "tesla" := by decide +kernel
  have hlower : sqlLower "tesla" = "tesla" := by decide +kernel
  have hblank : pyStrip "Tesla" ≠ "" := by decide +kernel
  have hfetched : fetchedAliases asciiText [tsla, tslq] ["Tesla"] = [tsla, tslq] := by
    simp [fetchedAliases, aliasKeys, tsla, tslq, hblank, hkey, hlower]
  have hrank : entryRank tsla.entry = entryRank tslq.entry := by
    decide +kernel
  unfold NoTies at hties
  rw [hfetched] at hties
  have hsame := hties tsla (by simp) tslq (by simp) rfl
    (fun x hx _ => by
      rcases List.mem_pair.mp hx with rfl | rfl
      · exact le_rfl
      · exact hrank.ge) hrank
  exact absurd hsame (by decide)

end Order

end XSocialTrader
