import XSocialTrader.Services.AliasForms

/-! Resolving two lists of mentions at once. All mentions share one select and one grouping, so a
row that one mention fetches can end up under the key of another. -/
namespace XSocialTrader

variable {text : UnicodeText}

section Lists

theorem mem_aliasKeys {mentions : List String} {key : String} :
    key ∈ aliasKeys text mentions ↔
      ∃ m ∈ mentions, pyStrip m ≠ "" ∧ normalizeMention text m = key := by
  simp [aliasKeys, and_assoc]

theorem mem_fetchedAliases {rows : List AliasRow} {mentions : List String} {row : AliasRow} :
    row ∈ fetchedAliases text rows mentions ↔ row ∈ rows ∧
      ∃ m ∈ mentions, pyStrip m ≠ "" ∧ normalizeMention text m = sqlLower row.mention := by
  rw [fetchedAliases, List.mem_filter, List.contains_iff_mem, mem_aliasKeys]

theorem mem_resolveTickers {rows : List AliasRow} {mentions : List String} {ticker : String} :
    ticker ∈ resolveTickers text rows mentions ↔ (∃ m ∈ mentions, pyStrip m ≠ "") ∧
      ∃ m ∈ mentions, resolveMention text
        (groupedAliases text (fetchedAliases text rows mentions)) m = some ticker := by
  rw [resolveTickers_eq]
  split_ifs with hkeys
  · have hblank : ¬ ∃ m ∈ mentions, pyStrip m ≠ "" := by
      rintro ⟨m, hm, hne⟩
      have hmem : normalizeMention text m ∈ aliasKeys text mentions :=
        mem_aliasKeys.mpr ⟨m, hm, hne, rfl⟩
      rw [hkeys] at hmem
      exact List.not_mem_nil hmem
    simp [hblank]
  · obtain ⟨key, hkey⟩ := List.exists_mem_of_ne_nil _ hkeys
    obtain ⟨m, hm, hne, -⟩ := mem_aliasKeys.mp hkey
    rw [List.mem_insertionSort, List.mem_dedup, List.mem_filterMap]
    exact ⟨fun h => ⟨⟨m, hm, hne⟩, h⟩, fun h => h.2⟩

/-- Sorted lists without repetitions are known by their members. -/
theorem sorted_ext {l l' : List String} (hs : l.Pairwise (· ≤ ·)) (hs' : l'.Pairwise (· ≤ ·))
    (hn : l.Nodup) (hn' : l'.Nodup) (h : ∀ t, t ∈ l ↔ t ∈ l') : l = l' :=
  ((List.perm_ext_iff_of_nodup hn hn').mpr h).eq_of_pairwise
    (fun _ _ _ _ hle hle' => le_antisymm hle hle') hs hs'

/-- Neither the order of the mentions nor a repetition changes the result. -/
theorem resolveTickers_congr (rows : List AliasRow) {mentions mentions' : List String}
    (h : ∀ m, m ∈ mentions ↔ m ∈ mentions') :
    resolveTickers text rows mentions = resolveTickers text rows mentions' := by
  have hfetched : fetchedAliases text rows mentions = fetchedAliases text rows mentions' := by
    apply List.filter_congr
    intro row _
    rw [Bool.eq_iff_iff, List.contains_iff_mem, List.contains_iff_mem, mem_aliasKeys,
      mem_aliasKeys]
    simp only [h]
  apply sorted_ext (resolveTickers_sorted _ _ _) (resolveTickers_sorted _ _ _)
    (resolveTickers_nodup _ _ _) (resolveTickers_nodup _ _ _)
  intro ticker
  rw [mem_resolveTickers, mem_resolveTickers, hfetched]
  simp only [h]

end Lists

section Separate

/-- Whatever tickers and priorities the rows have, the result for both lists is the union of the
results, and each mention resolves as it does by itself. -/
def ResolvesSeparately (text : UnicodeText) (column a b : List String) : Prop :=
  ∀ table : AliasTable, table.rows.map AliasRow.mention = column →
    resolveTickers text table.rows (a ++ b) = (resolveTickers text table.rows a ++
      resolveTickers text table.rows b).dedup.insertionSort (· ≤ ·) ∧
    (∀ m ∈ a ++ b, (resolveMention text (groupedAliases text
      (fetchedAliases text table.rows (a ++ b))) m).toList = resolveTickers text table.rows [m]) ∧
    ∀ l, (∀ m, m ∈ l ↔ m ∈ a ++ b) →
      resolveTickers text table.rows l = resolveTickers text table.rows (a ++ b)

/-- A stored mention that one mention fetches and that is grouped under the key of another is
fetched by that other one itself. -/
def NoForeignRows (text : UnicodeText) (column mentions : List String) : Prop :=
  ∀ s ∈ column, ∀ m ∈ mentions, ∀ m' ∈ mentions, pyStrip m' ≠ "" →
    sqlLower s = normalizeMention text m' → normalizeMention text s = normalizeMention text m →
    pyStrip m ≠ "" ∧ sqlLower s = normalizeMention text m

variable {rows : List AliasRow} {mentions : List String}

/-- Without foreign rows, the rows that compete for a mention are those it fetches itself. -/
theorem NoForeignRows.entriesOf_eq
    (h : NoForeignRows text (rows.map AliasRow.mention) mentions) {m : String}
    (hm : m ∈ mentions) :
    entriesOf text (fetchedAliases text rows mentions) (normalizeMention text m) =
      entriesOf text (fetchedAliases text rows [m]) (normalizeMention text m) := by
  unfold entriesOf fetchedAliases
  rw [List.filter_filter, List.filter_filter]
  apply congrArg (List.map AliasRow.entry)
  apply List.filter_congr
  intro row hrow
  rw [Bool.eq_iff_iff]
  simp only [Bool.and_eq_true, decide_eq_true_eq, List.contains_iff_mem, mem_aliasKeys]
  apply and_congr_right
  intro hkey
  constructor
  · rintro ⟨m', hm', hne, heq⟩
    have hmem : row.mention ∈ rows.map AliasRow.mention := List.mem_map_of_mem hrow
    obtain ⟨hblank, hlower⟩ := h row.mention hmem m hm m' hm' hne heq.symm hkey
    exact ⟨m, List.mem_singleton_self m, hblank, hlower.symm⟩
  · rintro ⟨m', hm', hne, heq⟩
    rw [List.mem_singleton.mp hm'] at hne heq
    exact ⟨m, hm, hne, heq⟩

/-- A blank mention is no ticker. -/
theorem looksLikeTicker_blank (laws : CaseLaws text) {m : String} (h : pyStrip m = "") :
    looksLikeTicker text m = false := by
  have hstrip : Strip.strip isPySpace m.toList = [] := by
    have hlist := congrArg String.toList h
    rwa [pyStrip, String.toList_ofList] at hlist
  have hbare : bareMention m = "" := by
    apply String.toList_inj.mp
    rw [bareMention_toList, Strip.bare_of_strip isDollar hstrip]
    rfl
  rw [looksLikeTicker, hbare, laws.upper_ascii "" (by simp [IsAscii])]
  decide +kernel

/-- Without foreign rows a mention of a list resolves as it does by itself. -/
theorem NoForeignRows.resolveMention_eq (laws : CaseLaws text)
    (h : NoForeignRows text (rows.map AliasRow.mention) mentions) {m : String}
    (hm : m ∈ mentions) : (resolveMention text (groupedAliases text
      (fetchedAliases text rows mentions)) m).toList = resolveTickers text rows [m] := by
  have hmention : resolveMention text (groupedAliases text (fetchedAliases text rows mentions)) m =
      resolveMention text (groupedAliases text (fetchedAliases text rows [m])) m := by
    simp only [resolveMention, groupedAliases_lookup, h.entriesOf_eq hm]
  rw [hmention, resolveTickers_singleton]
  split_ifs with hblank
  · have hnone : fetchedAliases text rows [m] = [] := by
      simp [fetchedAliases, aliasKeys, hblank]
    rw [hnone, resolveMention]
    simp [groupedAliases, looksLikeTicker_blank laws hblank]
  · rfl

/-- Without foreign rows a list resolves to what its mentions resolve to. -/
theorem NoForeignRows.mem_resolveTickers_iff (laws : CaseLaws text)
    (h : NoForeignRows text (rows.map AliasRow.mention) mentions) (ticker : String) :
    ticker ∈ resolveTickers text rows mentions ↔
      ∃ m ∈ mentions, ticker ∈ resolveTickers text rows [m] := by
  rw [mem_resolveTickers]
  constructor
  · rintro ⟨-, m, hm, hsome⟩
    refine ⟨m, hm, ?_⟩
    rw [← h.resolveMention_eq laws hm, hsome]
    exact List.mem_singleton_self ticker
  · rintro ⟨m, hm, hmem⟩
    have hblank : pyStrip m ≠ "" := by
      intro hblank
      rw [resolveTickers_singleton, if_pos hblank] at hmem
      exact List.not_mem_nil hmem
    rw [← h.resolveMention_eq laws hm, Option.mem_toList] at hmem
    exact ⟨⟨m, hm, hblank⟩, m, hm, hmem⟩

theorem NoForeignRows.subset {column mentions' : List String}
    (h : NoForeignRows text column mentions) (hsub : ∀ m ∈ mentions', m ∈ mentions) :
    NoForeignRows text column mentions' :=
  fun s hs m hm m' hm' => h s hs m (hsub m hm) m' (hsub m' hm')

/-- There are no foreign rows where every row is stored as the key it is grouped under. -/
theorem NoForeignRows.of_stored {column : List String}
    (hstored : ∀ s ∈ column, normalizeMention text s = sqlLower s)
    (hblank : ∀ m ∈ mentions, pyStrip m ≠ "") : NoForeignRows text column mentions := by
  intro s hs m hm m' hm' hne hlower hkey
  exact ⟨hblank m hm, (hstored s hs).symm.trans hkey⟩

/-- A table in which one row has the top priority. -/
def raised (column : List String) (j : ℕ) : AliasTable :=
  labelled (column.mapIdx fun i s => (s, if i = j then 1 else 0))

theorem raised_mentions (column : List String) (j : ℕ) :
    (raised column j).rows.map AliasRow.mention = column := by
  apply List.ext_getElem
  · simp [raised, labelled]
  · intro i hi hi'
    simp [raised, labelled]

/-- The raised row wins every key that it is grouped under. -/
theorem raised_lookup {column : List String} {j : ℕ} (hj : j < column.length)
    (hfetched : ⟨column[j], longTicker j, 1⟩ ∈
      fetchedAliases text (raised column j).rows mentions) :
    (groupedAliases text (fetchedAliases text (raised column j).rows mentions)).lookup
      (normalizeMention text column[j]) = some (1, longTicker j) := by
  rw [groupedAliases_lookup]
  have hentry : (1, longTicker j) ∈ entriesOf text
      (fetchedAliases text (raised column j).rows mentions) (normalizeMention text column[j]) :=
    mem_entriesOf.mpr ⟨_, hfetched, rfl, rfl⟩
  cases hmax : (entriesOf text (fetchedAliases text (raised column j).rows mentions)
      (normalizeMention text column[j])).argmax entryRank with
  | none =>
    rw [List.argmax_eq_none] at hmax
    rw [hmax] at hentry
    exact absurd hentry List.not_mem_nil
  | some best =>
    obtain ⟨row, hrow, -, rfl⟩ := mem_entriesOf.mp (List.argmax_mem hmax)
    have hpriority := priority_le_of_rank_le (List.le_of_mem_argmax hentry hmax)
    obtain ⟨i, hi, rfl⟩ := mem_labelled.mp (mem_fetchedAliases.mp hrow).1
    simp only [AliasRow.entry, List.getElem_mapIdx] at hpriority
    split_ifs at hpriority with hij
    · simp [AliasRow.entry, hij]
    · omega

/-- Lists of mentions resolve separately, whatever tickers and priorities the rows have, exactly
if no mention fetches a row that is grouped under a mention that does not fetch it. -/
theorem resolvesSeparately_iff (laws : CaseLaws text) (column a b : List String) :
    ResolvesSeparately text column a b ↔ NoForeignRows text column (a ++ b) := by
  constructor
  · intro h s hs m hm m' hm' hne hlower hkey
    obtain ⟨j, hj, rfl⟩ := List.getElem_of_mem hs
    have hrow : ⟨column[j], longTicker j, 1⟩ ∈ (raised column j).rows :=
      mem_labelled.mpr ⟨j, by simpa using hj, by simp⟩
    have hfetched : ⟨column[j], longTicker j, 1⟩ ∈
        fetchedAliases text (raised column j).rows (a ++ b) :=
      mem_fetchedAliases.mpr ⟨hrow, m', hm', hne, hlower.symm⟩
    have halone := (h (raised column j) (raised_mentions column j)).2.1 m hm
    rw [resolveMention, ← hkey, raised_lookup hj hfetched] at halone
    have hresolve : resolveTickers text (raised column j).rows [m] = [longTicker j] := by
      rw [← halone]
      simp [upper_longTicker laws]
    obtain ⟨-, hblank, hown⟩ := mem_fetchedAliases_singleton.mp
      (labelled_resolved laws hrow hresolve)
    exact ⟨hblank, hown⟩
  · rintro h table rfl
    refine ⟨?_, fun m hm => h.resolveMention_eq laws hm, fun l hl => resolveTickers_congr _ hl⟩
    have ha := h.subset fun m hm => List.mem_append_left b hm
    have hb := h.subset fun m hm => List.mem_append_right a hm
    apply sorted_ext (resolveTickers_sorted _ _ _) (List.pairwise_insertionSort _ _)
      (resolveTickers_nodup _ _ _)
      ((List.perm_insertionSort (· ≤ ·) _).nodup_iff.mpr (List.nodup_dedup _))
    intro ticker
    rw [List.mem_insertionSort, List.mem_dedup, List.mem_append,
      h.mem_resolveTickers_iff laws, ha.mem_resolveTickers_iff laws, hb.mem_resolveTickers_iff laws]
    simp only [List.mem_append, or_and_right, exists_or]

/-- Rows without `$` are grouped under the key that fetched them. -/
theorem resolvesSeparately_tesla :
    ResolvesSeparately asciiText ["tesla", "apple"] ["Tesla"] ["$AAPL", "Apple"] := by
  apply (resolvesSeparately_iff asciiText_caseLaws _ _ _).mpr
  have htesla : normalizeMention asciiText "tesla" = "tesla" := by decide +kernel
  have happle : normalizeMention asciiText "apple" = "apple" := by decide +kernel
  have htesla' : sqlLower "tesla" = "tesla" := by decide +kernel
  have happle' : sqlLower "apple" = "apple" := by decide +kernel
  apply NoForeignRows.of_stored
  · simp [htesla, happle, htesla', happle']
  · decide +kernel

/-- ` $TSLA` fetches the row of `$tsla`, which then answers the mention `tsla`. -/
theorem foreign_row_answers : ¬ ∀ (text : UnicodeText) (column a b : List String),
    CaseLaws text → ResolvesSeparately text column a b := by
  intro h
  let table : AliasTable := ⟨[⟨"$tsla", "TSLAX", 20⟩], List.nodup_singleton _⟩
  have htogether := (h asciiText ["$tsla"] ["tsla"] [" $TSLA"] asciiText_caseLaws table rfl).2.1
    "tsla" (List.mem_cons_self ..)
  have hfetched : fetchedAliases asciiText table.rows ["tsla", " $TSLA"] = table.rows := by
    apply List.filter_eq_self.mpr
    intro row hrow
    rw [List.contains_iff_mem, mem_aliasKeys]
    have hkey : normalizeMention asciiText " $TSLA" = "$tsla" := by decide +kernel
    have hlower : sqlLower "$tsla" = "$tsla" := by decide +kernel
    rw [List.mem_singleton.mp hrow, hlower]
    exact ⟨" $TSLA", by simp, by decide +kernel, hkey⟩
  have hanswer : resolveMention asciiText (groupedAliases asciiText table.rows) "tsla" =
      some "TSLAX" := by decide +kernel
  have halone : resolveTickers asciiText table.rows ["tsla"] = ["TSLA"] := by decide +kernel
  rw [halone, List.singleton_append, hfetched, hanswer] at htogether
  exact absurd htogether (by decide +kernel)

end Separate

end XSocialTrader
