import XSocialTrader.Lib.Strip
import XSocialTrader.Services.AliasOrder

/-! Three spellings of one mention: the select compares `lower(mention)` of a row with the
normalised mention, the grouping normalises the row again, and the lookup normalises the mention.
They agree on mentions that are stored as they are looked up, and on no others. -/
namespace XSocialTrader

section Forms

def IsAscii (s : String) : Prop := ∀ c ∈ s.toList, c.toNat < 128

instance (s : String) : Decidable (IsAscii s) :=
  List.decidableBAll (fun c : Char => c.toNat < 128) s.toList

def isDollar (c : Char) : Bool := c == '$'

/-- Without surrounding whitespace and leading `$`, however they are mixed. -/
def trimMention (mention : String) : String :=
  String.ofList (Strip.trim isPySpace isDollar mention.toList)

/-- The form of a mention that ignores whitespace around it, leading `$` and case. -/
def canonicalMention (text : UnicodeText) (mention : String) : String :=
  text.lower (trimMention mention)

/-- What the case mappings do to ASCII letters, and that `$` and whitespace have no case. -/
structure CaseLaws (text : UnicodeText) : Prop where
  lower_ascii : ∀ s, IsAscii s → text.lower s = s.map Char.toLower
  upper_ascii : ∀ s, IsAscii s → text.upper s = s.map Char.toUpper
  lower_dollar : ∀ s, text.lower ("$" ++ s) = "$" ++ text.lower s
  upper_dollar : ∀ s, text.upper ("$" ++ s) = "$" ++ text.upper s
  lower_bare : ∀ s, text.lower (bareMention s) = bareMention (text.lower s)

theorem bareMention_toList (s : String) :
    (bareMention s).toList = Strip.bare isPySpace isDollar s.toList := by
  rw [bareMention, String.toList_ofList]
  rfl

theorem trimMention_toList (s : String) :
    (trimMention s).toList = Strip.trim isPySpace isDollar s.toList := String.toList_ofList

theorem head_not_dollar {m : String} (h : (bareMention m).toList.head? ≠ some '$') (c : Char)
    (hc : (Strip.bare isPySpace isDollar m.toList).head? = some c) : isDollar c = false := by
  rw [← bareMention_toList] at hc
  exact beq_false_of_ne fun he => h (he ▸ hc)

theorem bareMention_of_dollar {m : String} (h : (bareMention m).toList.head? = some '$') :
    ∃ rest, bareMention m = "$" ++ String.ofList rest := by
  cases hm : (bareMention m).toList with
  | nil => simp [hm] at h
  | cons c cs =>
    obtain rfl : c = '$' := by simpa [hm] using h
    exact ⟨cs, String.toList_inj.mp (by simp [hm])⟩

theorem toLower_toNat (c : Char) :
    c.toLower.toNat = if 65 ≤ c.toNat ∧ c.toNat ≤ 90 then c.toNat + 32 else c.toNat := by
  have hupper : (c.val ≥ 'A'.val ∧ c.val ≤ 'Z'.val) ↔ 65 ≤ c.toNat ∧ c.toNat ≤ 90 := Iff.rfl
  unfold Char.toLower
  by_cases h : 65 ≤ c.toNat ∧ c.toNat ≤ 90
  · rw [dif_pos (hupper.mpr h), if_pos h]
    have hhigh := h.2
    show (c.toNat + 32) % 2 ^ 32 = c.toNat + 32
    omega
  · rw [dif_neg (hupper.not.mpr h), if_neg h]

theorem isPySpace_toLower (c : Char) : isPySpace c.toLower = isPySpace c := by
  unfold isPySpace
  rw [toLower_toNat]
  split_ifs with h
  · have hlow := h.1
    have hhigh := h.2
    grind
  · rfl

theorem isDollar_toLower (c : Char) : isDollar c.toLower = isDollar c := by
  have hdollar : '$'.toNat = 36 := rfl
  rw [isDollar, isDollar, Bool.eq_iff_iff, beq_iff_eq, beq_iff_eq, ← Char.toNat_inj,
    ← Char.toNat_inj, toLower_toNat, hdollar]
  split_ifs <;> omega

theorem sqlLower_toList (s : String) : (sqlLower s).toList = s.toList.map Char.toLower :=
  String.toList_map

theorem bareMention_sqlLower (s : String) :
    bareMention (sqlLower s) = sqlLower (bareMention s) := by
  apply String.toList_inj.mp
  rw [bareMention_toList, sqlLower_toList, sqlLower_toList, bareMention_toList,
    Strip.bare_map isPySpace_toLower isDollar_toLower]

theorem trimMention_sqlLower (s : String) :
    trimMention (sqlLower s) = sqlLower (trimMention s) := by
  apply String.toList_inj.mp
  rw [trimMention_toList, sqlLower_toList, sqlLower_toList, trimMention_toList,
    Strip.trim_map isPySpace_toLower isDollar_toLower]

theorem asciiText_caseLaws : CaseLaws asciiText where
  lower_ascii _ _ := rfl
  upper_ascii _ _ := rfl
  lower_dollar s := by
    apply String.toList_inj.mp
    simp [asciiText, String.toList_map]
  upper_dollar s := by
    apply String.toList_inj.mp
    simp [asciiText, String.toList_map]
  lower_bare s := (bareMention_sqlLower s).symm

variable {text : UnicodeText} (laws : CaseLaws text)

include laws

/-- Of a mention in ASCII the select sees what the grouping sees, before it is stripped. -/
theorem normalizeMention_ascii {s : String} (h : IsAscii s) :
    normalizeMention text s = bareMention (sqlLower s) := by
  have hbare : IsAscii (bareMention s) := fun c hc =>
    h c ((Strip.bare_sublist isPySpace isDollar s.toList).subset (bareMention_toList s ▸ hc))
  rw [normalizeMention, laws.lower_ascii _ hbare, bareMention_sqlLower]
  rfl

theorem canonicalMention_ascii {s : String} (h : IsAscii s) :
    canonicalMention text s = trimMention (sqlLower s) := by
  have htrim : IsAscii (trimMention s) := fun c hc =>
    h c ((Strip.trim_sublist isPySpace isDollar s.toList).subset (trimMention_toList s ▸ hc))
  rw [canonicalMention, laws.lower_ascii _ htrim, trimMention_sqlLower]
  rfl

/-- A mention whose bare form starts with `$` has a key that no row is grouped under. -/
theorem bareMention_key_ne {m : String} (h : (bareMention m).toList.head? = some '$') :
    bareMention (normalizeMention text m) ≠ normalizeMention text m := by
  obtain ⟨rest, hrest⟩ := bareMention_of_dollar h
  intro heq
  rw [normalizeMention, hrest, laws.lower_dollar] at heq
  have hlist := congrArg String.toList heq
  rw [bareMention_toList, String.toList_append] at hlist
  exact Strip.bare_ne_self (x := '$') rfl _ hlist

/-- A mention whose bare form does not start with `$` has a key that stays as it is. -/
theorem bareMention_key {m : String} (h : (bareMention m).toList.head? ≠ some '$') :
    bareMention (normalizeMention text m) = normalizeMention text m := by
  have hbare : bareMention (bareMention m) = bareMention m := by
    apply String.toList_inj.mp
    rw [bareMention_toList, bareMention_toList, Strip.bare_bare (head_not_dollar h)]
  rw [normalizeMention, ← laws.lower_bare, hbare]

omit laws in
theorem canonicalMention_eq_key {m : String} (h : (bareMention m).toList.head? ≠ some '$') :
    canonicalMention text m = normalizeMention text m := by
  have htrim : trimMention m = bareMention m := by
    apply String.toList_inj.mp
    rw [trimMention_toList, bareMention_toList, Strip.trim_eq_bare (head_not_dollar h)]
  rw [canonicalMention, htrim, normalizeMention]

/-- The select finds the mentions of the canonical form that are stored trimmed. -/
theorem sqlLower_eq_key_iff {m s : String} (h : (bareMention m).toList.head? ≠ some '$')
    (hs : IsAscii s) : sqlLower s = normalizeMention text m ↔
      canonicalMention text s = canonicalMention text m ∧ trimMention s = s := by
  have hkey : canonicalMention text m = normalizeMention text m := canonicalMention_eq_key h
  have htrim : trimMention (normalizeMention text m) = normalizeMention text m := by
    have hbare := congrArg String.toList (bareMention_key laws h)
    rw [bareMention_toList] at hbare
    apply String.toList_inj.mp
    rw [trimMention_toList, Strip.trim_of_bare hbare]
  rw [canonicalMention_ascii laws hs, hkey]
  constructor
  · intro heq
    rw [heq, htrim]
    refine ⟨rfl, ?_⟩
    have hlower : sqlLower (trimMention s) = sqlLower s := by
      rw [← trimMention_sqlLower, heq, htrim]
    have hlen := congrArg (fun t => t.toList.length) hlower
    simp only [sqlLower_toList, List.length_map] at hlen
    apply String.toList_inj.mp
    rw [trimMention_toList] at hlen ⊢
    exact (Strip.trim_sublist isPySpace isDollar s.toList).eq_of_length hlen
  · rintro ⟨heq, hstored⟩
    rw [← heq, trimMention_sqlLower, hstored]

end Forms

section Tables

/-- The `aliases` table; a mention and a ticker occur together once. -/
structure AliasTable where
  rows : List AliasRow
  mention_ticker_nodup : (rows.map fun row => (row.mention, row.ticker)).Nodup

/-- The rows' mentions and priorities. -/
def AliasTable.columns (table : AliasTable) : List (String × ℤ) :=
  table.rows.map fun row => (row.mention, row.priority)

/-- Six letters or more, different for each index. -/
def longTicker (i : ℕ) : String := String.ofList (List.replicate (6 + i) 'A')

theorem longTicker_length (i : ℕ) : (longTicker i).length = 6 + i := by
  simp [longTicker]

theorem longTicker_inj {i j : ℕ} (h : longTicker i = longTicker j) : i = j := by
  have hlen := congrArg String.length h
  rw [longTicker_length, longTicker_length] at hlen
  omega

theorem isTickerText_longTicker (i : ℕ) : isTickerText (longTicker i) = false := by
  have hlen := longTicker_length i
  simp [isTickerText, hlen]
  omega

theorem upper_longTicker {text : UnicodeText} (laws : CaseLaws text) (i : ℕ) :
    text.upper (longTicker i) = longTicker i := by
  have hletters : ∀ c ∈ (longTicker i).toList, c = 'A' := by
    intro c hc
    rw [longTicker, String.toList_ofList] at hc
    exact List.eq_of_mem_replicate hc
  rw [laws.upper_ascii _ fun c hc => by rw [hletters c hc]; decide]
  apply String.toList_inj.mp
  rw [String.toList_map, longTicker, String.toList_ofList, List.map_replicate]
  rfl

/-- A table of given mentions and priorities in which no ticker occurs twice. -/
def labelled (entries : List (String × ℤ)) : AliasTable where
  rows := entries.mapIdx fun i e => ⟨e.1, longTicker i, e.2⟩
  mention_ticker_nodup := by
    rw [List.Nodup, List.pairwise_map, List.pairwise_iff_getElem]
    intro i j hi hj hij
    simp only [List.getElem_mapIdx, ne_eq, Prod.mk.injEq, not_and]
    intro _ heq
    exact absurd (longTicker_inj heq) hij.ne

theorem mem_labelled {entries : List (String × ℤ)} {row : AliasRow} :
    row ∈ (labelled entries).rows ↔
      ∃ (i : ℕ) (h : i < entries.length), row = ⟨entries[i].1, longTicker i, entries[i].2⟩ := by
  simp [labelled, List.mem_mapIdx, eq_comm]

theorem labelled_columns (entries : List (String × ℤ)) : (labelled entries).columns = entries := by
  apply List.ext_getElem
  · simp [AliasTable.columns, labelled]
  · intro i hi hi'
    simp [AliasTable.columns, labelled]

/-- A labelled row is known by its ticker. -/
theorem labelled_row_inj {entries : List (String × ℤ)} {row row' : AliasRow}
    (h : row ∈ (labelled entries).rows) (h' : row' ∈ (labelled entries).rows)
    (hticker : row.ticker = row'.ticker) : row = row' := by
  obtain ⟨i, hi, rfl⟩ := mem_labelled.mp h
  obtain ⟨j, hj, rfl⟩ := mem_labelled.mp h'
  obtain rfl := longTicker_inj hticker
  rfl

theorem labelled_ticker {text : UnicodeText} (laws : CaseLaws text)
    {entries : List (String × ℤ)} {row : AliasRow} (h : row ∈ (labelled entries).rows) :
    text.upper row.ticker = row.ticker ∧ isTickerText row.ticker = false ∧ row.ticker ≠ "" := by
  obtain ⟨i, hi, rfl⟩ := mem_labelled.mp h
  refine ⟨upper_longTicker laws i, isTickerText_longTicker i, fun hempty => ?_⟩
  have hlen := longTicker_length i
  simp only at hempty
  rw [hempty] at hlen
  simp at hlen
  omega

/-- One mention by itself. -/
theorem resolveTickers_singleton (text : UnicodeText) (rows : List AliasRow) (m : String) :
    resolveTickers text rows [m] = if pyStrip m = "" then []
      else (resolveMention text (groupedAliases text (fetchedAliases text rows [m])) m).toList := by
  rw [resolveTickers_eq, aliasKeys]
  by_cases hm : pyStrip m = ""
  · simp [hm]
  · cases hr : resolveMention text (groupedAliases text (fetchedAliases text rows [m])) m <;>
      simp [hm, hr]

theorem mem_fetchedAliases_singleton {text : UnicodeText} {rows : List AliasRow} {m : String}
    {row : AliasRow} : row ∈ fetchedAliases text rows [m] ↔
      row ∈ rows ∧ pyStrip m ≠ "" ∧ sqlLower row.mention = normalizeMention text m := by
  by_cases hm : pyStrip m = "" <;> simp [fetchedAliases, aliasKeys, hm]

/-- The ticker of a labelled row comes of that row only, so the mention has fetched it. -/
theorem labelled_resolved {text : UnicodeText} (laws : CaseLaws text)
    {entries : List (String × ℤ)} {m : String} {row : AliasRow}
    (hrow : row ∈ (labelled entries).rows)
    (h : resolveTickers text (labelled entries).rows [m] = [row.ticker]) :
    row ∈ fetchedAliases text (labelled entries).rows [m] := by
  obtain ⟨-, hshape, -⟩ := labelled_ticker laws hrow
  rw [resolveTickers_singleton] at h
  split_ifs at h with hblank
  rw [Option.toList_eq_singleton_iff] at h
  unfold resolveMention at h
  split at h
  next priority ticker hlookup =>
    rw [groupedAliases_lookup] at hlookup
    obtain ⟨best, hbest, -, hentry⟩ := mem_entriesOf.mp (List.argmax_mem hlookup)
    have hmem := (mem_fetchedAliases_singleton.mp hbest).1
    have hticker : best.ticker = row.ticker := by
      rw [← Option.some.inj h, ← (labelled_ticker laws hmem).1]
      exact congrArg text.upper (congrArg Prod.snd hentry)
    exact labelled_row_inj hmem hrow hticker ▸ hbest
  · split_ifs at h with hlooks
    rw [looksLikeTicker, Option.some.inj h, hshape] at hlooks
    cases hlooks

end Tables

section Canonical

variable {text : UnicodeText}

/-- An entry of the mention's canonical form that no other such entry exceeds in priority. -/
def IsTop (text : UnicodeText) (entries : List (String × ℤ)) (m : String) (e : String × ℤ) :
    Prop :=
  e ∈ entries ∧ canonicalMention text e.1 = canonicalMention text m ∧
    ∀ d ∈ entries, canonicalMention text d.1 = canonicalMention text m → d.2 ≤ e.2

/-- Whatever tickers the rows name: if a row has the mention's canonical form, the mention
resolves to the ticker of a top one. -/
def ResolvesCanonically (text : UnicodeText) (entries : List (String × ℤ)) (m : String) : Prop :=
  ∀ table : AliasTable, table.columns = entries → (∀ row ∈ table.rows, row.ticker ≠ "") →
    (∃ e ∈ entries, canonicalMention text e.1 = canonicalMention text m) →
    ∃ row ∈ table.rows, IsTop text entries m (row.mention, row.priority) ∧
      resolveTickers text table.rows [m] = [text.upper row.ticker]

/-- All that is fetched for a mention whose bare form does not start with `$` competes for it. -/
theorem entriesOf_fetched (laws : CaseLaws text) {rows : List AliasRow} {m : String}
    (hascii : ∀ row ∈ rows, IsAscii row.mention)
    (hhead : (bareMention m).toList.head? ≠ some '$') {entry : ℤ × String} :
    entry ∈ entriesOf text (fetchedAliases text rows [m]) (normalizeMention text m) ↔
      ∃ row ∈ fetchedAliases text rows [m], row.entry = entry := by
  rw [mem_entriesOf]
  constructor
  · rintro ⟨row, hrow, -, hentry⟩
    exact ⟨row, hrow, hentry⟩
  · rintro ⟨row, hrow, hentry⟩
    obtain ⟨hmem, -, hlower⟩ := mem_fetchedAliases_singleton.mp hrow
    refine ⟨row, hrow, ?_, hentry⟩
    rw [normalizeMention_ascii laws (hascii row hmem), hlower, bareMention_key laws hhead]

/-- A mention whose bare form starts with `$` resolves to nothing. -/
theorem resolveTickers_of_dollar (laws : CaseLaws text) {rows : List AliasRow} {m : String}
    (hascii : ∀ row ∈ rows, IsAscii row.mention)
    (hhead : (bareMention m).toList.head? = some '$') : resolveTickers text rows [m] = [] := by
  have hlookup : (groupedAliases text (fetchedAliases text rows [m])).lookup
      (normalizeMention text m) = none := by
    rw [groupedAliases_lookup, List.argmax_eq_none, List.eq_nil_iff_forall_not_mem]
    intro entry hentry
    obtain ⟨row, hrow, hkey, -⟩ := mem_entriesOf.mp hentry
    obtain ⟨hmem, -, hlower⟩ := mem_fetchedAliases_singleton.mp hrow
    rw [normalizeMention_ascii laws (hascii row hmem), hlower] at hkey
    exact bareMention_key_ne laws hhead hkey
  have hshape : looksLikeTicker text m = false := by
    obtain ⟨rest, hrest⟩ := bareMention_of_dollar hhead
    rw [looksLikeTicker, hrest, laws.upper_dollar, isTickerText, Bool.and_eq_false_iff]
    right
    rw [String.toList_append, List.all_append, Bool.and_eq_false_iff]
    exact Or.inl (by decide)
  rw [resolveTickers_singleton, resolveMention, hlookup]
  simp [hshape]

/-- A mention that resolves to its canonical form has a row that the select finds. -/
theorem ResolvesCanonically.stored (laws : CaseLaws text) {entries : List (String × ℤ)}
    {m : String} (hascii : ∀ e ∈ entries, IsAscii e.1) (h : ResolvesCanonically text entries m)
    (hclass : ∃ e ∈ entries, canonicalMention text e.1 = canonicalMention text m) :
    pyStrip m ≠ "" ∧ (bareMention m).toList.head? ≠ some '$' ∧
      ∃ e, IsTop text entries m e ∧ trimMention e.1 = e.1 := by
  have hcolumns := labelled_columns entries
  have hrows : ∀ row ∈ (labelled entries).rows, IsAscii row.mention := by
    intro row hrow
    rw [← hcolumns] at hascii
    exact hascii _ (List.mem_map_of_mem hrow)
  obtain ⟨row, hrow, htop, hresolve⟩ := h (labelled entries) hcolumns
    (fun row hrow => (labelled_ticker laws hrow).2.2) hclass
  rw [(labelled_ticker laws hrow).1] at hresolve
  have hhead : (bareMention m).toList.head? ≠ some '$' := by
    intro hdollar
    rw [resolveTickers_of_dollar laws hrows hdollar] at hresolve
    cases hresolve
  have hblank : pyStrip m ≠ "" := by
    intro hblank
    rw [resolveTickers_singleton, if_pos hblank] at hresolve
    cases hresolve
  obtain ⟨-, -, hlower⟩ := mem_fetchedAliases_singleton.mp (labelled_resolved laws hrow hresolve)
  exact ⟨hblank, hhead, _, htop, ((sqlLower_eq_key_iff laws hhead (hrows row hrow)).mp hlower).2⟩

/-- If a top row is stored trimmed, the mention gets the ticker of a top row. -/
theorem resolves_top (laws : CaseLaws text) {table : AliasTable} {m : String}
    (hascii : ∀ row ∈ table.rows, IsAscii row.mention) (hblank : pyStrip m ≠ "")
    (hhead : (bareMention m).toList.head? ≠ some '$') {e : String × ℤ}
    (htop : IsTop text table.columns m e) (hstored : trimMention e.1 = e.1) :
    ∃ row ∈ table.rows, IsTop text table.columns m (row.mention, row.priority) ∧
      resolveTickers text table.rows [m] = [text.upper row.ticker] := by
  obtain ⟨he, hform, hmax⟩ := htop
  obtain ⟨stored, hmem, rfl⟩ := List.mem_map.mp he
  have hfetched : stored ∈ fetchedAliases text table.rows [m] :=
    mem_fetchedAliases_singleton.mpr ⟨hmem, hblank,
      (sqlLower_eq_key_iff laws hhead (hascii stored hmem)).mpr ⟨hform, hstored⟩⟩
  have hentry := (entriesOf_fetched laws hascii hhead).mpr ⟨stored, hfetched, rfl⟩
  cases hbest : (entriesOf text (fetchedAliases text table.rows [m])
      (normalizeMention text m)).argmax entryRank with
  | none =>
    rw [List.argmax_eq_none] at hbest
    rw [hbest] at hentry
    exact absurd hentry List.not_mem_nil
  | some best =>
    obtain ⟨row, hrow, rfl⟩ := (entriesOf_fetched laws hascii hhead).mp (List.argmax_mem hbest)
    obtain ⟨hrowmem, -, hlower⟩ := mem_fetchedAliases_singleton.mp hrow
    have hrowform := ((sqlLower_eq_key_iff laws hhead (hascii row hrowmem)).mp hlower).1
    have hpriority : stored.priority ≤ row.priority :=
      priority_le_of_rank_le (List.le_of_mem_argmax hentry hbest)
    refine ⟨row, hrowmem, ⟨List.mem_map_of_mem hrowmem, hrowform, fun d hd hdform => ?_⟩, ?_⟩
    · exact (hmax d hd hdform).trans hpriority
    · rw [resolveTickers_singleton, if_neg hblank, resolveMention, groupedAliases_lookup, hbest]
      rfl

/-- A mention resolves to its canonical form whatever the tickers exactly if no row has that
form, or the mention is not blank, has no `$` behind whitespace, and some top row is stored
without `$` in front and without whitespace around. -/
theorem resolvesCanonically_iff (laws : CaseLaws text) (entries : List (String × ℤ)) (m : String)
    (hascii : ∀ e ∈ entries, IsAscii e.1) :
    ResolvesCanonically text entries m ↔
      (∀ e ∈ entries, canonicalMention text e.1 ≠ canonicalMention text m) ∨
      (pyStrip m ≠ "" ∧ (bareMention m).toList.head? ≠ some '$' ∧
        ∃ e, IsTop text entries m e ∧ trimMention e.1 = e.1) := by
  constructor
  · intro h
    by_cases hclass : ∃ e ∈ entries, canonicalMention text e.1 = canonicalMention text m
    · exact Or.inr (h.stored laws hascii hclass)
    · left
      intro e he heq
      exact hclass ⟨e, he, heq⟩
  · rintro hcond table rfl - hclass
    rcases hcond with hempty | ⟨hblank, hhead, e, htop, hstored⟩
    · obtain ⟨e, he, heq⟩ := hclass
      exact absurd heq (hempty e he)
    · exact resolves_top laws (fun row hrow => hascii _ (List.mem_map_of_mem hrow)) hblank hhead
        htop hstored

/-- A row for `tesla` answers the mention `Tesla`. -/
theorem resolvesCanonically_tesla : ResolvesCanonically asciiText [("tesla", 10)] "Tesla" := by
  apply (resolvesCanonically_iff asciiText_caseLaws [("tesla", 10)] "Tesla" ?_).mpr
  · have hstored : canonicalMention asciiText "tesla" = "tesla" := by decide +kernel
    have hmention : canonicalMention asciiText "Tesla" = "tesla" := by decide +kernel
    refine Or.inr ⟨by decide +kernel, by decide +kernel, ("tesla", 10), ?_, by decide +kernel⟩
    exact ⟨by simp, hstored.trans hmention.symm, fun d hd _ => by
      simp [List.mem_singleton.mp hd]⟩
  · intro e he
    rw [List.mem_singleton.mp he]
    decide +kernel

/-- The row that is stored for `$TSLA` does not answer the mention `$TSLA`. -/
theorem dollar_row_unused : ¬ ∀ (text : UnicodeText) (entries : List (String × ℤ)) (m : String),
    CaseLaws text → (∀ e ∈ entries, IsAscii e.1) → ResolvesCanonically text entries m := by
  intro h
  let table : AliasTable := ⟨[⟨"$TSLA", "TSLAX", 20⟩], List.nodup_singleton _⟩
  obtain ⟨row, hrow, -, hresolve⟩ := h asciiText [("$TSLA", 20)] "$TSLA" asciiText_caseLaws
    (by
      intro e he
      rw [List.mem_singleton.mp he]
      decide +kernel) table rfl
    (by
      intro row hrow
      rw [List.mem_singleton.mp hrow]
      decide)
    ⟨_, List.mem_singleton_self _, rfl⟩
  rw [List.mem_singleton.mp hrow] at hresolve
  have hpassed : resolveTickers asciiText table.rows ["$TSLA"] = ["TSLA"] := by decide +kernel
  rw [hpassed] at hresolve
  exact absurd hresolve (by decide +kernel)

end Canonical

end XSocialTrader
