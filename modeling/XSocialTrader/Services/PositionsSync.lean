import XSocialTrader.Lib.LeftJoin
import XSocialTrader.Lib.OrderedDict
import XSocialTrader.Models.Tables

/-! `sync_positions`: the `positions` table is made to mirror the broker's report. The report is
a list and may name a symbol more than once; the sync first turns it into a dictionary by
symbol. -/
namespace XSocialTrader
open OrderedDict

/-- A row of `positions`. -/
structure PositionRow (F : Type) where
  symbol : String
  quantity : ℤ
  avgPriceUsd : F
  realizedPnlUsd : F
  deriving DecidableEq

structure SyncReport where
  inserted : ℕ
  updated : ℕ
  cleared : ℕ
  deriving DecidableEq, Repr

variable {F : Type} [PyFloat F]

namespace PositionRow

/-- What a flush of the row raises: the driver binds no integer beyond 64 bits, and a NaN becomes
a NULL that the column does not take. -/
def bindError (row : PositionRow F) : Option PyExc :=
  if row.quantity < -2 ^ 63 ∨ 2 ^ 63 ≤ row.quantity then some .overflowError
  else if PyFloat.eq row.avgPriceUsd row.avgPriceUsd then none
  else some (.integrityError "positions.avg_price_usd")

/-- `row.quantity != snapshot.quantity or row.avg_price_usd != snapshot.avg_price_usd`. -/
def differs (row : PositionRow F) (snapshot : Position F) : Bool :=
  decide (row.quantity ≠ snapshot.quantity) || !PyFloat.eq row.avgPriceUsd snapshot.avgPriceUsd

omit [PyFloat F] in
def write (row : PositionRow F) (snapshot : Position F) : PositionRow F :=
  { row with quantity := snapshot.quantity, avgPriceUsd := snapshot.avgPriceUsd }

end PositionRow

/-- The row that the sync adds for a symbol the table lacks. -/
def newPositionRow (snapshot : Position F) : PositionRow F where
  symbol := snapshot.symbol
  quantity := snapshot.quantity
  avgPriceUsd := snapshot.avgPriceUsd
  realizedPnlUsd := PyFloat.ofInt 0

/-- `positions`: symbols are unique and every value is one that the columns can hold. -/
@[ext]
structure PositionsTable (F : Type) [PyFloat F] where
  rows : List (PositionRow F)
  symbols_nodup : (rows.map PositionRow.symbol).Nodup
  rows_bound : ∀ row ∈ rows, row.bindError = none

omit [PyFloat F] in
/-- `{p.symbol: p for p in reported}`. -/
def reportedBySymbol (reported : List (Position F)) : List (String × Position F) :=
  ofPairs (reported.map fun p => (p.symbol, p))

/-- The loaded rows, the rows put into the session, and the two counters of the first loop. -/
structure Upserts (F : Type) where
  existing : List (PositionRow F)
  added : List (PositionRow F)
  inserted : ℕ
  updated : ℕ

/-- One round of the first loop. -/
def Upserts.upsert (s : Upserts F) (entry : String × Position F) : Upserts F :=
  match s.existing.find? fun row => row.symbol == entry.1 with
  | none => { s with
      added := s.added ++ [newPositionRow entry.2]
      inserted := s.inserted + 1 }
  | some row =>
    if row.differs entry.2 then { s with
      existing := s.existing.map fun r => if r.symbol = entry.1 then r.write entry.2 else r
      updated := s.updated + 1 }
    else s

omit [PyFloat F] in
/-- The second loop, over the loaded rows. -/
def clearUnreported (bySymbol : List (String × Position F)) :
    List (PositionRow F) → List (PositionRow F) × ℕ
  | [] => ([], 0)
  | row :: rows =>
    let rest := clearUnreported bySymbol rows
    if row.symbol ∉ bySymbol.map Prod.fst ∧ row.quantity ≠ 0 then
      ({ row with quantity := 0 } :: rest.1, rest.2 + 1)
    else (row :: rest.1, rest.2)

/-- `session.flush()`. The updates come first, one by one; the inserts are one statement, whose
values are bound before any constraint is checked. -/
def flushPositions (added existing : List (PositionRow F)) : Option PyExc :=
  let errors := added.filterMap PositionRow.bindError
  (existing.findSome? PositionRow.bindError).or
    (if errors.contains .overflowError then some .overflowError else errors.head?)

theorem flushPositions_eq_none_iff {added existing : List (PositionRow F)} :
    flushPositions added existing = none ↔ ∀ row ∈ existing ++ added, row.bindError = none := by
  have hadded : added.filterMap PositionRow.bindError = [] ↔
      ∀ row ∈ added, row.bindError = none := by
    rw [List.filterMap_eq_nil_iff]
  rw [flushPositions, Option.or_eq_none_iff, List.findSome?_eq_none_iff, List.forall_mem_append,
    ← hadded]
  refine and_congr_right fun _ => ?_
  cases added.filterMap PositionRow.bindError with
  | nil => simp
  | cons e errors => split_ifs <;> simp

theorem flushPositions_eq_some {added existing : List (PositionRow F)} {e : PyExc}
    (h : flushPositions added existing = some e) :
    ∃ row ∈ existing ++ added, row.bindError = some e := by
  have hadded : e ∈ added.filterMap PositionRow.bindError →
      ∃ row ∈ existing ++ added, row.bindError = some e := fun hmem => by
    obtain ⟨row, hrow, he⟩ := List.mem_filterMap.mp hmem
    exact ⟨row, List.mem_append_right _ hrow, he⟩
  rw [flushPositions, Option.or_eq_some_iff] at h
  rcases h with h | ⟨-, h⟩
  · obtain ⟨row, hrow, he⟩ := List.exists_of_findSome?_eq_some h
    exact ⟨row, List.mem_append_left _ hrow, he⟩
  · split_ifs at h with hover
    · obtain rfl := Option.some.inj h
      exact hadded (List.contains_iff_mem.mp hover)
    · exact hadded (List.mem_of_head? h)

section Loops

/-- What the first loop makes of a row, and whether it counts the row as updated. -/
def PositionRow.refreshed (bySymbol : List (String × Position F)) (row : PositionRow F) :
    PositionRow F :=
  match bySymbol.lookup row.symbol with
  | none => row
  | some snapshot => if row.differs snapshot then row.write snapshot else row

def PositionRow.isUpdated (bySymbol : List (String × Position F)) (row : PositionRow F) : Bool :=
  match bySymbol.lookup row.symbol with
  | none => false
  | some snapshot => row.differs snapshot

variable {bySymbol : List (String × Position F)} {symbol : String} {snapshot : Position F}
  {rows : List (PositionRow F)}

@[simp] theorem PositionRow.refreshed_symbol (row : PositionRow F) :
    (row.refreshed bySymbol).symbol = row.symbol := by
  unfold refreshed
  split
  · rfl
  · split_ifs <;> rfl

variable (bySymbol rows) in
theorem map_refreshed_symbol :
    (rows.map (PositionRow.refreshed bySymbol)).map PositionRow.symbol =
      rows.map PositionRow.symbol := by
  rw [List.map_map]
  exact List.map_congr_left fun row _ => row.refreshed_symbol

theorem map_refreshed_of_same (h : ∀ row ∈ rows, row.refreshed bySymbol = row) :
    rows.map (PositionRow.refreshed bySymbol) = rows :=
  (List.map_congr_left h).trans (List.map_id' rows)

theorem PositionRow.refreshed_single (row : PositionRow F) :
    row.refreshed [(symbol, snapshot)] =
      if row.symbol = symbol ∧ row.differs snapshot = true then row.write snapshot else row := by
  rw [refreshed, lookup_cons_ite]
  by_cases h : row.symbol = symbol <;> simp [h]

theorem PositionRow.isUpdated_single (row : PositionRow F) :
    row.isUpdated [(symbol, snapshot)] =
      (decide (row.symbol = symbol) && row.differs snapshot) := by
  rw [isUpdated, lookup_cons_ite]
  by_cases h : row.symbol = symbol <;> simp [h]

/-- The head of a dictionary and its tail speak of different rows. -/
theorem PositionRow.refreshed_cons (h : symbol ∉ bySymbol.map Prod.fst) (row : PositionRow F) :
    row.refreshed ((symbol, snapshot) :: bySymbol) =
      (row.refreshed [(symbol, snapshot)]).refreshed bySymbol := by
  have hnone := lookup_eq_none_iff.mpr h
  by_cases hs : row.symbol = symbol
  · have hrest : (row.refreshed [(symbol, snapshot)]).refreshed bySymbol =
        row.refreshed [(symbol, snapshot)] := by
      rw [refreshed, refreshed_symbol, hs, hnone]
    rw [hrest, refreshed, refreshed, lookup_cons_ite, lookup_cons_ite, if_pos hs, if_pos hs]
  · rw [refreshed_single, if_neg fun hc => hs hc.1, refreshed, refreshed, lookup_cons_ite,
      if_neg hs]

theorem countP_isUpdated_cons (h : symbol ∉ bySymbol.map Prod.fst) :
    rows.countP (PositionRow.isUpdated ((symbol, snapshot) :: bySymbol)) =
      rows.countP (PositionRow.isUpdated [(symbol, snapshot)]) +
      (rows.map (PositionRow.refreshed [(symbol, snapshot)])).countP
        (PositionRow.isUpdated bySymbol) := by
  have hnone := lookup_eq_none_iff.mpr h
  have hrow (row : PositionRow F) : (row.isUpdated ((symbol, snapshot) :: bySymbol)).toNat =
      (row.isUpdated [(symbol, snapshot)]).toNat +
        ((row.refreshed [(symbol, snapshot)]).isUpdated bySymbol).toNat := by
    by_cases hs : row.symbol = symbol
    · have hrest : (row.refreshed [(symbol, snapshot)]).isUpdated bySymbol = false := by
        rw [PositionRow.isUpdated, PositionRow.refreshed_symbol, hs, hnone]
      rw [hrest, PositionRow.isUpdated, PositionRow.isUpdated, lookup_cons_ite, lookup_cons_ite,
        if_pos hs, if_pos hs]
      rfl
    · rw [PositionRow.refreshed_single, if_neg fun hc => hs hc.1, PositionRow.isUpdated_single,
        decide_eq_false hs, Bool.false_and, PositionRow.isUpdated, PositionRow.isUpdated,
        lookup_cons_ite, if_neg hs, Bool.toNat_false, Nat.zero_add]
  induction rows with
  | nil => rfl
  | cons row rows ih =>
    have hr := hrow row
    simp only [List.map_cons, List.countP_cons, ih]
    cases ha : row.isUpdated ((symbol, snapshot) :: bySymbol) <;>
      cases hb : row.isUpdated [(symbol, snapshot)] <;>
      cases hc : (row.refreshed [(symbol, snapshot)]).isUpdated bySymbol <;>
      simp only [ha, hb, hc, Bool.toNat_true, Bool.toNat_false] at hr <;> grind

/-- The rows of a report's dictionary that the table lacks. -/
def unknown (bySymbol : List (String × Position F)) (rows : List (PositionRow F)) :
    List (Position F) :=
  (bySymbol.filter fun e => e.1 ∉ rows.map PositionRow.symbol).map Prod.snd

omit [PyFloat F] in
theorem eq_of_symbol_eq {row row' : PositionRow F} (hrows : (rows.map PositionRow.symbol).Nodup)
    (h : row ∈ rows) (h' : row' ∈ rows) (hs : row.symbol = row'.symbol) : row = row' :=
  List.inj_on_of_nodup_map hrows h h' hs

/-- One round, in terms of the dictionary that holds its entry alone. -/
theorem Upserts.upsert_eq (s : Upserts F) (hrows : (s.existing.map PositionRow.symbol).Nodup) :
    s.upsert (symbol, snapshot) = {
      existing := s.existing.map (PositionRow.refreshed [(symbol, snapshot)])
      added := s.added ++ (unknown [(symbol, snapshot)] s.existing).map newPositionRow
      inserted := s.inserted + (unknown [(symbol, snapshot)] s.existing).length
      updated := s.updated + s.existing.countP (PositionRow.isUpdated [(symbol, snapshot)]) } := by
  unfold upsert
  cases hfind : s.existing.find? fun row => row.symbol == symbol with
  | none =>
    have habsent : ∀ row ∈ s.existing, row.symbol ≠ symbol := fun row hrow hs => by
      simpa [hs] using List.find?_eq_none.mp hfind row hrow
    have hmem : symbol ∉ s.existing.map PositionRow.symbol := fun h => by
      obtain ⟨row, hrow, hs⟩ := List.mem_map.mp h
      exact habsent row hrow hs
    have hsame : s.existing.map (PositionRow.refreshed [(symbol, snapshot)]) = s.existing := by
      refine map_refreshed_of_same fun row hrow => ?_
      rw [PositionRow.refreshed_single, if_neg fun hc => habsent row hrow hc.1]
    have hcount : s.existing.countP (PositionRow.isUpdated [(symbol, snapshot)]) = 0 := by
      refine List.countP_eq_zero.mpr fun row hrow => ?_
      simp [PositionRow.isUpdated_single, habsent row hrow]
    have hunknown : unknown [(symbol, snapshot)] s.existing = [snapshot] := by
      rw [unknown, List.filter_singleton, decide_eq_true hmem]
      rfl
    rw [hsame, hcount, hunknown]
    rfl
  | some row =>
    have hrow : row ∈ s.existing := List.mem_of_find?_eq_some hfind
    have hs : row.symbol = symbol := by simpa using List.find?_some hfind
    have honly : ∀ r ∈ s.existing, r.symbol = symbol → r = row := fun r hr hrs =>
      eq_of_symbol_eq hrows hr hrow (hrs.trans hs.symm)
    have hunknown : unknown [(symbol, snapshot)] s.existing = [] := by
      have hmem : symbol ∈ s.existing.map PositionRow.symbol := hs ▸ List.mem_map_of_mem hrow
      rw [unknown, List.filter_singleton, decide_eq_false (not_not.mpr hmem)]
      rfl
    rw [hunknown]
    dsimp only
    by_cases hd : row.differs snapshot = true
    · have hwrite : (s.existing.map fun r => if r.symbol = symbol then r.write snapshot else r) =
          s.existing.map (PositionRow.refreshed [(symbol, snapshot)]) := by
        refine List.map_congr_left fun r hr => ?_
        rw [PositionRow.refreshed_single]
        by_cases hrs : r.symbol = symbol
        · rw [if_pos hrs, if_pos ⟨hrs, honly r hr hrs ▸ hd⟩]
        · rw [if_neg hrs, if_neg fun hc => hrs hc.1]
      have hcount : s.existing.countP (PositionRow.isUpdated [(symbol, snapshot)]) = 1 := by
        refine LeftJoin.countP_eq_one (List.Nodup.of_map _ hrows) hrow ?_ fun r hr hu => ?_
        · rw [PositionRow.isUpdated_single, decide_eq_true hs, hd]
          rfl
        · rw [PositionRow.isUpdated_single, Bool.and_eq_true, decide_eq_true_eq] at hu
          exact honly r hr hu.1
      rw [if_pos hd, hwrite, hcount]
      simp
    · have hsame : s.existing.map (PositionRow.refreshed [(symbol, snapshot)]) = s.existing := by
        refine map_refreshed_of_same fun r hr => ?_
        rw [PositionRow.refreshed_single, if_neg]
        rintro ⟨hrs, hrd⟩
        exact hd (honly r hr hrs ▸ hrd)
      have hcount : s.existing.countP (PositionRow.isUpdated [(symbol, snapshot)]) = 0 := by
        refine List.countP_eq_zero.mpr fun r hr => ?_
        rw [PositionRow.isUpdated_single, Bool.and_eq_true, decide_eq_true_eq]
        rintro ⟨hrs, hrd⟩
        exact hd (honly r hr hrs ▸ hrd)
      rw [if_neg hd, hsame, hcount]
      simp

/-- The first loop. -/
theorem foldl_upsert (hkeys : (bySymbol.map Prod.fst).Nodup) (s : Upserts F)
    (hrows : (s.existing.map PositionRow.symbol).Nodup) :
    bySymbol.foldl Upserts.upsert s = {
      existing := s.existing.map (PositionRow.refreshed bySymbol)
      added := s.added ++ (unknown bySymbol s.existing).map newPositionRow
      inserted := s.inserted + (unknown bySymbol s.existing).length
      updated := s.updated + s.existing.countP (PositionRow.isUpdated bySymbol) } := by
  induction bySymbol generalizing s with
  | nil =>
    have hsame : s.existing.map (PositionRow.refreshed []) = s.existing :=
      map_refreshed_of_same fun _ _ => rfl
    have hcount : s.existing.countP (PositionRow.isUpdated []) = 0 :=
      List.countP_eq_zero.mpr fun _ _ => by simp [PositionRow.isUpdated]
    rw [hsame, hcount]
    simp [unknown]
  | cons entry bySymbol ih =>
    obtain ⟨symbol, snapshot⟩ := entry
    rw [List.map_cons, List.nodup_cons] at hkeys
    have hsymbols := map_refreshed_symbol [(symbol, snapshot)] s.existing
    rw [List.foldl_cons, s.upsert_eq hrows, ih hkeys.2 _ (by rw [hsymbols]; exact hrows)]
    have hunknown : unknown ((symbol, snapshot) :: bySymbol) s.existing =
        unknown [(symbol, snapshot)] s.existing ++ unknown bySymbol
          (s.existing.map (PositionRow.refreshed [(symbol, snapshot)])) := by
      rw [unknown, unknown, unknown, hsymbols, ← List.map_append, ← List.filter_append]
      rfl
    have hexisting : s.existing.map (PositionRow.refreshed ((symbol, snapshot) :: bySymbol)) =
        (s.existing.map (PositionRow.refreshed [(symbol, snapshot)])).map
          (PositionRow.refreshed bySymbol) := by
      rw [List.map_map]
      exact List.map_congr_left fun row _ => row.refreshed_cons hkeys.1
    rw [hunknown, hexisting, countP_isUpdated_cons hkeys.1, List.map_append, List.length_append]
    simp [Nat.add_assoc]

/-- What the second loop makes of a row, and whether it counts the row as cleared. -/
def PositionRow.isCleared (bySymbol : List (String × Position F)) (row : PositionRow F) : Bool :=
  decide (row.symbol ∉ bySymbol.map Prod.fst ∧ row.quantity ≠ 0)

def PositionRow.settled (bySymbol : List (String × Position F)) (row : PositionRow F) :
    PositionRow F :=
  match bySymbol.lookup row.symbol with
  | none => { row with quantity := 0 }
  | some snapshot => if row.differs snapshot then row.write snapshot else row

omit [PyFloat F] in
theorem clearUnreported_eq (rows : List (PositionRow F)) :
    clearUnreported bySymbol rows =
      (rows.map fun row => if row.isCleared bySymbol then { row with quantity := 0 } else row,
        rows.countP (PositionRow.isCleared bySymbol)) := by
  induction rows with
  | nil => rfl
  | cons row rows ih =>
    rw [clearUnreported, ih, List.map_cons, List.countP_cons]
    by_cases h : row.symbol ∉ bySymbol.map Prod.fst ∧ row.quantity ≠ 0
    · simp only [PositionRow.isCleared, if_pos h, decide_eq_true h, if_true]
    · simp only [PositionRow.isCleared, if_neg h, decide_eq_false h, Bool.false_eq_true, if_false,
        Nat.add_zero]

@[simp] theorem PositionRow.settled_symbol (row : PositionRow F) :
    (row.settled bySymbol).symbol = row.symbol := by
  unfold settled
  split
  · rfl
  · split_ifs <;> rfl

theorem map_settled_symbol :
    (rows.map (PositionRow.settled bySymbol)).map PositionRow.symbol =
      rows.map PositionRow.symbol := by
  rw [List.map_map]
  exact List.map_congr_left fun row _ => row.settled_symbol

/-- The two loops touch different rows. -/
theorem clearUnreported_refreshed :
    clearUnreported bySymbol (rows.map (PositionRow.refreshed bySymbol)) =
      (rows.map (PositionRow.settled bySymbol), rows.countP (PositionRow.isCleared bySymbol)) := by
  have hcleared (row : PositionRow F) :
      (row.refreshed bySymbol).isCleared bySymbol = row.isCleared bySymbol := by
    cases hl : bySymbol.lookup row.symbol with
    | none => rw [PositionRow.refreshed, hl]
    | some snapshot =>
      have hmem : row.symbol ∈ bySymbol.map Prod.fst := by
        by_contra h
        rw [lookup_eq_none_iff.mpr h] at hl
        exact absurd hl (by simp)
      simp [PositionRow.isCleared, hmem]
  rw [clearUnreported_eq, List.map_map, List.countP_map]
  congr 1
  · refine List.map_congr_left fun row _ => ?_
    rw [Function.comp_apply, hcleared]
    cases hl : bySymbol.lookup row.symbol with
    | none =>
      have hmem := lookup_eq_none_iff.mp hl
      rw [PositionRow.settled, PositionRow.refreshed, hl]
      by_cases hq : row.quantity = 0
      · rw [PositionRow.isCleared, decide_eq_false fun h => h.2 hq, if_neg Bool.false_ne_true, ← hq]
      · rw [PositionRow.isCleared, decide_eq_true ⟨hmem, hq⟩, if_pos rfl]
    | some snapshot =>
      have hmem : ¬ (row.symbol ∉ bySymbol.map Prod.fst ∧ row.quantity ≠ 0) := fun h => by
        rw [lookup_eq_none_iff.mpr h.1] at hl
        exact absurd hl (by simp)
      rw [PositionRow.isCleared, decide_eq_false hmem, if_neg Bool.false_ne_true,
        PositionRow.settled, PositionRow.refreshed, hl]
  · exact List.countP_congr fun row _ => by rw [Function.comp_apply, hcleared]

end Loops

section Sync

variable (table : PositionsTable F) (reported : List (Position F))

/-- The rows after the sync: the old ones, settled, and one for each symbol the table lacks. -/
def syncedRows : List (PositionRow F) :=
  table.rows.map (PositionRow.settled (reportedBySymbol reported)) ++
    (unknown (reportedBySymbol reported) table.rows).map newPositionRow

omit [PyFloat F] in
theorem lookup_reportedBySymbol (symbol : String) :
    (reportedBySymbol reported).lookup symbol =
      (reported.filter fun p => p.symbol = symbol).getLast? := by
  rw [reportedBySymbol, lookup_ofPairs, lastValue, List.filter_map, List.getLast?_map,
    Option.map_map]
  exact Option.map_id'

omit [PyFloat F] in
variable {reported} in
theorem symbol_of_lookup {symbol : String} {p : Position F}
    (h : (reportedBySymbol reported).lookup symbol = some p) : p.symbol = symbol := by
  rw [lookup_reportedBySymbol] at h
  simpa using (List.mem_filter.mp (List.mem_of_getLast? h)).2

omit [PyFloat F] in
theorem reportedBySymbol_nodup : ((reportedBySymbol reported).map Prod.fst).Nodup :=
  ofPairs_nodup _

omit [PyFloat F] in
variable {reported} in
theorem mem_unknown {rows : List (PositionRow F)} {p : Position F} :
    p ∈ unknown (reportedBySymbol reported) rows ↔
      (reportedBySymbol reported).lookup p.symbol = some p ∧
        p.symbol ∉ rows.map PositionRow.symbol := by
  rw [unknown, List.mem_map]
  constructor
  · rintro ⟨⟨symbol, q⟩, hmem, rfl⟩
    obtain ⟨hd, hrows⟩ := List.mem_filter.mp hmem
    have hl := (mem_iff_lookup (reportedBySymbol_nodup reported)).mp hd
    obtain rfl := symbol_of_lookup hl
    exact ⟨hl, of_decide_eq_true hrows⟩
  · rintro ⟨hl, hrows⟩
    refine ⟨(p.symbol, p), List.mem_filter.mpr ⟨?_, decide_eq_true hrows⟩, rfl⟩
    exact (mem_iff_lookup (reportedBySymbol_nodup reported)).mpr hl

omit [PyFloat F] in
theorem unknown_symbols_nodup (rows : List (PositionRow F)) :
    ((unknown (reportedBySymbol reported) rows).map Position.symbol).Nodup := by
  have hkeys : ∀ e ∈ reportedBySymbol reported, e.2.symbol = e.1 := fun e he =>
    symbol_of_lookup ((mem_iff_lookup (reportedBySymbol_nodup reported)).mp he)
  rw [unknown, List.map_map]
  have hsame : ((reportedBySymbol reported).filter fun e =>
      e.1 ∉ rows.map PositionRow.symbol).map (Position.symbol ∘ Prod.snd) =
      ((reportedBySymbol reported).filter fun e =>
        e.1 ∉ rows.map PositionRow.symbol).map Prod.fst :=
    List.map_congr_left fun e he => hkeys e (List.mem_filter.mp he).1
  rw [hsame]
  exact (List.filter_sublist.map Prod.fst).nodup (reportedBySymbol_nodup reported)

theorem syncedRows_nodup : ((syncedRows table reported).map PositionRow.symbol).Nodup := by
  have hnew : ((unknown (reportedBySymbol reported) table.rows).map newPositionRow).map
      PositionRow.symbol =
      (unknown (reportedBySymbol reported) table.rows).map Position.symbol := by
    rw [List.map_map]
    rfl
  rw [syncedRows, List.map_append, map_settled_symbol, hnew]
  refine List.Nodup.append table.symbols_nodup (unknown_symbols_nodup reported table.rows) ?_
  intro symbol hold hunknown
  obtain ⟨p, hp, rfl⟩ := List.mem_map.mp hunknown
  exact (mem_unknown.mp hp).2 hold

/-- What the two loops leave in the session. -/
theorem loops_eq :
    let upserts := (reportedBySymbol reported).foldl Upserts.upsert
      { existing := table.rows, added := [], inserted := 0, updated := 0 }
    let cleared := clearUnreported (reportedBySymbol reported) upserts.existing
    cleared.1 ++ upserts.added = syncedRows table reported ∧
      upserts.inserted = (unknown (reportedBySymbol reported) table.rows).length ∧
      upserts.updated = table.rows.countP (PositionRow.isUpdated (reportedBySymbol reported)) ∧
      cleared.2 = table.rows.countP (PositionRow.isCleared (reportedBySymbol reported)) := by
  rw [foldl_upsert (reportedBySymbol_nodup reported) _ table.symbols_nodup]
  simp only [clearUnreported_refreshed, List.nil_append, Nat.zero_add, syncedRows, and_self]

/-- `sync_positions` on a reported list. A flush that raises takes the whole sync back. -/
def syncPositions : Except PyExc (PositionsTable F × SyncReport) :=
  let bySymbol := reportedBySymbol reported
  let upserts := bySymbol.foldl Upserts.upsert
    { existing := table.rows, added := [], inserted := 0, updated := 0 }
  let cleared := clearUnreported bySymbol upserts.existing
  match h : flushPositions upserts.added cleared.1 with
  | some e => .error e
  | none => .ok
    ({ rows := cleared.1 ++ upserts.added
       symbols_nodup := (loops_eq table reported).1 ▸ syncedRows_nodup table reported
       rows_bound := flushPositions_eq_none_iff.mp h },
     { inserted := upserts.inserted, updated := upserts.updated, cleared := cleared.2 })

variable {table reported} {table' : PositionsTable F} {report : SyncReport}

/-- The sync returns exactly if every row it leaves can be bound. -/
theorem syncPositions_ok_iff :
    syncPositions table reported = .ok (table', report) ↔
      (∀ row ∈ syncedRows table reported, row.bindError = none) ∧
      table'.rows = syncedRows table reported ∧
      report = {
        inserted := (unknown (reportedBySymbol reported) table.rows).length
        updated := table.rows.countP (PositionRow.isUpdated (reportedBySymbol reported))
        cleared := table.rows.countP (PositionRow.isCleared (reportedBySymbol reported)) } := by
  obtain ⟨hrows, hinserted, hupdated, hcleared⟩ := loops_eq table reported
  rw [← hrows, ← hinserted, ← hupdated, ← hcleared, ← flushPositions_eq_none_iff]
  unfold syncPositions
  dsimp only
  split
  next e he => simp [he]
  next hnone =>
    rw [Except.ok.injEq, Prod.mk.injEq, PositionsTable.ext_iff]
    simp only [hnone, true_and]
    exact and_congr eq_comm eq_comm

theorem syncPositions_error {e : PyExc} (h : syncPositions table reported = .error e) :
    ∃ row ∈ syncedRows table reported, row.bindError = some e := by
  rw [← (loops_eq table reported).1]
  unfold syncPositions at h
  dsimp only at h
  split at h
  next e' he =>
    obtain rfl := Except.error.inj h
    exact flushPositions_eq_some he
  next => exact absurd h (by simp)

end Sync

section Bound

theorem PositionRow.bindError_eq_none_iff {row : PositionRow F} :
    row.bindError = none ↔ (-2 ^ 63 ≤ row.quantity ∧ row.quantity < 2 ^ 63) ∧
      PyFloat.eq row.avgPriceUsd row.avgPriceUsd = true := by
  unfold bindError
  split_ifs with hq hp
  · refine iff_of_false (by simp) fun h => ?_
    omega
  · exact iff_of_true rfl ⟨by omega, hp⟩
  · exact iff_of_false (by simp) fun h => hp h.2

omit [PyFloat F] in
/-- The last entry that the report has for a symbol. -/
def lastReported (reported : List (Position F)) (symbol : String) : Option (Position F) :=
  (reported.filter fun p => p.symbol = symbol).getLast?

omit [PyFloat F] in
/-- SQLite integers have 64 bits. -/
def Position.Fits (p : Position F) : Prop := -2 ^ 63 ≤ p.quantity ∧ p.quantity < 2 ^ 63

variable {table : PositionsTable F} {reported : List (Position F)}

omit [PyFloat F] in
theorem lookup_eq_lastReported (symbol : String) :
    (reportedBySymbol reported).lookup symbol = lastReported reported symbol :=
  lookup_reportedBySymbol reported symbol

omit [PyFloat F] in
theorem mem_of_lastReported {symbol : String} {p : Position F}
    (h : lastReported reported symbol = some p) : p ∈ reported ∧ p.symbol = symbol := by
  simpa using List.mem_filter.mp (List.mem_of_getLast? h)

omit [PyFloat F] in
theorem lastReported_eq_none_iff {symbol : String} :
    lastReported reported symbol = none ↔ symbol ∉ reported.map Position.symbol := by
  rw [lastReported, List.getLast?_eq_none_iff, List.filter_eq_nil_iff]
  simp

omit [PyFloat F] in
theorem mem_keys_iff {symbol : String} :
    symbol ∈ (reportedBySymbol reported).map Prod.fst ↔ symbol ∈ reported.map Position.symbol := by
  rw [← not_iff_not, ← lookup_eq_none_iff, lookup_reportedBySymbol]
  exact lastReported_eq_none_iff

theorem PositionRow.differs_write (row : PositionRow F) {p : Position F}
    (hp : PyFloat.eq p.avgPriceUsd p.avgPriceUsd = true) : (row.write p).differs p = false := by
  simp [differs, write, hp]

variable (table) in
/-- Every reported symbol has a row after the sync: the last entry, unless the row was equal. -/
theorem exists_synced {symbol : String} {p : Position F}
    (h : lastReported reported symbol = some p) :
    ∃ row ∈ syncedRows table reported, row.symbol = symbol ∧
      (row.quantity = p.quantity ∧ row.avgPriceUsd = p.avgPriceUsd ∨ row.differs p = false) := by
  have hl : (reportedBySymbol reported).lookup symbol = some p :=
    (lookup_eq_lastReported _).trans h
  obtain rfl := symbol_of_lookup hl
  by_cases hrow : p.symbol ∈ table.rows.map PositionRow.symbol
  · obtain ⟨row, hmem, hs⟩ := List.mem_map.mp hrow
    refine ⟨row.settled (reportedBySymbol reported), List.mem_append_left _
      (List.mem_map_of_mem hmem), by rw [PositionRow.settled_symbol, hs], ?_⟩
    rw [PositionRow.settled, hs, hl]
    dsimp only
    split_ifs with hd
    · exact Or.inl ⟨rfl, rfl⟩
    · exact Or.inr (Bool.eq_false_iff.mpr hd)
  · refine ⟨newPositionRow p, List.mem_append_right _ (List.mem_map_of_mem ?_), rfl,
      Or.inl ⟨rfl, rfl⟩⟩
    exact mem_unknown.mpr ⟨hl, hrow⟩

theorem PositionRow.quantity_of_not_differs {row : PositionRow F} {p : Position F}
    (h : row.differs p = false) :
    row.quantity = p.quantity ∧ PyFloat.eq row.avgPriceUsd p.avgPriceUsd = true := by
  simpa [differs] using h

/-- A row after the sync is the last entry of its symbol, a row that was equal to it, or a row
that the report does not name. -/
theorem syncedRows_cases {row : PositionRow F} (h : row ∈ syncedRows table reported) :
    (∃ p, lastReported reported row.symbol = some p ∧
      (row.quantity = p.quantity ∧ row.avgPriceUsd = p.avgPriceUsd ∨
        row ∈ table.rows ∧ row.differs p = false)) ∨
    lastReported reported row.symbol = none ∧ row.quantity = 0 ∧
      ∃ old ∈ table.rows, old.symbol = row.symbol ∧ row.avgPriceUsd = old.avgPriceUsd := by
  rcases List.mem_append.mp h with hold | hnew
  · obtain ⟨old, hmem, rfl⟩ := List.mem_map.mp hold
    rw [PositionRow.settled_symbol, ← lookup_eq_lastReported]
    cases hl : (reportedBySymbol reported).lookup old.symbol with
    | none =>
      refine Or.inr ⟨rfl, ?_, old, hmem, rfl, ?_⟩ <;> rw [PositionRow.settled, hl]
    | some p =>
      refine Or.inl ⟨p, rfl, ?_⟩
      rw [PositionRow.settled, hl]
      dsimp only
      split_ifs with hd
      · exact Or.inl ⟨rfl, rfl⟩
      · exact Or.inr ⟨hmem, Bool.eq_false_iff.mpr hd⟩
  · obtain ⟨p, hp, rfl⟩ := List.mem_map.mp hnew
    refine Or.inl ⟨p, ?_, Or.inl ⟨rfl, rfl⟩⟩
    exact (lookup_eq_lastReported _).symm.trans (mem_unknown.mp hp).1

/-- The values that the report leaves last decide whether the sync can be flushed. -/
theorem synced_bound (hlast : ∀ symbol p, lastReported reported symbol = some p →
      p.Fits ∧ PyFloat.eq p.avgPriceUsd p.avgPriceUsd = true)
    {row : PositionRow F} (h : row ∈ syncedRows table reported) : row.bindError = none := by
  rcases syncedRows_cases h with ⟨p, hp, hwritten | hsame⟩ | ⟨-, hq, old, hold, -, ha⟩
  · obtain ⟨hfits, hprice⟩ := hlast _ p hp
    rw [PositionRow.bindError_eq_none_iff, hwritten.1, hwritten.2]
    exact ⟨hfits, hprice⟩
  · exact table.rows_bound row hsame.1
  · have hbound := PositionRow.bindError_eq_none_iff.mp (table.rows_bound old hold)
    rw [PositionRow.bindError_eq_none_iff, hq, ha]
    exact ⟨by norm_num, hbound.2⟩

theorem fits_of_synced_bound (h : ∀ row ∈ syncedRows table reported, row.bindError = none)
    {symbol : String} {p : Position F} (hp : lastReported reported symbol = some p) :
    p.Fits := by
  obtain ⟨row, hmem, -, hrow⟩ := exists_synced table hp
  have hq : row.quantity = p.quantity := by
    rcases hrow with hrow | hrow
    · exact hrow.1
    · exact (PositionRow.quantity_of_not_differs hrow).1
  have hbound := (PositionRow.bindError_eq_none_iff.mp (h row hmem)).1
  rwa [hq] at hbound

theorem price_of_synced_bound [LawfulPyFloat F]
    (h : ∀ row ∈ syncedRows table reported, row.bindError = none)
    {symbol : String} {p : Position F} (hp : lastReported reported symbol = some p) :
    PyFloat.eq p.avgPriceUsd p.avgPriceUsd = true := by
  obtain ⟨row, hmem, -, hrow⟩ := exists_synced table hp
  rcases hrow with hrow | hrow
  · have hbound := (PositionRow.bindError_eq_none_iff.mp (h row hmem)).2
    rwa [hrow.2] at hbound
  · exact LawfulPyFloat.eq_self_of_eq _ _ (PositionRow.quantity_of_not_differs hrow).2

end Bound

section Mirror

omit [PyFloat F] in
/-- The units that the raw list holds of a symbol. -/
def reportedQuantity (reported : List (Position F)) (symbol : String) : ℤ :=
  ((reported.filter fun p => p.symbol = symbol).map Position.quantity).sum

/-- The quantity that the table holds of a symbol; a symbol without a row has none. -/
def PositionsTable.localQuantity (table : PositionsTable F) (symbol : String) : ℤ :=
  ((table.rows.find? fun row => row.symbol = symbol).map PositionRow.quantity).getD 0

variable {table table' : PositionsTable F} {reported : List (Position F)} {report : SyncReport}

theorem PositionsTable.localQuantity_of_mem {row : PositionRow F} (h : row ∈ table.rows) :
    table.localQuantity row.symbol = row.quantity := by
  cases hfind : table.rows.find? fun r => r.symbol = row.symbol with
  | none => simpa using List.find?_eq_none.mp hfind row h
  | some r =>
    have hs : r.symbol = row.symbol := by simpa using List.find?_some hfind
    have hr := eq_of_symbol_eq table.symbols_nodup (List.mem_of_find?_eq_some hfind) h hs
    rw [localQuantity, hfind, hr]
    rfl

/-- After a sync the table holds the last quantity reported for each symbol. -/
theorem localQuantity_of_ok (h : syncPositions table reported = .ok (table', report))
    (symbol : String) : table'.localQuantity symbol =
      ((lastReported reported symbol).map Position.quantity).getD 0 := by
  obtain ⟨-, hrows, -⟩ := syncPositions_ok_iff.mp h
  cases hlast : lastReported reported symbol with
  | some p =>
    obtain ⟨row, hmem, rfl, hrow⟩ := exists_synced table hlast
    rw [PositionsTable.localQuantity_of_mem (hrows ▸ hmem)]
    rcases hrow with hrow | hrow
    · exact hrow.1
    · exact (PositionRow.quantity_of_not_differs hrow).1
  | none =>
    cases hfind : table'.rows.find? fun row => row.symbol = symbol with
    | none =>
      rw [PositionsTable.localQuantity, hfind]
      rfl
    | some row =>
      have hs : row.symbol = symbol := by simpa using List.find?_some hfind
      have hmem : row ∈ syncedRows table reported := hrows ▸ List.mem_of_find?_eq_some hfind
      rw [PositionsTable.localQuantity, hfind]
      rcases syncedRows_cases hmem with ⟨p, hp, -⟩ | ⟨-, hq, -⟩
      · rw [hs, hlast] at hp
        exact absurd hp (by simp)
      · exact hq

omit [PyFloat F] in
theorem reportedQuantity_of_none {symbol : String} (h : lastReported reported symbol = none) :
    reportedQuantity reported symbol = 0 := by
  rw [reportedQuantity, List.getLast?_eq_none_iff.mp h]
  rfl

/-- The sync returns with the sum of the reported quantities in every symbol's row exactly if the
last entry of each symbol has that sum for its quantity and can be stored. -/
theorem sync_positions_mirrors_iff [LawfulPyFloat F] (table : PositionsTable F)
    (reported : List (Position F)) :
    (∃ table' report, syncPositions table reported = .ok (table', report) ∧
      ∀ symbol, table'.localQuantity symbol = reportedQuantity reported symbol) ↔
    ∀ symbol p, lastReported reported symbol = some p →
      p.quantity = reportedQuantity reported symbol ∧ p.Fits ∧
        PyFloat.eq p.avgPriceUsd p.avgPriceUsd = true := by
  constructor
  · rintro ⟨table', report, hok, hmirror⟩ symbol p hp
    obtain ⟨hbound, -, -⟩ := syncPositions_ok_iff.mp hok
    refine ⟨?_, fits_of_synced_bound hbound hp, price_of_synced_bound hbound hp⟩
    rw [← hmirror symbol, localQuantity_of_ok hok, hp]
    rfl
  · intro hlast
    have hbound : ∀ row ∈ syncedRows table reported, row.bindError = none := fun row hrow =>
      synced_bound (fun symbol p hp => (hlast symbol p hp).2) hrow
    refine ⟨⟨_, syncedRows_nodup table reported, hbound⟩, _,
      syncPositions_ok_iff.mpr ⟨hbound, rfl, rfl⟩, fun symbol => ?_⟩
    rw [localQuantity_of_ok (syncPositions_ok_iff.mpr ⟨hbound, rfl, rfl⟩)]
    cases hp : lastReported reported symbol with
    | none => exact (reportedQuantity_of_none hp).symm
    | some p => exact (hlast symbol p hp).1

def emptyPositions : PositionsTable ℚ := ⟨[], List.nodup_nil, fun _ h => absurd h List.not_mem_nil⟩

/-- Ten shares and five option contracts on one symbol are mirrored as five units. -/
theorem shared_symbol_not_mirrored :
    let reported : List (Position ℚ) := [⟨"AAPL", 10, 190⟩, ⟨"AAPL", 5, 2⟩]
    ¬ ∃ table' report, syncPositions emptyPositions reported = .ok (table', report) ∧
      ∀ symbol, table'.localQuantity symbol = reportedQuantity reported symbol := by
  rintro reported ⟨table', report, hok, hmirror⟩
  have hlocal : table'.localQuantity "AAPL" = 5 := localQuantity_of_ok hok "AAPL"
  have hsum : reportedQuantity reported "AAPL" = 15 := by decide +kernel
  have h := hmirror "AAPL"
  rw [hlocal, hsum] at h
  exact absurd h (by decide)

def storedPositions : PositionsTable ℚ where
  rows := [⟨"AAPL", 7, 100, 0⟩, ⟨"MSFT", 3, 50, 2⟩]
  symbols_nodup := by decide +kernel
  rows_bound := by decide +kernel

/-- The first entry of the symbol adds nothing to the second, and the other symbol is cleared. -/
theorem sync_positions_mirrors_iff_twice :
    let reported : List (Position ℚ) := [⟨"AAPL", 0, 180⟩, ⟨"AAPL", 10, 190⟩]
    ∃ table' report, syncPositions storedPositions reported = .ok (table', report) ∧
      ∀ symbol, table'.localQuantity symbol = reportedQuantity reported symbol := by
  intro reported
  refine (sync_positions_mirrors_iff storedPositions reported).mpr fun symbol p hp => ?_
  obtain ⟨hmem, rfl⟩ := mem_of_lastReported hp
  have hlast : lastReported reported "AAPL" = some ⟨"AAPL", 10, 190⟩ := by decide +kernel
  have hp' : p = ⟨"AAPL", 10, 190⟩ := by
    rcases List.mem_pair.mp hmem with rfl | rfl
    · exact Option.some.inj (hp.symm.trans hlast)
    · rfl
  subst hp'
  exact ⟨by decide +kernel, ⟨by norm_num, by norm_num⟩, by decide +kernel⟩

end Mirror

section Frame

variable {table table' : PositionsTable F} {reported : List (Position F)} {report : SyncReport}

/-- What a sync may do to a table, and what its report counts. -/
structure SyncFrame [DecidableEq F] (table : PositionsTable F) (reported : List (Position F))
    (table' : PositionsTable F) (report : SyncReport) : Prop where
  kept : ∀ row ∈ table.rows, ∃ row' ∈ table'.rows, row'.symbol = row.symbol ∧
    row'.realizedPnlUsd = row.realizedPnlUsd ∧
    (row.symbol ∉ reported.map Position.symbol →
      row'.quantity = 0 ∧ row'.avgPriceUsd = row.avgPriceUsd)
  symbols : (table'.rows.map PositionRow.symbol).Nodup
  inserted : report.inserted =
    table'.rows.countP fun row => row.symbol ∉ table.rows.map PositionRow.symbol
  updated : report.updated = table.rows.countP fun row =>
    row.symbol ∈ reported.map Position.symbol ∧ row ∉ table'.rows
  cleared : report.cleared = table.rows.countP fun row =>
    row.symbol ∉ reported.map Position.symbol ∧ row.quantity ≠ 0

theorem PositionRow.settled_realized (bySymbol : List (String × Position F))
    (row : PositionRow F) : (row.settled bySymbol).realizedPnlUsd = row.realizedPnlUsd := by
  unfold settled
  split
  · rfl
  · split_ifs <;> rfl

theorem settled_mem {row : PositionRow F} (h : row ∈ table.rows) :
    row.settled (reportedBySymbol reported) ∈ syncedRows table reported :=
  List.mem_append_left _ (List.mem_map_of_mem h)

theorem settled_of_unreported {row : PositionRow F}
    (h : row.symbol ∉ reported.map Position.symbol) :
    row.settled (reportedBySymbol reported) = { row with quantity := 0 } := by
  have hnone : (reportedBySymbol reported).lookup row.symbol = none :=
    lookup_eq_none_iff.mpr fun hmem => h (mem_keys_iff.mp hmem)
  rw [PositionRow.settled, hnone]

/-- A row is counted as updated exactly if the report names it and the sync replaced it. -/
theorem isUpdated_iff (hprices : ∀ p ∈ reported, PyFloat.eq p.avgPriceUsd p.avgPriceUsd = true)
    {row : PositionRow F} (h : row ∈ table.rows) :
    row.isUpdated (reportedBySymbol reported) = true ↔
      row.symbol ∈ reported.map Position.symbol ∧ row ∉ syncedRows table reported := by
  have hsettled : row ∈ syncedRows table reported →
      row.settled (reportedBySymbol reported) = row := fun hmem =>
    eq_of_symbol_eq (syncedRows_nodup table reported) (settled_mem h) hmem row.settled_symbol
  cases hl : (reportedBySymbol reported).lookup row.symbol with
  | none =>
    have hnot : row.symbol ∉ reported.map Position.symbol := fun hmem =>
      lookup_eq_none_iff.mp hl (mem_keys_iff.mpr hmem)
    simp [PositionRow.isUpdated, hl, hnot]
  | some p =>
    have hlast : lastReported reported row.symbol = some p :=
      (lookup_eq_lastReported _).symm.trans hl
    obtain ⟨hp, hs⟩ := mem_of_lastReported hlast
    have hreported : row.symbol ∈ reported.map Position.symbol := hs ▸ List.mem_map_of_mem hp
    have hiff : row.isUpdated (reportedBySymbol reported) = row.differs p := by
      rw [PositionRow.isUpdated, hl]
    rw [hiff, and_iff_right hreported]
    constructor
    · intro hd hmem
      have hwrite : row.write p = row := by
        have hrow := hsettled hmem
        rw [PositionRow.settled, hl] at hrow
        exact (if_pos hd).symm.trans hrow
      have hno := row.differs_write (hprices p hp)
      rw [hwrite, hd] at hno
      exact absurd hno (by simp)
    · intro hmem
      by_contra hd
      have hrow : row.settled (reportedBySymbol reported) = row := by
        rw [PositionRow.settled, hl]
        exact if_neg hd
      exact hmem (hrow ▸ settled_mem h)

theorem countP_inserted :
    (syncedRows table reported).countP (fun row => row.symbol ∉ table.rows.map PositionRow.symbol) =
      (unknown (reportedBySymbol reported) table.rows).length := by
  have hold : (table.rows.map (PositionRow.settled (reportedBySymbol reported))).countP
      (fun row => row.symbol ∉ table.rows.map PositionRow.symbol) = 0 := by
    refine List.countP_eq_zero.mpr fun row hrow => ?_
    obtain ⟨old, hmem, rfl⟩ := List.mem_map.mp hrow
    have hs : old.symbol ∈ table.rows.map PositionRow.symbol := List.mem_map_of_mem hmem
    simpa using hs
  have hnew : ((unknown (reportedBySymbol reported) table.rows).map newPositionRow).countP
      (fun row => row.symbol ∉ table.rows.map PositionRow.symbol) =
      ((unknown (reportedBySymbol reported) table.rows).map newPositionRow).length := by
    refine List.countP_eq_length.mpr fun row hrow => ?_
    obtain ⟨p, hp, rfl⟩ := List.mem_map.mp hrow
    exact decide_eq_true (mem_unknown.mp hp).2
  rw [syncedRows, List.countP_append, hold, hnew, List.length_map, Nat.zero_add]

theorem syncFrame_of_ok [DecidableEq F]
    (hprices : ∀ p ∈ reported, PyFloat.eq p.avgPriceUsd p.avgPriceUsd = true)
    (h : syncPositions table reported = .ok (table', report)) :
    SyncFrame table reported table' report := by
  obtain ⟨-, hrows, rfl⟩ := syncPositions_ok_iff.mp h
  refine ⟨fun row hrow => ?_, table'.symbols_nodup, ?_, ?_, ?_⟩
  · refine ⟨row.settled (reportedBySymbol reported), hrows ▸ settled_mem hrow,
      row.settled_symbol, row.settled_realized _, fun hnot => ?_⟩
    rw [settled_of_unreported hnot]
    exact ⟨rfl, rfl⟩
  · rw [hrows]
    exact countP_inserted.symm
  · refine List.countP_congr fun row hrow => ?_
    rw [hrows, decide_eq_true_eq]
    exact isUpdated_iff hprices hrow
  · refine List.countP_congr fun row _ => ?_
    rw [PositionRow.isCleared, decide_eq_true_eq, decide_eq_true_eq, mem_keys_iff]

/-- A row that a sync leaves is one that a sync with the same report leaves alone. -/
theorem quiet_of_synced (hprices : ∀ p ∈ reported, PyFloat.eq p.avgPriceUsd p.avgPriceUsd = true)
    {row : PositionRow F} (h : row ∈ syncedRows table reported) :
    row.settled (reportedBySymbol reported) = row ∧
      row.isUpdated (reportedBySymbol reported) = false ∧
      row.isCleared (reportedBySymbol reported) = false := by
  rcases syncedRows_cases h with ⟨p, hp, hrow⟩ | ⟨hnone, hq, -⟩
  · have hl : (reportedBySymbol reported).lookup row.symbol = some p :=
      (lookup_eq_lastReported _).trans hp
    obtain ⟨hmem, hs⟩ := mem_of_lastReported hp
    have hsame : row.differs p = false := by
      rcases hrow with ⟨hq, ha⟩ | hrow
      · simp [PositionRow.differs, hq, ha, hprices p hmem]
      · exact hrow.2
    have hkey : row.symbol ∈ (reportedBySymbol reported).map Prod.fst :=
      mem_keys_iff.mpr (hs ▸ List.mem_map_of_mem hmem)
    refine ⟨?_, ?_, ?_⟩
    · rw [PositionRow.settled, hl]
      exact if_neg (Bool.eq_false_iff.mp hsame)
    · rw [PositionRow.isUpdated, hl]
      exact hsame
    · exact decide_eq_false fun hc => hc.1 hkey
  · have hl : (reportedBySymbol reported).lookup row.symbol = none :=
      (lookup_eq_lastReported _).trans hnone
    refine ⟨?_, ?_, decide_eq_false fun hc => hc.2 hq⟩
    · rw [PositionRow.settled, hl]
      exact congrArg (fun q => { row with quantity := q }) hq.symm
    · rw [PositionRow.isUpdated, hl]

/-- A second sync with the same report has nothing to do. -/
theorem syncPositions_again
    (hprices : ∀ p ∈ reported, PyFloat.eq p.avgPriceUsd p.avgPriceUsd = true)
    (h : syncPositions table reported = .ok (table', report)) :
    syncPositions table' reported = .ok (table', ⟨0, 0, 0⟩) := by
  obtain ⟨hbound, hrows, -⟩ := syncPositions_ok_iff.mp h
  have hquiet : ∀ row ∈ table'.rows, _ := fun row hrow =>
    quiet_of_synced hprices (hrows ▸ hrow)
  have hunknown : unknown (reportedBySymbol reported) table'.rows = [] := by
    refine List.eq_nil_iff_forall_not_mem.mpr fun p hp => ?_
    obtain ⟨hl, hnot⟩ := mem_unknown.mp hp
    rw [lookup_eq_lastReported] at hl
    obtain ⟨row, hmem, hs, -⟩ := exists_synced table hl
    exact hnot (hs ▸ List.mem_map_of_mem (hrows ▸ hmem))
  have hsame : syncedRows table' reported = table'.rows := by
    rw [syncedRows, hunknown, List.map_nil, List.append_nil]
    exact (List.map_congr_left fun row hrow => (hquiet row hrow).1).trans (List.map_id' _)
  have hupdated : table'.rows.countP (PositionRow.isUpdated (reportedBySymbol reported)) = 0 :=
    List.countP_eq_zero.mpr fun row hrow => Bool.eq_false_iff.mp (hquiet row hrow).2.1
  have hcleared : table'.rows.countP (PositionRow.isCleared (reportedBySymbol reported)) = 0 :=
    List.countP_eq_zero.mpr fun row hrow => Bool.eq_false_iff.mp (hquiet row hrow).2.2
  refine syncPositions_ok_iff.mpr ⟨hsame ▸ table'.rows_bound, hsame.symm, ?_⟩
  rw [hunknown, hupdated, hcleared]
  rfl

/-- With prices that are numbers, a sync of quantities that SQLite can hold returns: it deletes no
row, leaves what is not the report's business, counts what it did, and a second one does nothing.
If the last quantity of a symbol is beyond 64 bits, the flush raises `OverflowError`. -/
theorem sync_positions_frame [DecidableEq F] (table : PositionsTable F)
    (reported : List (Position F))
    (hprices : ∀ p ∈ reported, PyFloat.eq p.avgPriceUsd p.avgPriceUsd = true) :
    ((∀ symbol p, lastReported reported symbol = some p → p.Fits) →
      ∃ table' report, syncPositions table reported = .ok (table', report) ∧
        SyncFrame table reported table' report ∧
        syncPositions table' reported = .ok (table', ⟨0, 0, 0⟩)) ∧
    ((∃ symbol p, lastReported reported symbol = some p ∧ ¬ p.Fits) →
      syncPositions table reported = .error .overflowError) := by
  have hlast : ∀ symbol p, lastReported reported symbol = some p →
      PyFloat.eq p.avgPriceUsd p.avgPriceUsd = true := fun symbol p hp =>
    hprices p (mem_of_lastReported hp).1
  constructor
  · intro hfits
    have hbound : ∀ row ∈ syncedRows table reported, row.bindError = none := fun row hrow =>
      synced_bound (fun symbol p hp => ⟨hfits symbol p hp, hlast symbol p hp⟩) hrow
    have hok : syncPositions table reported =
        .ok (⟨syncedRows table reported, syncedRows_nodup table reported, hbound⟩, _) :=
      syncPositions_ok_iff.mpr ⟨hbound, rfl, rfl⟩
    exact ⟨_, _, hok, syncFrame_of_ok hprices hok, syncPositions_again hprices hok⟩
  · rintro ⟨symbol, p, hp, hbig⟩
    cases h : syncPositions table reported with
    | ok result =>
      exact absurd (fits_of_synced_bound (syncPositions_ok_iff.mp h).1 hp) hbig
    | error e =>
      obtain ⟨row, hmem, he⟩ := syncPositions_error h
      have hprice : PyFloat.eq row.avgPriceUsd row.avgPriceUsd = true := by
        rcases syncedRows_cases hmem with ⟨q, hq, hwritten | hsame⟩ | ⟨-, -, old, hold, -, ha⟩
        · rw [hwritten.2]
          exact hlast _ q hq
        · exact (PositionRow.bindError_eq_none_iff.mp (table.rows_bound row hsame.1)).2
        · rw [ha]
          exact (PositionRow.bindError_eq_none_iff.mp (table.rows_bound old hold)).2
      simp only [PositionRow.bindError, hprice, if_true] at he
      split_ifs at he
      rw [Option.some.inj he]

/-- A position of 2 ^ 63 units at a price of 190 leaves the sync with an exception. -/
theorem quantity_beyond_int64_raises :
    let reported : List (Position ℚ) := [⟨"AAPL", 2 ^ 63, 190⟩]
    (∀ p ∈ reported, PyFloat.eq p.avgPriceUsd p.avgPriceUsd = true) ∧
      ¬ ∃ table' report, syncPositions emptyPositions reported = .ok (table', report) := by
  intro reported
  refine ⟨by decide +kernel, ?_⟩
  rintro ⟨table', report, hok⟩
  have hlast : lastReported reported "AAPL" = some ⟨"AAPL", 2 ^ 63, 190⟩ := rfl
  exact absurd (fits_of_synced_bound (syncPositions_ok_iff.mp hok).1 hlast).2 (lt_irrefl _)

/-- One of two rows is reported, with a new price. -/
theorem sync_positions_frame_pair :
    let table : PositionsTable ℚ := ⟨[⟨"AAPL", 3, 180, 7⟩, ⟨"TSLA", 2, 240, 0⟩], by decide,
      by decide +kernel⟩
    ∃ table' report, syncPositions table [⟨"AAPL", 3, 190⟩] = .ok (table', report) ∧
      SyncFrame table [⟨"AAPL", 3, 190⟩] table' report ∧
      syncPositions table' [⟨"AAPL", 3, 190⟩] = .ok (table', ⟨0, 0, 0⟩) := by
  intro table
  refine (sync_positions_frame table [⟨"AAPL", 3, 190⟩] (by decide +kernel)).1 fun symbol p hp => ?_
  obtain ⟨hmem, -⟩ := mem_of_lastReported hp
  obtain rfl := List.mem_singleton.mp hmem
  exact ⟨by norm_num, by norm_num⟩

end Frame

end XSocialTrader
