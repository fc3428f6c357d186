import XSocialTrader.Lib.Separator
import XSocialTrader.Models.Decisions
import XSocialTrader.Risk.Rules
import XSocialTrader.Services.Aliases

/-! The idempotency key as a function of the tweet, the ticker and the strategy. It is two joins
at `:` in two modules; the first one splits again because tweet ids are free of `:`, and the
second one need not. -/
namespace XSocialTrader

variable {text : UnicodeText}

/-- An alias ticker in upper case, or one to five letters. -/
def ResolvedTicker (text : UnicodeText) (ticker : String) : Prop :=
  (∃ s, ticker = text.upper s) ∨ isTickerText ticker = true

/-- All that `resolve_tickers` returns is of that kind. -/
theorem resolveTickers_resolved {aliases : List AliasRow} {mentions : List String}
    {ticker : String} (h : ticker ∈ resolveTickers text aliases mentions) :
    ResolvedTicker text ticker := by
  unfold resolveTickers at h
  dsimp only at h
  split_ifs at h
  · exact absurd h List.not_mem_nil
  · rw [List.mem_insertionSort, List.mem_dedup, List.mem_filterMap] at h
    obtain ⟨raw, -, hraw⟩ := h
    unfold resolveMention at hraw
    split at hraw
    · exact Or.inl ⟨_, (Option.some.inj hraw).symm⟩
    · split_ifs at hraw
      exact Or.inl ⟨_, (Option.some.inj hraw).symm⟩

/-- Where an order comes from. -/
structure OrderSource (text : UnicodeText) where
  tweetId : String
  ticker : String
  strategyId : String
  tweetId_noColon : ':' ∉ tweetId.toList
  ticker_resolved : ResolvedTicker text ticker
  strategyId_length : 1 ≤ strategyId.length ∧ strategyId.length ≤ 64

namespace OrderSource

def eventId (v : OrderSource text) : String := buildEventId v.tweetId v.ticker

def key (v : OrderSource text) : String := computeIdempotencyKey v.eventId v.strategyId

theorem key_toList (v : OrderSource text) :
    v.key.toList = v.tweetId.toList ++ ':' :: (v.ticker.toList ++ ':' :: v.strategyId.toList) := by
  simp [key, eventId, computeIdempotencyKey, buildEventId]

theorem key_eq_iff {v w : OrderSource text} : w.key = v.key ↔ w.tweetId = v.tweetId ∧
    w.ticker.toList ++ ':' :: w.strategyId.toList =
      v.ticker.toList ++ ':' :: v.strategyId.toList := by
  rw [← String.toList_inj, key_toList, key_toList,
    Separator.join_inj w.tweetId_noColon v.tweetId_noColon, String.toList_inj]

end OrderSource

/-- No other source has the key of this one, so no order made of sources, on other events than
this one's, makes `IdempotencyRule` or the unique index refuse an order for this event. -/
structure NeverBlocked (F : Type) [PyFloat F] (v : OrderSource text) : Prop where
  injective : ∀ w : OrderSource text, w.key = v.key →
    w.tweetId = v.tweetId ∧ w.ticker = v.ticker ∧ w.strategyId = v.strategyId
  accepted : ∀ (rows : List (OrderRow F)) (p : ProposedOrder F) (ctx : ValidationContext F)
    (receipt : OrderReceipt) (createdAt : UtcDateTime),
    (∀ row ∈ rows, ∃ w : OrderSource text, row.eventId = w.eventId ∧
      row.idempotencyKey = w.key) →
    (∀ row ∈ rows, row.eventId ≠ v.eventId) →
    p.eventId = v.eventId → p.strategyId = v.strategyId →
    ctx.seenEventIds = rows.map OrderRow.eventId →
    ctx.seenIdempotencyKeys = rows.map OrderRow.idempotencyKey →
    idempotencyRule.Holds p ctx ∧
      (orderRow rows p receipt createdAt).violation rows ≠ some "ix_orders_idempotency_key"

/-- The unique index names itself only where a row has the key. -/
theorem violation_ne_index {F : Type} {rows : List (OrderRow F)} {row : OrderRow F}
    (h : ∀ r ∈ rows, r.idempotencyKey ≠ row.idempotencyKey) :
    row.violation rows ≠ some "ix_orders_idempotency_key" := by
  have hany : rows.any (fun r => r.idempotencyKey == row.idempotencyKey) = false := by
    simpa using h
  unfold OrderRow.violation
  cases hc : row.checks.find? fun c => !c.2 with
  | none => simp [hany]
  | some c =>
    have hmem := List.mem_of_find?_eq_some hc
    simp only [OrderRow.checks, List.mem_cons, List.not_mem_nil, or_false] at hmem
    rcases hmem with rfl | rfl | rfl | rfl | rfl <;> simp

variable {F : Type} [PyFloat F] {v : OrderSource text}

/-- If the ticker starts with another one, what is left of it does not fit the strategy id. -/
theorem NeverBlocked.ticker_split (h : NeverBlocked F v) {a b : String}
    (hab : v.ticker = a ++ ":" ++ b) (ha : ResolvedTicker text a) :
    64 < (b ++ ":" ++ v.strategyId).length := by
  by_contra hlen
  have hone : ":".length = 1 := rfl
  have hlength : 1 ≤ (b ++ ":" ++ v.strategyId).length := by
    simp only [String.length_append]
    omega
  let w : OrderSource text := ⟨v.tweetId, a, b ++ ":" ++ v.strategyId, v.tweetId_noColon, ha,
    hlength, not_lt.mp hlen⟩
  have hkey : w.key = v.key := by
    rw [OrderSource.key_eq_iff]
    simp [w, hab]
  have hticker : a.length = v.ticker.length := congrArg String.length (h.injective w hkey).2.1
  simp only [hab, String.length_append] at hticker
  omega

/-- No part of the strategy id goes on with the ticker. -/
theorem NeverBlocked.strategy_split (h : NeverBlocked F v) {a b : String}
    (hab : v.strategyId = a ++ ":" ++ b) (hb : b ≠ "") :
    ¬ ResolvedTicker text (v.ticker ++ ":" ++ a) := by
  intro hticker
  have hlength : 1 ≤ b.length ∧ b.length ≤ 64 := by
    have hv := v.strategyId_length.2
    rw [hab] at hv
    simp only [String.length_append] at hv
    exact ⟨Nat.one_le_iff_ne_zero.mpr (by simpa using hb), by omega⟩
  let w : OrderSource text := ⟨v.tweetId, v.ticker ++ ":" ++ a, b, v.tweetId_noColon, hticker,
    hlength⟩
  have hkey : w.key = v.key := by
    rw [OrderSource.key_eq_iff]
    simp [w, hab]
  have hlen : (v.ticker ++ ":" ++ a).length = v.ticker.length :=
    congrArg String.length (h.injective w hkey).2.1
  simp only [String.length_append] at hlen
  have hone : ":".length = 1 := rfl
  omega

/-- Two sources of one key are one, unless a piece between two `:` changes sides. -/
theorem OrderSource.eq_of_key
    (hticker : ∀ a b, v.ticker = a ++ ":" ++ b → ResolvedTicker text a →
      64 < (b ++ ":" ++ v.strategyId).length)
    (hstrategy : ∀ a b, v.strategyId = a ++ ":" ++ b → b ≠ "" →
      ¬ ResolvedTicker text (v.ticker ++ ":" ++ a)) {w : OrderSource text}
    (hkey : w.key = v.key) :
    w.tweetId = v.tweetId ∧ w.ticker = v.ticker ∧ w.strategyId = v.strategyId := by
  obtain ⟨ht, hjoin⟩ := OrderSource.key_eq_iff.mp hkey
  rcases Separator.join_eq_join_iff.mp hjoin with ⟨hk, hs⟩ | ⟨m, hk, hs⟩ | ⟨m, hk, hs⟩
  · exact ⟨ht, String.toList_inj.mp hk, String.toList_inj.mp hs⟩
  · -- the other ticker goes on into this strategy id
    have hsplit : v.strategyId = String.ofList m ++ ":" ++ w.strategyId := by
      apply String.toList_inj.mp
      simp [hs]
    have hlong : w.ticker = v.ticker ++ ":" ++ String.ofList m := by
      apply String.toList_inj.mp
      simp [hk]
    have hne : w.strategyId ≠ "" := by
      intro he
      have hw := w.strategyId_length.1
      simp [he] at hw
    exact absurd (hlong ▸ w.ticker_resolved) (hstrategy _ _ hsplit hne)
  · -- this ticker goes on into the other strategy id
    have hsplit : v.ticker = w.ticker ++ ":" ++ String.ofList m := by
      apply String.toList_inj.mp
      simp [hk]
    have hlong : w.strategyId = String.ofList m ++ ":" ++ v.strategyId := by
      apply String.toList_inj.mp
      simp [hs]
    have hlen := hticker _ _ hsplit w.ticker_resolved
    rw [← hlong] at hlen
    exact absurd w.strategyId_length.2 (not_le.mpr hlen)

/-- A source that shares its key with no other is not blocked by the orders of others. -/
theorem NeverBlocked.of_injective (hinj : ∀ w : OrderSource text, w.key = v.key →
    w.tweetId = v.tweetId ∧ w.ticker = v.ticker ∧ w.strategyId = v.strategyId) :
    NeverBlocked F v where
  injective := hinj
  accepted rows p ctx receipt createdAt hmade hother hp hs hids hkeys := by
    have hkey : ∀ row ∈ rows, row.idempotencyKey ≠ v.key := by
      intro row hrow heq
      obtain ⟨w, hevent, hwkey⟩ := hmade row hrow
      obtain ⟨ht, hk, -⟩ := hinj w (hwkey.symm.trans heq)
      apply hother row hrow
      rw [hevent, OrderSource.eventId, OrderSource.eventId, ht, hk]
    constructor
    · rw [idempotencyRule_holds_iff, hids, hkeys, hp, hs]
      constructor
      · intro hmem
        obtain ⟨row, hrow, heq⟩ := List.mem_map.mp hmem
        exact hother row hrow heq
      · intro hmem
        obtain ⟨row, hrow, heq⟩ := List.mem_map.mp hmem
        exact hkey row hrow heq
    · have hrowkey : (orderRow rows p receipt createdAt).idempotencyKey = v.key := by
        show computeIdempotencyKey p.eventId p.strategyId = v.key
        rw [hp, hs]
        rfl
      apply violation_ne_index
      rw [hrowkey]
      exact hkey

/-- The key of a source is its own exactly if the ticker has no left part that is a ticker and
leaves a strategy id of at most 64 characters, and no left part of the strategy id makes the
ticker a longer ticker. -/
theorem neverBlocked_iff (F : Type) [PyFloat F] (v : OrderSource text) :
    NeverBlocked F v ↔
      (∀ a b, v.ticker = a ++ ":" ++ b → ResolvedTicker text a →
        64 < (b ++ ":" ++ v.strategyId).length) ∧
      ∀ a b, v.strategyId = a ++ ":" ++ b → b ≠ "" →
        ¬ ResolvedTicker text (v.ticker ++ ":" ++ a) := by
  constructor
  · intro h
    exact ⟨fun _ _ => h.ticker_split, fun _ _ => h.strategy_split⟩
  · rintro ⟨hticker, hstrategy⟩
    exact NeverBlocked.of_injective fun _ => OrderSource.eq_of_key hticker hstrategy

/-- Ticker `A:B` for strategy `C` and ticker `A` for strategy `B:C`. -/
theorem keys_collide : ¬ ∀ v : OrderSource asciiText, NeverBlocked ℚ v := by
  intro h
  have hfree := h ⟨"t1", "A:B", "C", by decide, Or.inl ⟨"a:b", by decide +kernel⟩, by decide⟩
  have hinj := hfree.injective
    ⟨"t1", "A", "B:C", by decide, Or.inl ⟨"a", by decide +kernel⟩, by decide⟩ (by decide)
  exact absurd hinj.2.1 (by decide)

end XSocialTrader
