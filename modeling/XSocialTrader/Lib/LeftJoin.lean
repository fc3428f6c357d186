import Mathlib.Data.List.Nodup
import Mathlib.Data.List.Pairwise

/-! Left outer joins of tables on a key. The key of a row on the left may be missing, and then
it has no match. Over tables without repeated rows a join repeats none, so counting the rows
with a property comes down to finding the one that has it. -/
namespace LeftJoin

variable {α β κ : Type*} [DecidableEq κ]

/-- A row of the left with each of its matches, or alone. -/
def matched (k : α → Option κ) (key : β → κ) (r : List β) (a : α) : List (α × Option β) :=
  match r.filter fun b => k a == some (key b) with
  | [] => [(a, none)]
  | b :: bs => (b :: bs).map fun b => (a, some b)

/-- `l LEFT JOIN r ON key(r) = k(l)`. -/
def leftJoin (k : α → Option κ) (key : β → κ) (l : List α) (r : List β) : List (α × Option β) :=
  l.flatMap (matched k key r)

variable {k : α → Option κ} {key : β → κ} {l : List α} {r : List β}

theorem mem_matched {a : α} {x : α × Option β} : x ∈ matched k key r a ↔ x.1 = a ∧
    ((∃ b ∈ r, k a = some (key b) ∧ x.2 = some b) ∨
      x.2 = none ∧ ∀ b ∈ r, k a ≠ some (key b)) := by
  unfold matched
  cases hr : r.filter fun b => k a == some (key b) with
  | nil =>
    have hnone : ∀ b ∈ r, k a ≠ some (key b) := by simpa using hr
    constructor
    · intro hx
      obtain rfl := List.mem_singleton.mp hx
      exact ⟨rfl, Or.inr ⟨rfl, hnone⟩⟩
    · rintro ⟨rfl, ⟨b, hb, hkey, -⟩ | ⟨hx, -⟩⟩
      · exact absurd hkey (hnone b hb)
      · exact List.mem_singleton.mpr (Prod.ext rfl hx)
  | cons b bs =>
    have hmem : ∀ c, c ∈ b :: bs ↔ c ∈ r ∧ k a = some (key c) := by
      intro c
      rw [← hr]
      simp
    rw [List.mem_map]
    constructor
    · rintro ⟨c, hc, rfl⟩
      exact ⟨rfl, Or.inl ⟨c, ((hmem c).mp hc).1, ((hmem c).mp hc).2, rfl⟩⟩
    · rintro ⟨rfl, ⟨c, hc, hkey, hx⟩ | ⟨-, hnone⟩⟩
      · exact ⟨c, (hmem c).mpr ⟨hc, hkey⟩, Prod.ext rfl hx.symm⟩
      · obtain ⟨hb, hkey⟩ := (hmem b).mp List.mem_cons_self
        exact absurd hkey (hnone b hb)

/-- A joined row holds a row of the left and one of its matches, or nothing if it has none. -/
theorem mem_leftJoin {x : α × Option β} : x ∈ leftJoin k key l r ↔ x.1 ∈ l ∧
    ((∃ b ∈ r, k x.1 = some (key b) ∧ x.2 = some b) ∨
      x.2 = none ∧ ∀ b ∈ r, k x.1 ≠ some (key b)) := by
  simp only [leftJoin, List.mem_flatMap, mem_matched]
  constructor
  · rintro ⟨a, ha, rfl, hx⟩
    exact ⟨ha, hx⟩
  · rintro ⟨hx, hmatch⟩
    exact ⟨x.1, hx, rfl, hmatch⟩

theorem mem_leftJoin_some {a : α} {b : β} :
    (a, some b) ∈ leftJoin k key l r ↔ a ∈ l ∧ b ∈ r ∧ k a = some (key b) := by
  rw [mem_leftJoin]
  simp only [Option.some.injEq, reduceCtorEq, false_and, or_false]
  constructor
  · rintro ⟨ha, c, hc, hkey, rfl⟩
    exact ⟨ha, hc, hkey⟩
  · rintro ⟨ha, hb, hkey⟩
    exact ⟨ha, b, hb, hkey, rfl⟩

theorem mem_leftJoin_none {a : α} :
    (a, none) ∈ leftJoin k key l r ↔ a ∈ l ∧ ∀ b ∈ r, k a ≠ some (key b) := by
  rw [mem_leftJoin]
  simp

/-- A row of the left whose key is there and unique on the right has its match in every joined
row. -/
theorem eq_some_of_mem_leftJoin {a : α} {o : Option β} {b : β}
    (hx : (a, o) ∈ leftJoin k key l r) (hr : (r.map key).Nodup) (hb : b ∈ r)
    (hkey : k a = some (key b)) : o = some b := by
  cases o with
  | none => exact absurd hkey ((mem_leftJoin_none.mp hx).2 b hb)
  | some c =>
    obtain ⟨-, hc, hkey'⟩ := mem_leftJoin_some.mp hx
    rw [List.inj_on_of_nodup_map hr hc hb (Option.some.inj (hkey'.symm.trans hkey))]

theorem matched_nodup (hr : r.Nodup) (a : α) : (matched k key r a).Nodup := by
  unfold matched
  cases hf : r.filter fun b => k a == some (key b) with
  | nil => exact List.nodup_singleton _
  | cons b bs =>
    have hn : (b :: bs).Nodup := hf ▸ hr.filter _
    exact hn.map fun c c' h => Option.some.inj (Prod.mk.inj h).2

/-- A join of tables without repeated rows repeats none. -/
theorem leftJoin_nodup (hl : l.Nodup) (hr : r.Nodup) : (leftJoin k key l r).Nodup := by
  rw [leftJoin, List.nodup_flatMap]
  refine ⟨fun a _ => matched_nodup hr a, hl.imp fun hne => ?_⟩
  intro x hx hx'
  exact hne ((mem_matched.mp hx).1.symm.trans (mem_matched.mp hx').1)

/-- Of a list without repetitions one item has a property. -/
theorem countP_eq_one {p : α → Bool} {a : α} (hl : l.Nodup) (ha : a ∈ l) (hp : p a = true)
    (hunique : ∀ b ∈ l, p b = true → b = a) : l.countP p = 1 := by
  have hfilter : l.filter p = [a] := by
    apply List.perm_singleton.mp
    refine (List.perm_ext_iff_of_nodup (hl.filter p) (List.nodup_singleton a)).mpr fun b => ?_
    rw [List.mem_filter, List.mem_singleton]
    constructor
    · rintro ⟨hb, hpb⟩
      exact hunique b hb hpb
    · rintro rfl
      exact ⟨ha, hp⟩
  rw [List.countP_eq_length_filter, hfilter, List.length_singleton]

end LeftJoin
