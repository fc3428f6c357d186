import Mathlib.Data.List.Basic
import Mathlib.Order.Basic
import Mathlib.Tactic.Linarith

/-! Zero-padded decimal text of fixed width. On texts of one width the order of the
characters is the order of the numbers, and a proper prefix comes first. -/
namespace FixedWidth

/-- The last `k` decimal digits of `n`, most significant first. -/
def digits : ℕ → ℕ → List Char
  | 0, _ => []
  | k + 1, n => digits k (n / 10) ++ [Nat.digitChar (n % 10)]

@[simp] theorem digits_length (k n : ℕ) : (digits k n).length = k := by
  induction k generalizing n with
  | zero => rfl
  | succ k ih => simp [digits, ih]

/-- Lexicographic comparison reads the equally long fronts first. -/
theorem append_lt_append_iff {a b s t : List Char} (h : a.length = b.length) :
    a ++ s < b ++ t ↔ a < b ∨ a = b ∧ s < t := by
  induction a generalizing b with
  | nil =>
    obtain rfl := List.length_eq_zero_iff.mp h.symm
    simp
  | cons x a ih =>
    cases b with
    | nil => simp at h
    | cons y b =>
      simp only [List.length_cons, Nat.add_right_cancel_iff] at h
      simp only [List.cons_append, List.cons_lt_cons_iff, ih h, List.cons.injEq]
      tauto

theorem digitChar_lt_iff {m n : ℕ} (hm : m < 10) (hn : n < 10) :
    Nat.digitChar m < Nat.digitChar n ↔ m < n := by
  have h : ∀ a < 10, ∀ b < 10, (Nat.digitChar a < Nat.digitChar b ↔ a < b) := by decide
  exact h m hm n hn

theorem digitChar_inj {m n : ℕ} (hm : m < 10) (hn : n < 10) :
    Nat.digitChar m = Nat.digitChar n ↔ m = n := by
  have h : ∀ a < 10, ∀ b < 10, (Nat.digitChar a = Nat.digitChar b ↔ a = b) := by decide
  exact h m hm n hn

theorem digits_inj {k m n : ℕ} (hm : m < 10 ^ k) (hn : n < 10 ^ k) :
    digits k m = digits k n ↔ m = n := by
  induction k generalizing m n with
  | zero =>
    simp only [pow_zero, Nat.lt_one_iff] at hm hn
    simp [hm, hn]
  | succ k ih =>
    rw [pow_succ] at hm hn
    have hi := ih (m := m / 10) (n := n / 10) (by omega) (by omega)
    have hd := digitChar_inj (m := m % 10) (n := n % 10) (by omega) (by omega)
    constructor
    · intro h
      obtain ⟨hq, hr⟩ := List.append_inj' h rfl
      have hq' := hi.mp hq
      have hr' := hd.mp (List.cons.inj hr).1
      omega
    · rintro rfl
      rfl

theorem digits_lt_iff {k m n : ℕ} (hm : m < 10 ^ k) (hn : n < 10 ^ k) :
    digits k m < digits k n ↔ m < n := by
  induction k generalizing m n with
  | zero =>
    simp only [pow_zero, Nat.lt_one_iff] at hm hn
    simp [digits, hm, hn]
  | succ k ih =>
    rw [pow_succ] at hm hn
    have hi := ih (m := m / 10) (n := n / 10) (by omega) (by omega)
    have he := digits_inj (k := k) (m := m / 10) (n := n / 10) (by omega) (by omega)
    have hd := digitChar_lt_iff (m := m % 10) (n := n % 10) (by omega) (by omega)
    rw [digits, digits, append_lt_append_iff (by simp), hi, he, List.cons_lt_cons_iff, hd]
    simp only [List.lt_irrefl, and_false, or_false]
    omega

end FixedWidth
