import XSocialTrader.Lib.PatternSub
import Mathlib.Data.List.Forall2
import Mathlib.Data.List.TakeWhile

/-! The words of a shape, and its pattern as the one that finds the longest of them. -/
namespace PatternSub

namespace Shape

variable {α : Type*} (p : Shape α)

/-- One character of each class of the lead. -/
def IsLead (lead : List α) : Prop := List.Forall₂ (fun c a => c a = true) p.lead lead

/-- A run of the first class, not empty, where the shape has one. -/
def IsGap (gap : List α) : Prop :=
  match p.gap with
  | none => gap = []
  | some c => gap ≠ [] ∧ ∀ a ∈ gap, c a = true

/-- A run of the second class, neither too short nor too long. -/
def IsBody (body : List α) : Prop :=
  (∀ a ∈ body, p.body a = true) ∧ p.atLeast ≤ body.length ∧ ∀ m ∈ p.atMost, body.length ≤ m

/-- The texts that the shape describes as a whole. -/
def words : Set (List α) :=
  {w | ∃ lead gap body, w = lead ++ (gap ++ body) ∧ p.IsLead lead ∧ p.IsGap gap ∧ p.IsBody body}

/-- The two runs share no character, and the second one is not empty. -/
structure Unambiguous : Prop where
  disjoint : ∀ c ∈ p.gap, ∀ a, c a = true → p.body a = false
  body : 0 < p.atLeast

def gapLength (rest : List α) : ℕ := (p.gap.map fun c => (rest.takeWhile c).length).getD 0

def taken (tail : List α) : ℕ :=
  let run := (tail.takeWhile p.body).length
  (p.atMost.map (min run)).getD run

variable {p} {s lead gap body rest tail : List α}

theorem pattern_eq (s : List α) : p.pattern s =
    let rest := s.drop p.lead.length
    let tail := rest.drop (p.gapLength rest)
    if p.lead.length ≤ s.length ∧ (p.lead.zipWith (· ·) s).all id ∧
        (p.gap.isSome → 0 < p.gapLength rest) ∧ p.atLeast ≤ p.taken tail then
      some (p.lead.length + p.gapLength rest + p.taken tail)
    else none := rfl

theorem isLead_take_iff : p.IsLead (s.take p.lead.length) ↔
    p.lead.length ≤ s.length ∧ (p.lead.zipWith (· ·) s).all id = true := by
  unfold IsLead
  generalize p.lead = classes
  induction classes generalizing s with
  | nil => simp
  | cons c classes ih =>
    cases s with
    | nil =>
      have hno : ¬ List.Forall₂ (fun c a => c a = true) (c :: classes) ([] : List α) := nofun
      simp [hno]
    | cons a s => simp [ih, and_left_comm]

theorem IsLead.length_eq (h : p.IsLead lead) : lead.length = p.lead.length :=
  (List.Forall₂.length_eq h).symm

theorem IsLead.not_mem {a : α} (h : p.IsLead lead) (hreject : ∀ c ∈ p.lead, c a = false) :
    a ∉ lead := by
  unfold IsLead at h
  generalize p.lead = classes at h hreject
  induction h with
  | nil => exact List.not_mem_nil
  | @cons c b classes lead hb _ ih =>
    intro hmem
    rcases List.mem_cons.mp hmem with rfl | hmem
    · rw [hreject c List.mem_cons_self] at hb
      cases hb
    · exact ih (fun c' hc' => hreject c' (List.mem_cons_of_mem c hc')) hmem

theorem isGap_take (hgap : p.gap.isSome = true → 0 < p.gapLength rest) :
    p.IsGap (rest.take (p.gapLength rest)) := by
  unfold IsGap gapLength at *
  cases hp : p.gap with
  | none => simp
  | some c =>
    have htake : rest.take (rest.takeWhile c).length = rest.takeWhile c :=
      List.prefix_iff_eq_take.mp (List.takeWhile_prefix c) |>.symm
    simp only [hp, Option.isSome_some, forall_true_left, Option.map_some, Option.getD_some,
      htake] at hgap ⊢
    exact ⟨List.length_pos_iff.mp hgap, fun a ha => List.mem_takeWhile_imp ha⟩

/-- The gap that is read is the only one that a body can follow. -/
theorem gapLength_append (h : p.Unambiguous) (hgap : p.IsGap gap) (hbody : p.IsBody body) :
    p.gapLength (gap ++ (body ++ rest)) = gap.length := by
  unfold IsGap at hgap
  unfold gapLength
  cases hp : p.gap with
  | none =>
    simp only [hp] at hgap
    rw [hgap]
    rfl
  | some c =>
    simp only [hp] at hgap
    obtain ⟨hclass, hlength, -⟩ := hbody
    cases body with
    | nil => exact absurd hlength (Nat.not_le.mpr h.body)
    | cons b body =>
      have hstop : c b = false := by
        by_contra hc
        have hb := h.disjoint c hp b (by simpa using hc)
        rw [hclass b List.mem_cons_self] at hb
        cases hb
      have hrun : (gap ++ (b :: body ++ rest)).takeWhile c = gap := by
        rw [List.takeWhile_append_of_pos hgap.2, List.cons_append,
          List.takeWhile_cons_of_neg (by simp [hstop]), List.append_nil]
      simp only [Option.map_some, Option.getD_some, hrun]

theorem taken_le_run : p.taken tail ≤ (tail.takeWhile p.body).length := by
  unfold taken
  cases p.atMost with
  | none => exact le_rfl
  | some m => exact Nat.min_le_left _ m

theorem taken_le_length : p.taken tail ≤ tail.length :=
  taken_le_run.trans (List.takeWhile_prefix p.body).length_le

theorem gapLength_le_length : p.gapLength rest ≤ rest.length := by
  unfold gapLength
  cases p.gap with
  | none => exact Nat.zero_le _
  | some c => exact (List.takeWhile_prefix c).length_le

theorem isBody_take (h : p.atLeast ≤ p.taken tail) : p.IsBody (tail.take (p.taken tail)) := by
  have hlength : (tail.take (p.taken tail)).length = p.taken tail :=
    List.length_take_of_le taken_le_length
  refine ⟨fun a ha => ?_, by rwa [hlength], fun m hm => ?_⟩
  · have hrun : tail.take (p.taken tail) <+: tail.takeWhile p.body :=
      List.prefix_of_prefix_length_le (List.take_prefix _ tail) (List.takeWhile_prefix p.body)
        (hlength.trans_le taken_le_run)
    exact List.mem_takeWhile_imp (hrun.subset ha)
  · rw [hlength, taken, Option.mem_def.mp hm]
    exact Nat.min_le_right _ m

theorem le_taken (h : p.IsBody body) : body.length ≤ p.taken (body ++ rest) := by
  obtain ⟨hclass, -, hmost⟩ := h
  have hrun : body.length ≤ ((body ++ rest).takeWhile p.body).length := by
    rw [List.takeWhile_append_of_pos hclass, List.length_append]
    exact Nat.le_add_right _ _
  unfold taken
  cases hp : p.atMost with
  | none => exact hrun
  | some m => exact Nat.le_min.mpr ⟨hrun, hmost m hp⟩

/-- What is matched is a word of the shape. -/
theorem length_mem_of_pattern {n : ℕ} (h : p.pattern s = some n) : n ∈ wordLengths p.words s := by
  rw [pattern_eq] at h
  simp only [Option.ite_none_right_eq_some, Option.some.injEq] at h
  obtain ⟨⟨hlength, hlead, hgap, hleast⟩, rfl⟩ := h
  let rest := s.drop p.lead.length
  let tail := rest.drop (p.gapLength rest)
  have hword : s.take (p.lead.length + p.gapLength rest + p.taken tail) =
      s.take p.lead.length ++ (rest.take (p.gapLength rest) ++ tail.take (p.taken tail)) := by
    rw [Nat.add_assoc, List.take_add, List.take_add]
  have hfits : p.lead.length + p.gapLength rest + p.taken tail ≤ s.length := by
    have hrest : rest.length = s.length - p.lead.length := List.length_drop
    have htail : tail.length = rest.length - p.gapLength rest := List.length_drop
    have hgapFits : p.gapLength rest ≤ rest.length := gapLength_le_length
    have hbodyFits : p.taken tail ≤ tail.length := taken_le_length
    omega
  exact ⟨_, ⟨_, _, _, hword, isLead_take_iff.mpr ⟨hlength, hlead⟩, isGap_take hgap,
    isBody_take hleast⟩, List.take_prefix _ s, List.length_take_of_le hfits⟩

/-- A word at the head of a text is matched, and no shorter one instead of it. -/
theorem le_of_mem_words (h : p.Unambiguous) {w : List α} (hw : w ∈ p.words) (hpre : w <+: s) :
    ∃ n, p.pattern s = some n ∧ w.length ≤ n := by
  obtain ⟨lead, gap, body, rfl, hlead, hgap, hbody⟩ := hw
  obtain ⟨after, rfl⟩ := hpre
  have htext : lead ++ (gap ++ body) ++ after = lead ++ (gap ++ (body ++ after)) := by
    simp only [List.append_assoc]
  have hgapLength : p.gapLength (gap ++ (body ++ after)) = gap.length :=
    gapLength_append h hgap hbody
  have htaken : body.length ≤ p.taken (body ++ after) := le_taken hbody
  have hmatch : p.lead.length ≤ (lead ++ (gap ++ (body ++ after))).length ∧
      (p.lead.zipWith (· ·) (lead ++ (gap ++ (body ++ after)))).all id = true := by
    rw [← isLead_take_iff, ← hlead.length_eq, List.take_left]
    exact hlead
  have hgapNonempty : p.gap.isSome = true → 0 < gap.length := by
    intro hsome
    unfold IsGap at hgap
    obtain ⟨c, hc⟩ := Option.isSome_iff_exists.mp hsome
    simp only [hc] at hgap
    exact List.length_pos_iff.mpr hgap.1
  have hleast : p.atLeast ≤ p.taken (body ++ after) := hbody.2.1.trans htaken
  rw [htext, pattern_eq]
  simp only [← hlead.length_eq, List.drop_left, hgapLength]
  rw [hlead.length_eq, if_pos ⟨hmatch.1, hmatch.2, hgapNonempty, hleast⟩]
  refine ⟨_, rfl, ?_⟩
  rw [List.length_append, List.length_append, hlead.length_eq]
  omega

theorem nil_not_mem_words (h : p.Unambiguous) : [] ∉ p.words := by
  rintro ⟨lead, gap, body, hnil, -, -, hbody⟩
  obtain ⟨-, -, rfl⟩ : lead = [] ∧ gap = [] ∧ body = [] := by simpa using hnil.symm
  exact absurd hbody.2.1 (Nat.not_le.mpr h.body)

/-- The match at the head of a text is its longest word. -/
theorem Unambiguous.finds (h : p.Unambiguous) : Finds p.pattern p.words where
  greatest := by
    intro s n hn
    refine ⟨length_mem_of_pattern hn, ?_⟩
    rintro m ⟨w, hw, hpre, rfl⟩
    obtain ⟨n', hn', hle⟩ := le_of_mem_words h hw hpre
    rw [hn] at hn'
    exact hle.trans_eq (Option.some.inj hn').symm
  complete := by
    intro s w hw hpre
    obtain ⟨n, hn, -⟩ := le_of_mem_words h hw hpre
    rw [hn]
    rfl
  nonempty := nil_not_mem_words h

/-- No class of the shape takes the character. -/
def Rejects (p : Shape α) (a : α) : Prop :=
  (∀ c ∈ p.lead, c a = false) ∧ (∀ c ∈ p.gap, c a = false) ∧ p.body a = false

instance (p : Shape α) (a : α) : Decidable (p.Rejects a) :=
  inferInstanceAs (Decidable (_ ∧ _ ∧ _))

theorem Rejects.not_mem {a : α} (h : p.Rejects a) {w : List α} (hw : w ∈ p.words) : a ∉ w := by
  obtain ⟨lead, gap, body, rfl, hlead, hgap, hbody⟩ := hw
  obtain ⟨hrejectLead, hrejectGap, hrejectBody⟩ := h
  intro hmem
  rcases List.mem_append.mp hmem with hin | hin
  · exact hlead.not_mem hrejectLead hin
  · rcases List.mem_append.mp hin with hin | hin
    · unfold IsGap at hgap
      cases hp : p.gap with
      | none =>
        simp only [hp] at hgap
        subst hgap
        cases hin
      | some c =>
        simp only [hp] at hgap
        have hfalse := hrejectGap c hp
        rw [hgap.2 a hin] at hfalse
        cases hfalse
    · rw [hbody.1 a hin] at hrejectBody
      cases hrejectBody

end Shape

end PatternSub
