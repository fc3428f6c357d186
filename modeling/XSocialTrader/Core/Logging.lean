import XSocialTrader.Lib.Json
import XSocialTrader.Lib.PatternShape
import Mathlib.Data.List.Infix

/-! `StructlogRedactor`: a log event is walked with one key at hand, that of the innermost `dict`
entry, and a leaf is redacted by that key or by what its text looks like. -/
namespace XSocialTrader
open PatternSub

/-- `REDACTED`. -/
def redactedText : Json.Text := Json.text "***REDACTED***"

def sensitiveKeySubstrings : List String :=
  ["password", "passwd", "secret", "token", "api_key", "apikey", "authorization", "cookie",
    "bearer", "session_id", "twitterapi_io_key", "llm_api_key", "telegram_bot_token",
    "ib_account", "account_id", "ib_expected_account_id"]

/-- A class of code points: ranges, and the characters of a text. -/
def oneOf (ranges : List (Char × Char)) (others : String) (c : ℕ) : Bool :=
  ranges.any (fun r => decide (r.1.toNat ≤ c ∧ c ≤ r.2.toNat)) || (Json.text others).contains c

/-- The code points of a literal, one by one. -/
def literal (s : String) : List (ℕ → Bool) := (Json.text s).map fun c => (· == c)

/-- The code points of a literal in either case. No other character folds to its letters. -/
def literalAnyCase (s : String) : List (ℕ → Bool) :=
  s.toList.map fun c => oneOf [] (String.ofList [c.toLower, c.toUpper])

/-- `\s` on a `str`. -/
def isSpaceClass (c : ℕ) : Bool :=
  (9 ≤ c && c ≤ 13) || (28 ≤ c && c ≤ 32) || [0x85, 0xa0, 0x1680].contains c ||
    (0x2000 ≤ c && c ≤ 0x200a) || [0x2028, 0x2029, 0x202f, 0x205f, 0x3000].contains c

/-- `SECRET_VALUE_PATTERNS`. Without regard to case the ranges of letters take four characters
that are not ASCII. -/
def secretValuePatterns : List (Shape ℕ) :=
  [⟨literal "sk-", none, oneOf [('A', 'Z'), ('a', 'z'), ('0', '9')] "_-", 10, none⟩,
    ⟨literal "xoxb-", none, oneOf [('A', 'Z'), ('a', 'z'), ('0', '9')] "-", 1, none⟩,
    ⟨literalAnyCase "bearer", some isSpaceClass,
      oneOf [('A', 'Z'), ('a', 'z'), ('0', '9')] "._-\u0130\u0131\u017f\u212a", 1, none⟩,
    ⟨literal "ghp_", none, oneOf [('A', 'Z'), ('a', 'z'), ('0', '9')] "", 30, none⟩,
    ⟨literal "AKIA", none, oneOf [('0', '9'), ('A', 'Z')] "", 16, some 16⟩]

/-- `_redact_string`. -/
def redactString (value : Json.Text) : Json.Text :=
  secretValuePatterns.foldl (fun redacted p => sub p.pattern redactedText redacted) value

/-- The text matches a secret pattern. -/
def LooksSecret (value : Json.Text) : Prop := ∃ p ∈ secretValuePatterns, Occurs p.pattern value

theorem redactString_of_not_looksSecret {value : Json.Text} (h : ¬ LooksSecret value) :
    redactString value = value := by
  have hnone : ∀ ps ⊆ secretValuePatterns,
      ps.foldl (fun redacted p => sub p.pattern redactedText redacted) value = value := by
    intro ps
    induction ps with
    | nil => exact fun _ => rfl
    | cons p ps ih =>
      intro hps
      have hp : ¬ Occurs p.pattern value := fun hocc => h ⟨p, hps List.mem_cons_self, hocc⟩
      rw [List.foldl_cons, sub_of_not_occurs hp]
      exact ih fun q hq => hps (List.mem_cons_of_mem p hq)
  exact hnone _ (List.Subset.refl _)

/-- White space is not in the class of a bearer token. -/
theorem isSpaceClass_not_body {c : ℕ} (h : isSpaceClass c = true) :
    oneOf [('A', 'Z'), ('a', 'z'), ('0', '9')] "._-\u0130\u0131\u017f\u212a" c = false := by
  have hothers : Json.text "._-\u0130\u0131\u017f\u212a" =
      [46, 95, 45, 0x130, 0x131, 0x17f, 0x212a] := by decide
  have hA : 'A'.toNat = 65 := rfl
  have hZ : 'Z'.toNat = 90 := rfl
  have ha : 'a'.toNat = 97 := rfl
  have hz : 'z'.toNat = 122 := rfl
  have h0 : '0'.toNat = 48 := rfl
  have h9 : '9'.toNat = 57 := rfl
  simp only [isSpaceClass, oneOf, hothers, hA, hZ, ha, hz, h0, h9, List.any_cons, List.any_nil,
    List.contains_eq_mem, Bool.or_eq_true, Bool.and_eq_true, Bool.or_eq_false_iff,
    decide_eq_true_eq, decide_eq_false_iff_not, List.mem_cons, List.not_mem_nil, or_false,
    and_true] at h ⊢
  omega

theorem secretValuePatterns_unambiguous : ∀ p ∈ secretValuePatterns, p.Unambiguous := by
  have hgapless : ∀ p : Shape ℕ, p.gap = none → 0 < p.atLeast → p.Unambiguous := by
    intro p hgap hbody
    refine ⟨fun c hc => ?_, hbody⟩
    rw [hgap] at hc
    cases hc
  simp only [secretValuePatterns, List.forall_mem_cons]
  refine ⟨hgapless _ rfl (by decide), hgapless _ rfl (by decide), ⟨?_, by decide⟩,
    hgapless _ rfl (by decide), hgapless _ rfl (by decide), nofun⟩
  intro c hc a ha
  obtain rfl := Option.some.inj hc
  exact isSpaceClass_not_body ha

theorem secretValuePatterns_reject : ∀ p ∈ secretValuePatterns, p.Rejects '*'.toNat := by decide

/-- A text looks secret exactly if a word of a pattern is in it. -/
theorem looksSecret_iff {value : Json.Text} : LooksSecret value ↔
    ∃ p ∈ secretValuePatterns, ∃ w ∈ p.words, w <:+: value := by
  unfold LooksSecret
  constructor
  · rintro ⟨p, hp, hoccurs⟩
    exact ⟨p, hp, (occurs_iff (secretValuePatterns_unambiguous p hp).finds).mp hoccurs⟩
  · rintro ⟨p, hp, hword⟩
    exact ⟨p, hp, (occurs_iff (secretValuePatterns_unambiguous p hp).finds).mpr hword⟩

/-- No secret reaches into the marker: its asterisks are in none, and its inside has none. -/
theorem redactedText_inert {p : Shape ℕ} (hp : p ∈ secretValuePatterns) :
    Inert redactedText p.words := by
  have hinside : ∀ q ∈ secretValuePatterns, ¬ Occurs q.pattern (Json.text "**REDACTED**") := by
    decide
  show Inert ('*'.toNat :: (Json.text "**REDACTED**" ++ ['*'.toNat])) p.words
  apply Inert.of_bracketed
  · intro w hw
    exact (secretValuePatterns_reject p hp).not_mem hw
  · intro w hw hin
    apply hinside p hp
    exact (occurs_iff (secretValuePatterns_unambiguous p hp).finds).mpr ⟨w, hw, hin⟩

theorem not_looksSecret_redactString (value : Json.Text) : ¬ LooksSecret (redactString value) := by
  rw [looksSecret_iff]
  rintro ⟨p, hp, w, hw, hin⟩
  have hfinds : ∀ q ∈ secretValuePatterns, Finds q.pattern q.words :=
    fun q hq => (secretValuePatterns_unambiguous q hq).finds
  exact (infix_of_infix_foldl_sub hfinds (redactedText_inert hp) hw hin).2 hp

/-- Nothing in a redacted text matches a pattern, so a second redaction changes nothing: the
substitution of one pattern leaves no word of it, and a word of any pattern in its result was in
the text before, since none reaches into the marker. -/
theorem redactString_leaves_no_secret (value : Json.Text) :
    (∀ p ∈ secretValuePatterns, ∀ w ∈ p.words, ¬ w <:+: redactString value) ∧
      redactString (redactString value) = redactString value ∧
      ∀ p ∈ secretValuePatterns, ∀ text,
        (∀ w ∈ p.words, ¬ w <:+: sub p.pattern redactedText text) ∧
        ∀ q ∈ secretValuePatterns, ∀ w ∈ q.words,
          (∀ before after, w <:+: before ++ (redactedText ++ after) →
            w <:+: before ∨ w <:+: after) ∧
          (w <:+: sub p.pattern redactedText text → w <:+: text) := by
  have hclean := not_looksSecret_redactString value
  refine ⟨fun p hp w hw hin => ?_, redactString_of_not_looksSecret hclean, fun p hp text =>
    ⟨fun w hw => ?_, fun q hq w hw => ⟨fun before after hin => ?_, fun hin => ?_⟩⟩⟩
  · exact hclean (looksSecret_iff.mpr ⟨p, hp, w, hw, hin⟩)
  · exact not_infix_sub (secretValuePatterns_unambiguous p hp).finds (redactedText_inert hp) hw
  · exact redactedText_inert hq w hw before after hin
  · exact infix_of_infix_sub (redactedText_inert hq) hw hin

example : redactString (Json.text "sk-5c6ca5d498e62360 and Bearer ABCDEFGHIJ.klmnopqrst rejected") =
    Json.text "***REDACTED*** and ***REDACTED*** rejected" := by decide +kernel

/-- What a log event is built from: keys of one type, and leaves that are texts or values of
another type. -/
inductive LogValue (κ α : Type) where
  | dict (items : List (κ × LogValue κ α))
  | list (items : List (LogValue κ α))
  | tuple (items : List (LogValue κ α))
  | str (s : Json.Text)
  | other (a : α)

/-- `str` of a key, and `lower` of a text. -/
structure KeyText (κ : Type) where
  str : κ → Json.Text
  lower : Json.Text → Json.Text

/-- `_key_is_sensitive`. -/
def keyIsSensitive {κ : Type} (rt : KeyText κ) (key : Json.Text) : Bool :=
  sensitiveKeySubstrings.any fun s => decide (Json.text s <:+: rt.lower key)

section Walk

variable {κ α : Type}

/-- `_walk` on a leaf. -/
def walkLeaf (rt : KeyText κ) (parentKey : Json.Text) (leaf : LogValue κ α) : LogValue κ α :=
  if !parentKey.isEmpty && keyIsSensitive rt parentKey then .str redactedText
  else match leaf with
    | .str s => .str (redactString s)
    | obj => obj

mutual

/-- `_walk`. -/
def walk (rt : KeyText κ) (parentKey : Json.Text) : LogValue κ α → LogValue κ α
  | .dict items => .dict (walkFields rt items)
  | .list items => .list (walkItems rt parentKey items)
  | .tuple items => .tuple (walkItems rt parentKey items)
  | .str s => walkLeaf rt parentKey (.str s)
  | .other a => walkLeaf rt parentKey (.other a)

def walkItems (rt : KeyText κ) (parentKey : Json.Text) :
    List (LogValue κ α) → List (LogValue κ α)
  | [] => []
  | item :: items => walk rt parentKey item :: walkItems rt parentKey items

def walkFields (rt : KeyText κ) : List (κ × LogValue κ α) → List (κ × LogValue κ α)
  | [] => []
  | (k, v) :: items => (k, walk rt (rt.str k) v) :: walkFields rt items

end

/-- `StructlogRedactor`: the walk of the event itself has no key at hand. -/
def structlogRedactor (rt : KeyText κ) (event : List (κ × LogValue κ α)) : LogValue κ α :=
  walk rt [] (.dict event)

theorem walkItems_eq_map (rt : KeyText κ) (parentKey : Json.Text) (items : List (LogValue κ α)) :
    walkItems rt parentKey items = items.map (walk rt parentKey) := by
  induction items with
  | nil => rfl
  | cons item items ih => rw [walkItems, ih, List.map_cons]

theorem walkFields_eq_map (rt : KeyText κ) (items : List (κ × LogValue κ α)) :
    walkFields rt items = items.map fun f => (f.1, walk rt (rt.str f.1) f.2) := by
  induction items with
  | nil => rfl
  | cons f items ih => rw [walkFields, ih, List.map_cons]

namespace LogValue

/-- What a value is apart from its parts: the keys of a `dict`, the length of a sequence. -/
inductive Node (κ : Type) where
  | dict (keys : List κ)
  | list (length : ℕ)
  | tuple (length : ℕ)
  | leaf

def node : LogValue κ α → Node κ
  | .dict items => .dict (items.map Prod.fst)
  | .list items => .list items.length
  | .tuple items => .tuple items.length
  | .str _ | .other _ => .leaf

def IsLeaf : LogValue κ α → Prop
  | .str _ | .other _ => True
  | _ => False

/-- A part by its position, with its key in a `dict`. -/
def child : LogValue κ α → ℕ → Option (Option κ × LogValue κ α)
  | .dict items, i => items[i]?.map fun f => (some f.1, f.2)
  | .list items, i | .tuple items, i => items[i]?.map fun v => (none, v)
  | .str _, _ | .other _, _ => none

/-- The value at the end of a path, with the `dict` keys on the path. -/
def reach : LogValue κ α → List ℕ → Option (List κ × LogValue κ α)
  | v, [] => some ([], v)
  | v, i :: path => (v.child i).bind fun c =>
    (reach c.2 path).map fun r => (c.1.toList ++ r.1, r.2)

end LogValue

open LogValue

/-- The key at hand after the keys of a path. -/
def keyAfter (rt : KeyText κ) (parentKey : Json.Text) (keys : List κ) : Json.Text :=
  (keys.getLast?.map rt.str).getD parentKey

theorem keyAfter_append (rt : KeyText κ) (parentKey : Json.Text) (k : Option κ) (keys : List κ) :
    keyAfter rt parentKey (k.toList ++ keys) =
      keyAfter rt ((k.map rt.str).getD parentKey) keys := by
  unfold keyAfter
  cases keys.eq_nil_or_concat with
  | inl hnil =>
    subst hnil
    cases k <;> rfl
  | inr hconcat =>
    obtain ⟨init, last, rfl⟩ := hconcat
    simp [← List.append_assoc]

theorem walk_child (rt : KeyText κ) (parentKey : Json.Text) (v : LogValue κ α) (i : ℕ) :
    (walk rt parentKey v).child i = (v.child i).map fun c =>
      (c.1, walk rt ((c.1.map rt.str).getD parentKey) c.2) := by
  have hleaf : ∀ v : LogValue κ α, v.IsLeaf → (walkLeaf rt parentKey v).child i = none := by
    intro v hv
    cases v with
    | str s => simp only [walkLeaf]; split <;> rfl
    | other a => simp only [walkLeaf]; split <;> rfl
    | _ => exact absurd hv id
  cases v with
  | dict items => simp [walk, child, walkFields_eq_map, Function.comp_def]
  | list items => simp [walk, child, walkItems_eq_map, Function.comp_def]
  | tuple items => simp [walk, child, walkItems_eq_map, Function.comp_def]
  | str s =>
    rw [walk, hleaf (.str s) trivial]
    rfl
  | other a =>
    rw [walk, hleaf (.other a) trivial]
    rfl

/-- The walk of a value at the end of a path is made with the last key on the path. -/
theorem walk_reach (rt : KeyText κ) (parentKey : Json.Text) (v : LogValue κ α) (path : List ℕ) :
    (walk rt parentKey v).reach path = (v.reach path).map fun r =>
      (r.1, walk rt (keyAfter rt parentKey r.1) r.2) := by
  induction path generalizing v parentKey with
  | nil => rfl
  | cons i path ih =>
    rw [reach, reach, walk_child]
    cases v.child i with
    | none => rfl
    | some c =>
      simp only [Option.map_some, Option.bind_some, ih, Option.map_map, Function.comp_def,
        keyAfter_append]

theorem walk_node (rt : KeyText κ) (parentKey : Json.Text) (v : LogValue κ α) :
    (walk rt parentKey v).node = v.node := by
  cases v with
  | dict items => simp [walk, node, walkFields_eq_map, Function.comp_def]
  | list items => simp [walk, node, walkItems_eq_map]
  | tuple items => simp [walk, node, walkItems_eq_map]
  | str s => simp only [walk, walkLeaf]; split <;> rfl
  | other a => simp only [walk, walkLeaf]; split <;> rfl

theorem walk_leaf (rt : KeyText κ) (parentKey : Json.Text) {v : LogValue κ α} (h : v.IsLeaf) :
    walk rt parentKey v = walkLeaf rt parentKey v := by
  cases v with
  | str s => rfl
  | other a => rfl
  | _ => exact absurd h id

/-- The key has a sensitive name. -/
def IsSensitive (rt : KeyText κ) (k : κ) : Prop := keyIsSensitive rt (rt.str k) = true

/-- A leaf under a sensitive key comes out as the marker; the nesting, the keys and every leaf
that is neither under a sensitive key nor a text that looks secret stay as they are. -/
structure Redacts (rt : KeyText κ) (event out : LogValue κ α) : Prop where
  under_sensitive : ∀ path keys leaf, event.reach path = some (keys, leaf) → leaf.IsLeaf →
    (∃ k ∈ keys, IsSensitive rt k) → out.reach path = some (keys, .str redactedText)
  nesting : ∀ path, (out.reach path).map (fun r => (r.1, r.2.node)) =
    (event.reach path).map fun r => (r.1, r.2.node)
  unaffected : ∀ path keys leaf, event.reach path = some (keys, leaf) → leaf.IsLeaf →
    (∀ k ∈ keys, ¬ IsSensitive rt k) → (∀ s, leaf = .str s → ¬ LooksSecret s) →
    out.reach path = some (keys, leaf)

/-- Each leaf under a sensitive key has a key of its own that is one, or is a text that the
patterns turn into the marker. -/
def SensitiveInnermost (rt : KeyText κ) (event : LogValue κ α) : Prop :=
  ∀ path keys leaf, event.reach path = some (keys, leaf) → leaf.IsLeaf →
    (∃ k ∈ keys, IsSensitive rt k) →
    (∃ k ∈ keys.getLast?, rt.str k ≠ [] ∧ IsSensitive rt k) ∨
      ∃ s, leaf = .str s ∧ redactString s = redactedText

theorem walkLeaf_eq_marker_iff (rt : KeyText κ) (parentKey : Json.Text) (leaf : LogValue κ α) :
    walkLeaf rt parentKey leaf = .str redactedText ↔
      (parentKey ≠ [] ∧ keyIsSensitive rt parentKey = true) ∨
        ∃ s, leaf = .str s ∧ redactString s = redactedText := by
  unfold walkLeaf
  split_ifs with hkey
  · simp only [true_iff]
    left
    simpa using hkey
  · have hno : ¬ (parentKey ≠ [] ∧ keyIsSensitive rt parentKey = true) := by simpa using hkey
    simp only [hno, false_or]
    cases leaf <;> simp

theorem keyAfter_sensitive_iff (rt : KeyText κ) (keys : List κ) :
    keyAfter rt [] keys ≠ [] ∧ keyIsSensitive rt (keyAfter rt [] keys) = true ↔
      ∃ k ∈ keys.getLast?, rt.str k ≠ [] ∧ IsSensitive rt k := by
  unfold keyAfter
  cases keys.getLast? <;> simp [IsSensitive]

/-- An event is redacted as promised exactly if no leaf under a sensitive key has an innermost key
that is not one, the texts apart that the patterns turn into the marker. -/
theorem redacts_iff (rt : KeyText κ) (event : List (κ × LogValue κ α)) :
    Redacts rt (.dict event) (structlogRedactor rt event) ↔
      SensitiveInnermost rt (.dict event) := by
  have hout : ∀ path keys leaf, (LogValue.dict event).reach path = some (keys, leaf) →
      leaf.IsLeaf → (structlogRedactor rt event).reach path =
        some (keys, walkLeaf rt (keyAfter rt [] keys) leaf) := by
    intro path keys leaf hleaf hisLeaf
    rw [structlogRedactor, walk_reach, hleaf, Option.map_some, walk_leaf _ _ hisLeaf]
  constructor
  · intro h path keys leaf hleaf hisLeaf hkeys
    have hmarker := h.under_sensitive path keys leaf hleaf hisLeaf hkeys
    rw [hout path keys leaf hleaf hisLeaf] at hmarker
    have heq : walkLeaf rt (keyAfter rt [] keys) leaf = .str redactedText :=
      (Prod.mk.inj (Option.some.inj hmarker)).2
    rwa [walkLeaf_eq_marker_iff, keyAfter_sensitive_iff] at heq
  · intro h
    refine ⟨fun path keys leaf hleaf hisLeaf hkeys => ?_, fun path => ?_,
      fun path keys leaf hleaf hisLeaf hkeys hsecret => ?_⟩
    · have hinner := h path keys leaf hleaf hisLeaf hkeys
      rw [← keyAfter_sensitive_iff, ← walkLeaf_eq_marker_iff] at hinner
      rw [hout path keys leaf hleaf hisLeaf, hinner]
    · rw [structlogRedactor, walk_reach, Option.map_map]
      simp only [Function.comp_def, walk_node]
    · have hno : ¬ ∃ k ∈ keys.getLast?, rt.str k ≠ [] ∧ IsSensitive rt k := by
        rintro ⟨k, hk, -, hsensitive⟩
        exact hkeys k (List.mem_of_getLast? hk) hsensitive
      have hkey : ¬ (!(keyAfter rt [] keys).isEmpty &&
          keyIsSensitive rt (keyAfter rt [] keys)) = true := by
        rw [← keyAfter_sensitive_iff] at hno
        simpa using hno
      rw [hout path keys leaf hleaf hisLeaf]
      cases leaf with
      | str s =>
        have htext : redactString s = s := redactString_of_not_looksSecret (hsecret s rfl)
        simp only [walkLeaf, if_neg hkey, htext]
      | other a => simp only [walkLeaf, if_neg hkey]
      | _ => exact absurd hisLeaf id

/-- The text of ASCII keys. -/
def asciiKeys : KeyText String where
  str := Json.text
  lower s := s.map fun c => if 0x41 ≤ c ∧ c ≤ 0x5a then c + 0x20 else c

example : structlogRedactor asciiKeys
    [("events", .list [.dict [("token", .str (Json.text "abc"))], .dict [("ok", .other 1)]])] =
      .dict [("events", .list [.dict [("token", .str redactedText)], .dict [("ok", .other 1)]])] :=
  rfl

/-- A value in a `dict` of its own under the key `token` comes out unredacted. -/
theorem nested_value_not_redacted : ¬ ∀ (rt : KeyText String)
    (event : List (String × LogValue String ℕ)),
    Redacts rt (.dict event) (structlogRedactor rt event) := by
  intro h
  let event : List (String × LogValue String ℕ) :=
    [("token", .dict [("value", .str (Json.text "abc"))])]
  have hsensitive : keyIsSensitive asciiKeys (Json.text "token") = true := by decide
  have hmarker := (h asciiKeys event).under_sensitive [0, 0] ["token", "value"]
    (.str (Json.text "abc")) rfl trivial ⟨"token", List.mem_cons_self, hsensitive⟩
  have hout : (structlogRedactor asciiKeys event).reach [0, 0] =
      some (["token", "value"], .str (Json.text "abc")) := rfl
  have htexts := LogValue.str.inj (Prod.mk.inj (Option.some.inj (hout.symm.trans hmarker))).2
  exact absurd htexts (by decide)

end Walk

end XSocialTrader
