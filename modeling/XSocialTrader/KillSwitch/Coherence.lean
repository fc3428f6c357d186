import XSocialTrader.KillSwitch.Interleaving

/-! The Redis key as a cache of the table's latest row. A row gets its id at the flush and
reaches Redis in a later step, so the writes to Redis may come in another order than the ids. -/
namespace XSocialTrader.KillSwitch
open LabelledRun

variable {κ : Type} [DecidableEq κ] [Fintype κ]

/-- The key is set exactly if the latest row is an activation. -/
def Agrees (s : Sys κ) : Prop :=
  s.redisFlag.isSome = (latestDbEvent s.rows).any KillSwitchEvent.activated

/-- The row has reached Redis: it is committed, or its call is past the write. -/
def Written (s : Sys κ) (r : KillSwitchEvent) : Prop :=
  r ∈ s.rows ∨ ∃ k p, s.call k = some (p, r) ∧ p ≠ .flushed

omit [DecidableEq κ] in
instance (s : Sys κ) (P : KillSwitchEvent → Prop) [DecidablePred P] :
    Decidable (∀ r, Written s r → P r) :=
  decidable_of_iff ((∀ r ∈ s.rows, P r) ∧ ∀ k, ∀ c ∈ s.call k, c.1 ≠ .flushed → P c.2) (by
    constructor
    · rintro ⟨hrows, hcalls⟩ r (hr | ⟨k, p, hc, hp⟩)
      · exact hrows r hr
      · exact hcalls k (p, r) hc hp
    · intro h
      exact ⟨fun r hr => h r (Or.inl hr), fun k c hc hp => h c.2 (Or.inr ⟨k, c.1, hc, hp⟩)⟩)

/-- No row that has reached Redis is newer. -/
def Newest (s : Sys κ) (r : KillSwitchEvent) : Prop := ∀ r', Written s r' → r'.id ≤ r.id

instance (s : Sys κ) (r : KillSwitchEvent) : Decidable (Newest s r) := by
  unfold Newest
  infer_instance

/-- A write to Redis that comes after that of a newer row writes the same value as the newest
one. -/
def InOrder (s : Sys κ) : Label κ → Prop
  | .redis k => ∀ c ∈ s.call k, ∀ r, Written s r → Newest s r → c.2.id < r.id →
      r.activated = c.2.activated
  | _ => True

instance (s : Sys κ) (a : Label κ) : Decidable (InOrder s a) := by
  unfold InOrder
  split <;> infer_instance

/-- The key has the value of the newest row that has reached Redis. -/
structure Mirrors (s : Sys κ) : Prop where
  newest : ∀ r, Written s r → Newest s r → s.redisFlag.isSome = r.activated
  empty : (∀ r, ¬ Written s r) → s.redisFlag.isSome = false

variable {s t : Sys κ} {a : Label κ}

omit [DecidableEq κ] [Fintype κ] in
theorem Mirrors.of_same (h : Mirrors s) (hflag : t.redisFlag = s.redisFlag)
    (hwritten : ∀ r, Written t r ↔ Written s r) : Mirrors t := by
  have hnewest : ∀ r, Newest t r → Newest s r := fun r hr r' hr' => hr r' ((hwritten r').mpr hr')
  refine ⟨fun r hr hn => ?_, fun hnone => ?_⟩
  · rw [hflag]
    exact h.newest r ((hwritten r).mp hr) (hnewest r hn)
  · rw [hflag]
    exact h.empty fun r hr => hnone r ((hwritten r).mpr hr)

omit [Fintype κ] in
/-- What has reached Redis, seen from one call. -/
theorem written_update {k : κ} {c : Option (Phase × KillSwitchEvent)}
    (hcall : t.call = Function.update s.call k c) (r : KillSwitchEvent) :
    Written t r ↔ r ∈ t.rows ∨ (∃ l p, l ≠ k ∧ s.call l = some (p, r) ∧ p ≠ .flushed) ∨
      ∃ p, c = some (p, r) ∧ p ≠ .flushed := by
  unfold Written
  rw [hcall]
  refine or_congr_right ⟨?_, ?_⟩
  · rintro ⟨l, p, hl, hp⟩
    by_cases hlk : l = k
    · subst hlk
      rw [Function.update_self] at hl
      exact Or.inr ⟨p, hl, hp⟩
    · rw [Function.update_of_ne hlk] at hl
      exact Or.inl ⟨l, p, hlk, hl, hp⟩
  · rintro (⟨l, p, hlk, hl, hp⟩ | ⟨p, hc, hp⟩)
    · exact ⟨l, p, by rwa [Function.update_of_ne hlk], hp⟩
    · exact ⟨k, p, by rwa [Function.update_self], hp⟩

/-- Only a write to Redis makes a row reach it, unless a call stops. -/
theorem step_written (hstep : step s a = some t) (hstop : ∀ k, a ≠ .stop k) :
    (t.redisFlag = s.redisFlag ∧ ∀ r, Written t r ↔ Written s r) ∨
      ∃ k row, a = .redis k ∧ s.call k = some (.flushed, row) ∧
        t.redisFlag.isSome = row.activated ∧ ∀ r, Written t r ↔ r = row ∨ Written s r := by
  have hself : ∀ k, s.call = Function.update s.call k (s.call k) := fun k =>
    (Function.update_eq_self k s.call).symm
  cases a with
  | flush k req id =>
    simp only [step] at hstep
    split_ifs at hstep with hf
    obtain ⟨row, -, rfl⟩ := Option.map_eq_some_iff.mp hstep
    refine Or.inl ⟨rfl, fun r => ?_⟩
    rw [written_update (s := s) rfl, written_update (hself k), hf.1]
    simp
  | redis k =>
    simp only [step] at hstep
    split at hstep
    · next row hc =>
      obtain rfl := Option.some.inj hstep
      refine Or.inr ⟨k, row, rfl, hc, ?_, fun r => ?_⟩
      · cases row.activated <;> rfl
      · rw [written_update (s := s) rfl, written_update (hself k), hc]
        simp only [Sys.setCall_rows, Option.some.injEq, Prod.mk.injEq]
        grind
    · cases hstep
  | publish k | commit k =>
    simp only [step] at hstep
    split at hstep
    · next row hc =>
      obtain rfl := Option.some.inj hstep
      refine Or.inl ⟨rfl, fun r => ?_⟩
      rw [written_update (s := s) rfl, written_update (hself k), hc]
      simp only [Sys.setCall_rows, List.mem_append, List.mem_singleton, Option.some.injEq,
        Prod.mk.injEq]
      grind
    · cases hstep
  | stop k => exact absurd rfl (hstop k)

omit [DecidableEq κ] [Fintype κ] in
/-- A row that has not reached Redis shares its id with none that has. -/
theorem IdsDistinct.written_ne {k : κ} {row r : KillSwitchEvent} (h : IdsDistinct s)
    (hc : s.call k = some (.flushed, row)) (hr : Written s r) : r.id ≠ row.id := by
  rcases hr with hr | ⟨l, p, hl, hp⟩
  · exact h.call_fresh k .flushed row hc r hr
  · intro hid
    obtain rfl := h.calls_distinct l k p .flushed r row hl hc hid
    rw [hl] at hc
    exact hp (Prod.mk.inj (Option.some.inj hc)).1

/-- A step in order keeps the key at the value of the newest row that has reached Redis. -/
theorem step_mirrors (h : Mirrors s) (hids : IdsDistinct s) (horder : InOrder s a)
    (hstop : ∀ k, a ≠ .stop k) (hstep : step s a = some t) : Mirrors t := by
  rcases step_written hstep hstop with ⟨hflag, hwritten⟩ | ⟨k, row, rfl, hc, hflag, hwritten⟩
  · exact h.of_same hflag hwritten
  · refine ⟨fun r hr hn => ?_, fun hnone => absurd ((hwritten row).mpr (Or.inl rfl)) (hnone row)⟩
    rw [hflag]
    rcases (hwritten r).mp hr with rfl | hr
    · rfl
    · have hle : row.id ≤ r.id := hn row ((hwritten row).mpr (Or.inl rfl))
      have hne : r.id ≠ row.id := hids.written_ne hc hr
      have hnewest : Newest s r := fun r' hr' => hn r' ((hwritten r').mpr (Or.inr hr'))
      have hlt : row.id < r.id := by omega
      exact (horder (.flushed, row) hc r hr hnewest hlt).symm

omit [DecidableEq κ] [Fintype κ] in
theorem written_of_idle (hidle : ∀ k, s.call k = none) (r : KillSwitchEvent) :
    Written s r ↔ r ∈ s.rows := by
  simp [Written, hidle]

omit [DecidableEq κ] [Fintype κ] in
/-- With no call in flight the newest row that has reached Redis is the latest of the table. -/
theorem mirrors_iff_agrees (hidle : ∀ k, s.call k = none)
    (hids : (s.rows.map KillSwitchEvent.id).Nodup) : Mirrors s ↔ Agrees s := by
  have hwritten := written_of_idle hidle
  unfold Agrees
  cases hm : latestDbEvent s.rows with
  | none =>
    have hrows : s.rows = [] := List.argmax_eq_none.mp hm
    have hnone : ∀ r, ¬ Written s r := by
      intro r hr
      have hr' : r ∈ s.rows := (hwritten r).mp hr
      rw [hrows] at hr'
      cases hr'
    exact ⟨fun h => h.empty hnone, fun h => ⟨fun r hr => absurd hr (hnone r), fun _ => h⟩⟩
  | some m =>
    have hmem : m ∈ s.rows := List.argmax_mem hm
    have hnewest : Newest s m := fun r hr => List.le_of_mem_argmax ((hwritten r).mp hr) hm
    constructor
    · intro h
      exact h.newest m ((hwritten m).mpr hmem) hnewest
    · intro h
      refine ⟨fun r hr hn => ?_, fun hnone => absurd ((hwritten m).mpr hmem) (hnone m)⟩
      have hid : r.id = m.id := le_antisymm (hnewest r hr) (hn m ((hwritten m).mpr hmem))
      rw [List.inj_on_of_nodup_map hids ((hwritten r).mp hr) hmem hid]
      exact h

omit [DecidableEq κ] [Fintype κ] in
/-- Where the key agrees with the table, the switch is what the latest row says. -/
theorem Agrees.isActive (h : Agrees s) : (isActive none s.redisFlag s.rows).active =
    (latestDbEvent s.rows).any KillSwitchEvent.activated := by
  unfold Agrees at h
  rw [Bool.eq_iff_iff, isActive_active_iff, h]
  have henv : envActive none = false := by decide
  simp [henv, Option.any_eq_true]

/-- A database that takes one writer at a time flushes a row only with no call in flight. -/
def OneWriter (s : Sys κ) : Label κ → Prop
  | .flush _ _ _ => ∀ k, s.call k = none
  | _ => True

/-- At most one call is in flight, and its row is newer than every committed one. -/
structure Serial (s : Sys κ) : Prop where
  once : ∀ k l, s.call k ≠ none → s.call l ≠ none → k = l
  newer : ∀ k p row, s.call k = some (p, row) → ∀ r ∈ s.rows, r.id < row.id

theorem step_serial (h : Serial s) (hone : OneWriter s a) (hstep : step s a = some t) :
    Serial t := by
  have hbefore : ∀ k p row, t.call k = some (p, row) →
      (∃ q, s.call k = some (q, row)) ∨ (∀ l, s.call l = none) ∧ k = a.process ∧
        t.rows = s.rows ∧ ∀ r ∈ s.rows, r.id < row.id := by
    intro k p row hk
    rcases step_call hstep hk with hold | ⟨req, id, rfl, hfresh, hrow⟩
    · exact Or.inl hold
    · rcases step_rows hstep with hrows | ⟨l, row', hl, -, -⟩
      · exact Or.inr ⟨hone, rfl, hrows, fun r hr => Request.row_id hrow ▸ hfresh.1 r hr⟩
      · cases hl
  refine ⟨fun k l hk hl => ?_, fun k p row hk r hr => ?_⟩
  · obtain ⟨⟨p, row⟩, hk⟩ := Option.ne_none_iff_exists'.mp hk
    obtain ⟨⟨q, row'⟩, hl⟩ := Option.ne_none_iff_exists'.mp hl
    rcases hbefore k p row hk with ⟨p', hk'⟩ | ⟨hidle, hka, -⟩
    · rcases hbefore l q row' hl with ⟨q', hl'⟩ | ⟨hidle, -⟩
      · exact h.once k l (by simp [hk']) (by simp [hl'])
      · rw [hidle k] at hk'
        cases hk'
    · rcases hbefore l q row' hl with ⟨q', hl'⟩ | ⟨-, hla, -⟩
      · rw [hidle l] at hl'
        cases hl'
      · exact hka.trans hla.symm
  · rcases hbefore k p row hk with ⟨q, hk'⟩ | ⟨-, -, hrows, hlt⟩
    · rcases step_rows hstep with hrows | ⟨l, row', rfl, hl, -⟩
      · exact h.newer k q row hk' r (hrows ▸ hr)
      · -- the one call in flight is the one that commits, and it is gone
        obtain rfl := h.once k l (by simp [hk']) (by simp [hl])
        simp only [step, hl] at hstep
        obtain rfl := Option.some.inj hstep
        simp [Sys.setCall] at hk
    · exact hlt r (hrows ▸ hr)

/-- With one writer at a time the writes to Redis come in the order of the ids. -/
theorem oneWriter_inOrder {as : List (Label κ)} (h : Initial s) (hrun : exec step s as = some t)
    (hone : Guarded step OneWriter s as) : Guarded step InOrder s as := by
  have hserial : Serial s :=
    ⟨fun k _ hk => absurd (h.2 k) hk, fun k p row hk => by simp [h.2 k] at hk⟩
  refine guarded_of_invariant Serial (fun s a t hs hone hstep => ?_) hserial hone hrun
  refine ⟨step_serial hs hone hstep, ?_⟩
  cases a with
  | redis k =>
    rintro ⟨p, row⟩ hk r hr - hlt
    rcases hr with hr | ⟨l, q, hl, hq⟩
    · exact absurd (hs.newer k p row hk r hr) (lt_asymm hlt)
    · obtain rfl := hs.once k l (by simp [Option.mem_def.mp hk]) (by simp [hl])
      obtain ⟨-, rfl⟩ := Prod.mk.inj (Option.some.inj (hl.symm.trans hk))
      exact absurd hlt (lt_irrefl _)
  | _ => trivial

/-- Calls that all complete leave the key and the switch at what the latest row says, if no
write to Redis that is overtaken by the newest row differs from it. -/
theorem flag_agrees_with_history {s₀ t : Sys κ} {as : List (Label κ)} (h₀ : Initial s₀)
    (hagrees : Agrees s₀) (hrun : exec step s₀ as = some t) (hcomplete : ∀ k, .stop k ∉ as)
    (horder : Guarded step InOrder s₀ as) (hidle : ∀ k, t.call k = none) :
    Agrees t ∧ (isActive none t.redisFlag t.rows).active =
      (latestDbEvent t.rows).any KillSwitchEvent.activated := by
  have hguard := guarded_and_forall horder (P := fun a => ∀ k, a ≠ .stop k)
    fun a ha k hk => hcomplete k (hk ▸ ha)
  have hstart : IdsDistinct s₀ ∧ Mirrors s₀ :=
    ⟨h₀.idsDistinct, (mirrors_iff_agrees h₀.2 h₀.1).mpr hagrees⟩
  have hend : IdsDistinct t ∧ Mirrors t :=
    guarded_invariant (fun s => IdsDistinct s ∧ Mirrors s) (fun s a t hs ha hstep =>
      ⟨step_idsDistinct hs.1 hstep, step_mirrors hs.2 hs.1 ha.1 ha.2 hstep⟩) hstart hguard hrun
  have hagree : Agrees t := (mirrors_iff_agrees hidle hend.1.rows_nodup).mp hend.2
  exact ⟨hagree, hagree.isActive⟩

/-- An activation and a deactivation overlap: both are flushed, Redis is written in the order of
the ids, and the younger one commits first. -/
theorem flag_agrees_with_history_overlap :
    (isActive none none [⟨2, false, .manual, "bob", some "done"⟩,
      ⟨1, true, .manual, "alice", none⟩]).active = false := by
  let s₀ : Sys (Fin 2) := ⟨none, [], fun _ => none⟩
  let calls : List (Label (Fin 2)) :=
    [.flush 0 (.activate .manual "alice" none) 1,
      .flush 1 (.deactivate (some "I-understand") "bob" "done") 2, .redis 0, .redis 1,
      .publish 0, .publish 1, .commit 1, .commit 0]
  have h₀ : Initial s₀ := ⟨List.nodup_nil, fun _ => rfl⟩
  have hrun : ∃ t, exec step s₀ calls = some t ∧ (∀ k, t.call k = none) ∧
      t.rows = [⟨2, false, .manual, "bob", some "done"⟩, ⟨1, true, .manual, "alice", none⟩] ∧
      t.redisFlag = none :=
    ⟨_, rfl, by decide, rfl, rfl⟩
  obtain ⟨t, ht, hidle, hrows, hflag⟩ := hrun
  have h := flag_agrees_with_history h₀ rfl ht (by decide) (by decide) hidle
  rw [hflag, hrows] at h
  exact h.2

/-- The deactivation is flushed second and deletes the key first; the activation then sets it.
The table ends with the deactivation, and the switch stays on. -/
theorem overtaken_flag_disagrees : ¬ ∀ (s₀ t : Sys (Fin 2)) (as : List (Label (Fin 2))),
    Initial s₀ → Agrees s₀ → exec step s₀ as = some t → (∀ k, .stop k ∉ as) →
    (∀ k, t.call k = none) → Agrees t ∧ (isActive none t.redisFlag t.rows).active =
      (latestDbEvent t.rows).any KillSwitchEvent.activated := by
  intro h
  let s₀ : Sys (Fin 2) := ⟨none, [], fun _ => none⟩
  let calls : List (Label (Fin 2)) :=
    [.flush 0 (.activate .manual "alice" none) 1,
      .flush 1 (.deactivate (some "I-understand") "bob" "done") 2, .redis 1, .redis 0,
      .publish 0, .publish 1, .commit 0, .commit 1]
  have hrun : ∃ t, exec step s₀ calls = some t ∧ (∀ k, t.call k = none) ∧
      t.rows = [⟨1, true, .manual, "alice", none⟩, ⟨2, false, .manual, "bob", some "done"⟩] ∧
      t.redisFlag = some "1" :=
    ⟨_, rfl, by decide, rfl, rfl⟩
  obtain ⟨t, ht, hidle, hrows, hflag⟩ := hrun
  have hagrees := (h s₀ t calls ⟨List.nodup_nil, fun _ => rfl⟩ rfl ht (by decide) hidle).1
  rw [Agrees, hflag, hrows] at hagrees
  exact absurd hagrees (by decide)

end XSocialTrader.KillSwitch
