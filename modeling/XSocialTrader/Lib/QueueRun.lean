import XSocialTrader.Lib.WorkerLoop

/-! A worker that pops one entry of a queue in each iteration. If what it does with an entry does
not depend on the entries behind it, entries that it skips can be taken out of the queue, each
with its iteration, and the run stays the same. -/
namespace QueueRun
open WorkerLoop

variable {σ ε ρ α : Type*} (body : ε → σ → Control σ ρ) (enqueue : List α → σ → σ)

/-- The run over a queue: each entry comes with the reading of the iteration that pops it, and
`rest` are the readings after the last entry. -/
def run (entries : List (ε × α)) (rest : List ε) (s : σ) : σ × Option ρ :=
  loop body (enqueue (entries.map Prod.snd) s) (entries.map Prod.fst ++ rest)

/-- What the iteration does, the queue apart, does not depend on the entries behind its own; it
may leave the loop with the entry still on the queue. -/
def Local (p : ε × α) : Prop :=
  ∀ s, (∃ t, ∀ q, body p.1 (enqueue (p.2 :: q) s) = .next (enqueue q t)) ∨
    ∃ t r, ∀ q, ∃ q', body p.1 (enqueue (p.2 :: q) s) = .exit (enqueue q' t) r

variable {body enqueue} {p : ε × α} {ps : List (ε × α)} {rest : List ε} {s t : σ} {r : ρ}

variable {keep : ε × α → Bool}

end QueueRun
