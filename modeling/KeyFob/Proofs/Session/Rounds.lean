import KeyFob.Proofs.Session.Shape

/-!
Any number of cycles on one session, whatever comes of each. A cycle that finds the link down waits for it; the next
round then takes it up at its look at the link. `trails` lists what each round adds to the journal, and
`consecutive_trails` is all that is known of it.
-/

namespace KeyFob

namespace Session

inductive Round
  | cycle
  | resume
deriving DecidableEq, Repr

variable {ε κ τ : Type} [Surroundings ε] [Token κ τ]

def round : Round → Session → Run ε κ τ (CycleEnd × Session)
  | .cycle => serveOnce
  | .resume => serveLink

def trails (s : Session) (d : Device ε κ τ) : List Round → List (List Entry)
  | [] => []
  | r :: rest => (round r s d).2.journal.since d.journal :: trails (round r s d).1.2 (round r s d).2 rest

/-- Trails of cycles, each of which takes up the session and the signals that the one before it has left. -/
inductive Consecutive : Session → Signals → List (List Entry) → Prop
  | nil (s : Session) (σ : Signals) : Consecutive s σ []
  | cons {s s' : Session} {σ σ' : Signals} {e : CycleEnd} {t : List Entry} {ts : List (List Entry)}
    (ht : Accounts σ t σ') (hc : Cycles s e s' (own t)) (hts : Consecutive s' σ' ts) : Consecutive s σ (t :: ts)

theorem round_leaves (r : Round) (s : Session) :
    Leaves (round r s : Run ε κ τ _) fun (e, s') o => Cycles s e s' o := by
  cases r with
  | cycle => exact serveOnce_leaves s
  | resume => exact serveLink_leaves s

theorem consecutive_trails (s : Session) (d : Device ε κ τ) (rounds : List Round) :
    Consecutive s d.signals (trails s d rounds) := by
  induction rounds generalizing s d with
  | nil => exact .nil s d.signals
  | cons r rest ih =>
    obtain ⟨t, hj, hs, hc⟩ := round_leaves r s d
    rw [trails, Journal.since_eq hj]
    exact .cons hs hc (ih _ _)

/-- What the trails tell, put together, accounts for the signals. -/
theorem Consecutive.accounts {s : Session} {σ : Signals} {ts : List (List Entry)} (h : Consecutive s σ ts) :
    ∃ σ', Accounts σ ts.flatten σ' := by
  induction h with
  | nil s σ => exact ⟨σ, rfl⟩
  | cons hacc _ _ ih =>
    obtain ⟨σ', hσ'⟩ := ih
    exact ⟨σ', hacc.append hσ'⟩

/-- Each trail is that of a cycle. -/
theorem Consecutive.cycle {s : Session} {σ : Signals} {ts : List (List Entry)} (h : Consecutive s σ ts)
    {t : List Entry} (ht : t ∈ ts) : ∃ s₁ s₂ e σ₁ σ₂, Accounts σ₁ t σ₂ ∧ Cycles s₁ e s₂ (own t) := by
  induction h with
  | nil => cases ht
  | cons hacc hc _ ih =>
    rcases List.mem_cons.1 ht with rfl | ht
    · exact ⟨_, _, _, _, _, hacc, hc⟩
    · exact ih ht

end Session

end KeyFob
