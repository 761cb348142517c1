import KeyFob.Bench.Plan
import KeyFob.Proofs.Session.Invalidation

/-!
Calls of the token and the link. A bump that no invalidation has followed yet is a debt. A session pays its debts when
it looks at the epoch, once in a cycle, and so calls the token in debt in two cases only: the link moved behind that
look, as it may while the gate waits for the button, or it moved so often that the epoch came back to where it was.
-/

namespace KeyFob

namespace Entry

def isCall : Entry → Bool
  | process _ => true
  | _ => false

def isInvalidation : Entry → Bool
  | invalidate => true
  | _ => false

end Entry

/-- Between any bump and any later call of the token the token forgets. -/
def ForgetsEveryBump (J : List Entry) : Prop :=
  ∀ (u v w : List Entry) (c : Card.Command), J = u ++ .acted .bump :: (v ++ .process c :: w) → .invalidate ∈ v

/-- Whether the token is called while a bump has not been followed by an invalidation. The debt may be there from the
start. -/
def callsInDebt : Bool → List Entry → Bool
  | _, [] => false
  | debt, x :: t => (debt && x.isCall) || callsInDebt ((debt || x.isBump) && !x.isInvalidation) t

theorem debt_cases {t : List Entry} {debt : Bool} (h : callsInDebt debt t = true) :
    (debt = true ∧ ∃ (v w : List Entry) (c : Card.Command), t = v ++ .process c :: w ∧ .invalidate ∉ v) ∨
      ∃ (u v w : List Entry) (c : Card.Command), t = u ++ .acted .bump :: (v ++ .process c :: w) ∧ .invalidate ∉ v := by
  induction t generalizing debt with
  | nil => cases h
  | cons x t ih =>
    simp only [callsInDebt, Bool.or_eq_true, Bool.and_eq_true] at h
    rcases h with ⟨hd, hx⟩ | h
    · cases x with
      | process c => exact Or.inl ⟨hd, [], t, c, rfl, by simp⟩
      | _ => cases hx
    rcases ih h with ⟨hd, v, w, c, rfl, hv⟩ | ⟨u, v, w, c, rfl, hv⟩
    · simp only [Bool.and_eq_true, Bool.or_eq_true, Bool.not_eq_true'] at hd
      obtain ⟨hd | hd, hx⟩ := hd
      · refine Or.inl ⟨hd, x :: v, w, c, rfl, fun hm => ?_⟩
        rcases List.mem_cons.1 hm with rfl | hm
        · cases hx
        · exact hv hm
      · refine Or.inr ⟨[], v, w, c, ?_, hv⟩
        cases x with
        | acted a => cases a <;> first | rfl | cases hd
        | _ => cases hd
    · exact Or.inr ⟨x :: u, v, w, c, rfl, hv⟩

theorem bump_of_debt {J : List Entry} (h : callsInDebt false J = true) :
    ∃ (u v w : List Entry) (c : Card.Command), J = u ++ .acted .bump :: (v ++ .process c :: w) ∧ .invalidate ∉ v :=
  (debt_cases h).resolve_left fun hd => nomatch hd.1

namespace Session

open Bench (Plan Turns AnyToken)

variable {ε κ τ : Type} [Surroundings ε] [Token κ τ] {s : Session} {d : Device ε κ τ} {rounds : List Round}

/-- Between a bump and a call of the token the token forgets, unless both belong to one cycle and the bump came behind
the look at the epoch, as it does when the link moves while the gate waits. -/
theorem calls_follow_the_link (hseen : s.cursor.seen = d.signals.epoch) (hfew : FewBumps (trails s d rounds).flatten)
    {u v w : List Entry} {c : Card.Command}
    (hJ : (trails s d rounds).flatten = u ++ .acted .bump :: (v ++ .process c :: w)) :
    .invalidate ∈ v ∨ ∃ (before after : List (List Entry)) (a b r : List Entry) (epoch : UInt32),
      trails s d rounds = before ++ (a ++ .readEpoch epoch :: (b ++ .acted .bump :: (v ++ .process c :: r))) :: after ∧
        u = before.flatten ++ (a ++ .readEpoch epoch :: b) := by
  rw [← List.cons_append, ← List.append_assoc] at hJ
  obtain ⟨before, t, after, pre, post, hts, ht, hpre, -⟩ := flatten_split hJ
  obtain ⟨s₁, s₂, e, σ₁, σ₂, hkeep, hacc, hcyc⟩ :=
    (consecutive_trails s d rounds).keepsUp (keepsUp_nil hseen) (by simpa using hfew) hts
  rw [hts] at hfew
  obtain ⟨a, b, epoch, index, rfl, -, -, -, hpast⟩ :=
    hkeep.forgotten hacc hcyc (z := after.flatten) (by simpa using hfew) ht rfl rfl
  rw [← List.append_assoc] at hpre
  rcases append_cons_cases hpre with ⟨-, h, -⟩ | ⟨m, hm, rfl⟩ | ⟨m, rfl, rfl⟩
  · cases h
  · have hinv := hpast u m (by rw [List.nil_append, hm])
    simp only [List.mem_append, List.mem_cons, reduceCtorEq, false_or] at hinv ⊢
    exact Or.inl hinv
  · refine Or.inr ⟨before, after, a, m, post, epoch, ?_, by simp⟩
    rw [hts, ht]
    simp

/-- The link goes down while the gate waits, and then somebody presses the button. -/
def lostWhileWaiting : Device Plan MemoryStore AnyToken where
  outside := { timed := [⟨300, .act .bump⟩, ⟨300, .act .linkDown⟩, ⟨600, .act .raise⟩] }
  store := {}
  token := .scripted {}
  signals := ({} : Signals).bump.linkUp 0
  dials := [.connects { message := [0x00, 0x88, 0x00, 0x00] }]

theorem calls_follow_the_link_lost_while_waiting :
    let s : Session := { settings := .default, cursor := ⟨1⟩ }
    let ts := trails s lostWhileWaiting [.cycle]
    s.cursor.seen = lostWhileWaiting.signals.epoch ∧ FewBumps ts.flatten ∧
      ∃ (u v w : List Entry) (c : Card.Command),
        ts.flatten = u ++ .acted .bump :: (v ++ .process c :: w) ∧ .invalidate ∉ v ∧
        ∃ (before after : List (List Entry)) (a b r : List Entry) (epoch : UInt32),
          ts = before ++ (a ++ .readEpoch epoch :: (b ++ .acted .bump :: (v ++ .process c :: r))) :: after ∧
            u = before.flatten ++ (a ++ .readEpoch epoch :: b) := by
  intro s ts
  have hseen : s.cursor.seen = lostWhileWaiting.signals.epoch := rfl
  have hfew : FewBumps ts.flatten := fewBumps_of_lt (by decide +kernel)
  have hdebt : callsInDebt false ts.flatten = true := by decide +kernel
  obtain ⟨u, v, w, c, hJ, hv⟩ := bump_of_debt hdebt
  exact ⟨hseen, hfew, u, v, w, c, hJ, hv, (calls_follow_the_link hseen hfew hJ).resolve_left hv⟩

/-- The press then lets the command through, and the token answers it with what it remembers from before. -/
theorem call_behind_a_lost_link :
    ¬ ForgetsEveryBump (trails { settings := .default } lostWhileWaiting [.cycle]).flatten := by
  have hdebt : callsInDebt false (trails { settings := .default } lostWhileWaiting [.cycle]).flatten = true := by
    decide +kernel
  intro h
  obtain ⟨u, v, w, c, hJ, hv⟩ := bump_of_debt hdebt
  exact hv (h u v w c hJ)

def moved (n : Nat) : Device Turns MemoryStore AnyToken :=
  { Turns.device [List.replicate n .bump] [[0x00, 0xB0, 0x00, 0x00]] with signals := ({} : Signals).linkUp 0 }

/-- A fob behind a number of moves that add up to none. -/
def unmoved (n : Nat) : Device Turns MemoryStore AnyToken :=
  { moved 0 with outside := {}, journal := ⟨List.replicate n (.acted .bump)⟩ }

theorem serveOnce_moved {n : Nat} (hn : UInt32.ofNat n = 0) (s : Session) :
    serveOnce s (moved n) = serveOnce s (unmoved n) := by
  have hm : Run.meanwhile (moved n) = Run.meanwhile (unmoved n) := by
    change Run.actAll (List.replicate n .bump) { moved n with outside := ({} : Turns) } = _
    rw [Run.actAll_eq, foldl_bump, List.map_replicate, List.reverse_replicate, hn]
    simp [moved, Turns.device]
    rfl
  unfold serveOnce Run.halting Run.signals
  simp only [bind_assoc]
  exact Run.bind_eq hm

theorem trails_moved {n : Nat} (hn : UInt32.ofNat n = 0) (s : Session) :
    (trails s (moved n) [.cycle]).flatten = (serveOnce s (unmoved n)).2.journal.toList := by
  rw [trails, trails, round, serveOnce_moved hn]
  simp [Journal.since, moved, Turns.device, Journal.toList]

theorem take_suffix {α : Type} (l : List α) (n : Nat) : l.reverse = (l.drop n).reverse ++ (l.take n).reverse := by
  rw [← List.reverse_append, List.take_append_drop]

/-- A session cannot tell an epoch that went all the way round from one that stayed where it was. -/
theorem call_behind_a_full_turn :
    ¬ ForgetsEveryBump (trails { settings := .default } (moved UInt32.size) [.cycle]).flatten := by
  have hdebt : callsInDebt false
      ((serveOnce { settings := .default } (unmoved UInt32.size)).2.journal.reversed.take 30).reverse = true := by
    decide +kernel
  obtain ⟨u, v, w, c, hR, hv⟩ := bump_of_debt hdebt
  rw [trails_moved (by decide +kernel), Journal.toList, take_suffix _ 30, hR, ← List.append_assoc]
  exact fun h => hv (h _ v w c rfl)

end Session

end KeyFob
