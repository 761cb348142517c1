import KeyFob.Proofs.Connectivity.Rotation
import KeyFob.Proofs.Provisioning.Ends
import KeyFob.Proofs.Restart.Race
import KeyFob.Proofs.Session.Halting
import KeyFob.Tasks

/-!
How tasks come to their end. Each of them either asks for a restart itself or has seen that one is pending, and which of
the requests wins is settled by the race between them.
-/

namespace KeyFob

variable {ε κ τ : Type}

namespace Indicator

theorem tick_keeps (i : Indicator) (up : Bool) : KeepsPending (i.tick up : Run ε κ τ Indicator) := by
  unfold tick
  split
  · exact .bind (.of_leaves (Run.led_leaves _ _)) fun _ => .pure _
  · exact .pure _

theorem run_pending [Surroundings ε] (i : Indicator) (ticks : Nat) :
    EndsPending (i.run ticks : Run ε κ τ _) (·.1 = true) := by
  induction ticks generalizing i with
  | zero => exact Run.halting_pending.branch (.pure _) (.pure nofun)
  | succ ticks ih =>
    refine Run.halting_pending.branch (.pure _) ?_
    refine .after (.of_leaves Run.readLink_leaves) fun link => .after (i.tick_keeps _) fun i' => ?_
    exact .after (.of_leaves (Run.delay_leaves _)) fun _ => ih i'

end Indicator

namespace ResetMonitor

variable [Surroundings ε] [Storage κ]

theorem poll_pending : EndsPending (poll : Run ε κ τ Bool) (· = true) := by
  unfold poll
  refine .after (.of_leaves Run.signals_leaves) fun s => ?_
  cases s.reset with
  | false => exact .pure nofun
  | true =>
    refine .after (.of_leaves (Run.emit_leaves _)) fun _ => .after (.of_leaves (Run.onShelf_leaves _)) fun r => ?_
    cases r with
    | ok _ =>
      refine .after (.of_leaves (Run.log_leaves _ _ _)) fun _ => ?_
      exact (Run.act_restart_pending _).then_keeps fun _ => .pure _
    | error e => exact .after (.of_leaves (Run.log_leaves _ _ _)) fun _ => .pure nofun

theorem run_pending (pollMs : UInt32) (polls : Nat) : EndsPending (run pollMs polls : Run ε κ τ Bool) (· = true) := by
  induction polls with
  | zero => exact .pure nofun
  | succ polls ih =>
    refine poll_pending.branch (.pure _) (Run.halting_pending.branch (.pure _) ?_)
    exact .after (.of_leaves (Run.delay_leaves _)) fun _ => ih

end ResetMonitor

namespace Tasks

theorem log_leaves (level : Level) (message : String) :
    Leaves (log level message : Run ε κ τ Unit) fun _ o => o = [] :=
  Run.log_leaves level .coordinator message

variable [Surroundings ε]

/-- Whoever asks for a restart leaves one pending, its own or another. -/
theorem request_pending (reason : Restart.Reason) : EndsPending (request reason : Run ε κ τ Unit) fun _ => True := by
  refine Run.halting_pending.branch (.of_leaves (log_leaves _ _)) ?_
  exact .after (.of_leaves (Run.emit_leaves _)) fun _ => Run.act_restart_pending reason

theorem request_leaves (reason : Restart.Reason) :
    Leaves (request reason : Run ε κ τ Unit) fun _ o => o = [] ∨ o = [.emit (.restartRequested reason)] := by
  refine Run.halting_leaves.skip fun halting => ?_
  cases halting with
  | true => exact (log_leaves _ _).mono fun _ _ h => Or.inl h
  | false =>
    refine (Run.emit_leaves _).step fun _ => (Run.act_leaves _).mono fun _ _ h => Or.inr ?_
    rw [h]
    rfl

theorem linkStep_pending (c : Connectivity) : EndsPending (linkStep c : Run ε κ τ _) (·.1 = .ended) := by
  unfold linkStep
  refine .after (.of_leaves Run.get_leaves) fun d => ?_
  split
  · exact .pure nofun
  · next e queue _ =>
    refine .after (.of_leaves (Run.leaves_of_same (fun _ => rfl) fun _ => rfl)) fun _ => ?_
    refine Run.halting_pending.branch (.pure _) (.after (.of_leaves (Connectivity.handle_leaves c e)) fun (r, c) => ?_)
    cases r with
    | ok _ => exact .pure nofun
    | error e => exact .after (.of_leaves (log_leaves _ _)) fun _ => (request_pending _).then_keeps fun _ => .pure _

/-- The link task is nothing but its steps, so that one of them ends it. -/
theorem link_pending (c : Connectivity) : EndsPending (link c : Run ε κ τ _) (·.1 = .ended) := by
  have run (d : Device ε κ τ) : (d.signals.halting = true → (link c d).2.signals.restart = d.signals.restart) ∧
      ((link c d).1.1 = .ended → (link c d).2.signals.halting = true) := by
    have step (c : Connectivity) : EndsPending (linkStep c : Run ε κ τ _) (·.1 = .ended) := linkStep_pending c
    induction c, d using link.induct with
    | case1 c d c' d' h =>
      have hkept := (step c).kept d
      have hended := (step c).ended d
      rw [h] at hkept hended
      rw [link, h]
      exact ⟨hkept, fun _ => hended rfl⟩
    | case2 c d c' d' h =>
      have hkept := (step c).kept d
      rw [h] at hkept
      rw [link, h]
      exact ⟨hkept, fun hended => by cases hended⟩
    | case3 c d c' d' h hlt ih =>
      have hkept := (step c).kept d
      have hhalting := (step c).kept.halting (d := d)
      rw [h] at hkept hhalting
      rw [link, h]
      simp only [if_pos hlt]
      exact ⟨fun hd => (ih.1 (hhalting hd)).trans (hkept hd), ih.2⟩
    | case4 c d c' d' h hle =>
      have hkept := (step c).kept d
      rw [h] at hkept
      rw [link, h]
      simp only [if_neg hle]
      exact ⟨hkept, fun hended => by cases hended⟩
  exact ⟨fun d => (run d).1, fun d => (run d).2⟩

variable [Storage κ] [Token κ τ]

theorem session_pending (settings : Config.Settings) :
    EndsPending (session settings : Run ε κ τ Ending) (· = .ended) := by
  unfold session
  refine .after (.of_leaves (Lifecycle.run_leaves _)) fun (booted, _) => ?_
  cases booted with
  | error e => exact (request_pending _).then_keeps fun _ => .pure _
  | ok _ =>
    refine (Session.run_pending _).bind (fun (e, s) h => ?_) fun (e, s) h => ?_
    · obtain rfl : e = .halted := h
      exact .bind (.of_leaves (log_leaves _ _)) fun _ => .pure _
    · cases e with
      | halted => exact absurd rfl h
      | waiting => exact .pure nofun
      | fatal reason =>
        refine (request_pending reason).then_keeps fun _ => ?_
        exact .bind (.of_leaves (log_leaves _ _)) fun _ => .pure _

def stopped (s : Session) : Note :=
  .log ⟨.info, .coordinator, s!"SESSION: stopped (served={s.stats.served.toNat}, lockouts={s.stats.lockouts.toNat}, " ++
    s!"connect_failures={s.stats.connectFailures.toNat})"⟩

/-- A session task that has not ended waits for a link that it has just seen down. -/
theorem session_waits (settings : Config.Settings) :
    Leaves (session settings : Run ε κ τ Ending) fun e o => e = .waiting → ∃ o', o = o' ++ [.readLink none] := by
  refine (Lifecycle.run_leaves _).bind fun (booted, _) o _ => ?_
  cases booted with
  | error e => exact (request_leaves _).bind fun _ _ _ => .pure nofun
  | ok _ =>
    refine (Session.run_leaves _).bind fun (e, s) o' hlaps => ?_
    have ended : Leaves (do
        Run.add (.note (stopped s))
        return .ended : Run ε κ τ Ending) fun e _ => e = .ended :=
      (Run.add_leaves (e := .note (stopped s)) fun _ => ⟨trivial, rfl⟩).bind fun _ _ _ => .pure rfl
    cases e with
    | waiting =>
      obtain ⟨o', rfl⟩ := hlaps.link_down rfl
      exact .pure fun _ => ⟨o ++ o', by simp⟩
    | halted => exact ended.mono fun _ _ he hwaiting => nomatch he.symm.trans hwaiting
    | fatal reason =>
      exact (request_leaves _).bind fun _ _ _ => ended.mono fun _ _ he hwaiting => nomatch he.symm.trans hwaiting

/-- However many requests for a restart come between one another and the coordinator's waits, a restart that is pending
stays so, and the coordinator is given one reason at most: that of the request that swapped first, which waits for it or
has been given to it from when that request is done. And whatever the others do meanwhile, a task that comes to its end
leaves a restart pending, and a session task that does not has just seen the link down. -/
theorem first_request_wins_and_tasks_end_pending {ι : Type} [DecidableEq ι] (asks : ι → Restart.Ask)
    (ms : List (Restart.Race.Move ι)) :
    let c := Restart.Race.run asks ms
    (∀ later, c.request.halting = true → (Restart.Race.run asks (ms ++ later)).request.halting = true) ∧
    (∀ i, c.phase i = .looking ∨ c.phase i = .swapping →
      ([.step i, .step i, .step i].foldl (Restart.Race.move asks) c).request = c.request.request (asks i).reason) ∧
    c.delivered.length ≤ 1 ∧
    (∀ r ∈ c.delivered, ∃ first, c.swapped.head? = some first ∧ r = (asks first).reason) ∧
    (∀ first, c.swapped.head? = some first → c.phase first = .done →
      c.request.pending = some (asks first).reason ∧ c.delivered = [] ∨
        c.request.pending = none ∧ c.delivered = [(asks first).reason]) ∧
    (∀ settings, EndsPending (session settings : Run ε κ τ _) (· = .ended)) ∧
    (∀ settings (d : Device ε κ τ), (session settings d).1 = .waiting →
      ∃ o, own ((session settings d).2.journal.since d.journal) = o ++ [.readLink none]) ∧
    (∀ c, EndsPending (linkStep c : Run ε κ τ _) (·.1 = .ended) ∧ EndsPending (link c : Run ε κ τ _) (·.1 = .ended)) ∧
    (∀ pollMs polls, EndsPending (ResetMonitor.run pollMs polls : Run ε κ τ _) (· = true)) ∧
    (∀ i ticks, EndsPending (Indicator.run i ticks : Run ε κ τ _) (·.1 = true)) := by
  intro c
  have hstanding : c.Standing asks := Restart.Race.standing_run asks ms
  refine ⟨fun later => Restart.Race.halting_run, c.alone, ?_, fun r hr => (hstanding.reason_of_given hr).2,
    fun first => hstanding.reason_left, session_pending, fun settings d hwaiting => ?_,
    fun c => ⟨linkStep_pending c, link_pending c⟩, ResetMonitor.run_pending, Indicator.run_pending⟩
  · cases hgiven : c.delivered with
    | nil => exact Nat.zero_le 1
    | cons r rest =>
      have hone := (hstanding.reason_of_given (hgiven ▸ List.mem_cons_self)).1
      rw [← hgiven, hone]
      exact Nat.le_refl 1
  · obtain ⟨t, hj, -, ht⟩ := session_waits settings d
    rw [Journal.since_eq hj]
    exact ht hwaiting

end Tasks

end KeyFob
