import KeyFob.Proofs.Journal.Vault
import KeyFob.Proofs.Session.Rounds

/-!
A cycle reaches the store and the token through the token's own calls only: all else of it stands by. So a cycle, and
any round of a session, keeps to whatever the calls of the token keep to.
-/

namespace KeyFob

namespace Gate

open Config (ConfirmPolicy)

variable {ε κ τ : Type} [Surroundings ε]

theorem pulse_bystands (halfMs : Nat) : Bystands (pulse halfMs : Run ε κ τ Unit) := by
  unfold pulse
  refine (Run.led_bystands _ _).bind fun _ => (Run.led_bystands _ _).bind fun _ => (Run.delay_bystands _).bind fun _ => ?_
  exact (Run.led_bystands _ _).bind fun _ => (Run.led_bystands _ _).bind fun _ => Run.delay_bystands _

theorem wait_bystands (halfMs n : Nat) : Bystands (wait halfMs n : Run ε κ τ Bool) := by
  induction n with
  | zero => exact Run.takeConfirm_bystands
  | succ n ih =>
    refine Run.takeConfirm_bystands.bind fun b => ?_
    cases b with
    | true => exact .pure _
    | false => exact (pulse_bystands halfMs).bind fun _ => ih

theorem await_bystands (p : ConfirmPolicy) : Bystands (await p : Run ε κ τ Outcome) := by
  unfold await
  refine Run.clearConfirm_bystands.bind fun _ => Run.uptime_bystands.bind fun _ => (wait_bystands _ _).bind fun b => ?_
  refine (Run.led_bystands _ _).bind fun _ => Run.uptime_bystands.bind fun _ => ?_
  cases b <;> exact (Run.log_bystands _ _ _).bind fun _ => .pure _

theorem evaluate_bystands (p : ConfirmPolicy) (c : Card.Command) : Bystands (evaluate p c : Run ε κ τ Outcome) := by
  have judges : Bystands (judge p c : Run ε κ τ Outcome) := by
    unfold judge
    split
    · exact (Run.log_bystands _ _ _).bind fun _ => await_bystands p
    · exact .pure _
  refine Run.meanwhile_bystands.bind fun _ => (Run.add_bystands rfl).bind fun _ => judges.bind fun _ => ?_
  exact (Run.add_bystands rfl).bind fun _ => .pure _

end Gate

namespace Session

open Card (Command)
open Config (Endpoint)

variable {ε κ τ : Type}

theorem log_bystands (level : Level) (message : String) : Bystands (log level message : Run ε κ τ Unit) :=
  Run.log_bystands level .session message

theorem add_dial_bystands (peer : Endpoint) (r : Except DialError Unit) :
    Bystands (Run.add (.dial peer r) : Run ε κ τ Unit) :=
  Run.add_bystands rfl

theorem setDials_bystands (dials : List Dial) : Bystands (modify fun d => { d with dials } : Run ε κ τ Unit) :=
  fun _ => rfl

theorem warnOfStreak_bystands (s : Session) : Bystands (warnOfStreak s : Run ε κ τ Unit) := by
  unfold warnOfStreak
  dsimp only
  split
  · exact log_bystands _ _
  · exact .pure _

theorem refused_bystands (peer : Endpoint) (s : Session) : Bystands (dialFrom.refused peer s : Run ε κ τ _) :=
  (add_dial_bystands _ _).bind fun _ => (log_bystands _ _).bind fun _ => .pure _

theorem announce_bystands [Surroundings ε] (c : Command) : Bystands (announce c : Run ε κ τ Unit) := by
  unfold announce
  split
  · exact Run.emit_bystands _
  · exact .pure _

variable [Surroundings ε] [Token κ τ]

/-- What the calls that a session makes of its token keep to. -/
structure TokenKeeps (ε : Type) [Surroundings ε] [Token κ τ] (R : Vault κ τ → Vault κ τ → Prop) : Prop
    extends Vault.IsPreorder R where
  process (c : Command) (buffer : Card.Response) : Keeps R (Run.process c buffer : Run ε κ τ _)
  invalidate : Keeps R (Run.invalidate : Run ε κ τ Unit)

namespace TokenKeeps

variable {R : Vault κ τ → Vault κ τ → Prop} (h : TokenKeeps ε R)
include h

theorem dialFrom (index : Nat) (peer : Endpoint) (dials : List Dial) (s : Session) :
    Keeps R (dialFrom index peer dials s : Run ε κ τ _) := by
  have ends : ∀ a, Keeps R (pure a : Run ε κ τ (Dialed × Session)) := .pure h.toIsPreorder
  have refused : Keeps R (Session.dialFrom.refused peer s : Run ε κ τ _) :=
    .of_bystands h.toIsPreorder (refused_bystands peer s)
  induction dials generalizing s with
  | nil =>
    unfold Session.dialFrom
    refine .after Run.halting_bystands fun halting => ?_
    cases halting with
    | true => exact ends _
    | false => exact refused
  | cons dial rest ih =>
    unfold Session.dialFrom
    refine .after Run.halting_bystands fun halting => ?_
    cases halting with
    | true => exact ends _
    | false =>
      rcases dial with ⟨_ | _⟩ | x
      · exact .after (setDials_bystands _) fun _ => refused
      · refine .after (setDials_bystands _) fun _ => .after (add_dial_bystands _ _) fun _ => ?_
        refine .bind h.toIsPreorder h.invalidate fun _ => .after (Run.emit_bystands _) fun _ => ?_
        refine .after (Run.delay_bystands _) fun _ => .after Run.readLink_bystands fun link => ?_
        split
        · exact ends _
        · exact ih _ (.of_bystands h.toIsPreorder (refused_bystands peer _))
      · exact .after (setDials_bystands _) fun _ => .after (add_dial_bystands _ _) fun _ => ends _

theorem processes (s : Session) (c : Command) : Keeps R (Session.process s c : Run ε κ τ _) := by
  unfold Session.process
  refine .after (Run.led_bystands _ _) fun _ => .after Run.uptime_bystands fun _ => ?_
  refine .bind h.toIsPreorder (h.process c .empty) fun _ => .after Run.uptime_bystands fun _ => ?_
  refine .after (Run.led_bystands _ _) fun _ => ?_
  split
  · exact .after (Run.log_bystands _ _ _) fun _ => .pure h.toIsPreorder _
  · exact .pure h.toIsPreorder _

theorem answer (s : Session) (c : Command) : Keeps R (answer s c : Run ε κ τ _) := by
  unfold Session.answer
  refine .after (Gate.evaluate_bystands _ _) fun outcome => ?_
  cases outcome with
  | lockedOut =>
    exact .after (warnOfStreak_bystands _) fun _ => .after (Run.emit_bystands _) fun _ => .pure h.toIsPreorder _
  | confirmed waitedMs =>
    exact .after (Run.emit_bystands _) fun _ => .bind h.toIsPreorder (h.processes _ c) fun _ => .pure h.toIsPreorder _
  | bypassed => exact .bind h.toIsPreorder (h.processes _ c) fun _ => .pure h.toIsPreorder _

theorem serveCommand (s : Session) (x : Exchange) (c : Command) : Keeps R (serveCommand s x c : Run ε κ τ _) := by
  unfold Session.serveCommand
  refine .after (announce_bystands c) fun _ => .after Run.uptime_bystands fun _ => ?_
  refine .bind h.toIsPreorder (h.answer s c) fun (response, locked, s') => .after (log_bystands _ _) fun _ => ?_
  refine .of_bystands h.toIsPreorder ((Run.write_bystands _ _).bind fun written => ?_)
  cases written with
  | error e =>
    exact (log_bystands _ _).bind fun _ => (Run.emit_bystands _).bind fun _ => Run.close_bystands.bind fun _ => .pure _
  | ok _ =>
    refine Run.close_bystands.bind fun _ => ?_
    cases locked with
    | true => exact .pure _
    | false => exact Run.uptime_bystands.bind fun _ => (Run.emit_bystands _).bind fun _ => .pure _

theorem followLink (s : Session) : Keeps R (followLink s : Run ε κ τ Session) := by
  unfold Session.followLink
  refine .after Run.readEpoch_bystands fun epoch => ?_
  dsimp only
  split
  · exact .after (log_bystands _ _) fun _ => .bind h.toIsPreorder h.invalidate fun _ => .pure h.toIsPreorder _
  · exact .pure h.toIsPreorder _

theorem serveConnection (s : Session) (x : Exchange) : Keeps R (serveConnection s x : Run ε κ τ _) := by
  unfold Session.serveConnection
  refine .after (Run.receive_bystands _ _) fun received => ?_
  cases received with
  | error e =>
    refine .after (log_bystands _ _) fun _ => .bind h.toIsPreorder h.invalidate fun _ => ?_
    exact .after Run.close_bystands fun _ => .pure h.toIsPreorder _
  | ok raw =>
    refine .after (log_bystands _ _) fun _ => .after (Run.logLines_bystands _) fun _ => ?_
    refine .bind h.toIsPreorder (h.followLink s) fun s' => ?_
    split
    · refine .bind h.toIsPreorder h.invalidate fun _ => .after Run.close_bystands fun _ => ?_
      exact .after (Run.emit_bystands _) fun _ => .pure h.toIsPreorder _
    · exact h.serveCommand _ _ _

theorem serveLink (s : Session) : Keeps R (serveLink s : Run ε κ τ _) := by
  unfold Session.serveLink
  refine .after Run.readLink_bystands fun link => ?_
  cases link with
  | none => exact .pure h.toIsPreorder _
  | some index =>
    dsimp only
    split
    · exact .after (log_bystands _ _) fun _ => .pure h.toIsPreorder _
    · refine .after Run.get_bystands fun d => .bind h.toIsPreorder (h.dialFrom index _ d.dials s) fun (r, s₁) => ?_
      cases r with
      | ended e => exact .pure h.toIsPreorder _
      | connected x =>
        refine .after (log_bystands _ _) fun _ => .bind h.toIsPreorder (h.serveConnection s₁ x) fun _ => ?_
        exact .pure h.toIsPreorder _

theorem round (r : Round) (s : Session) : Keeps R (round r s : Run ε κ τ _) := by
  cases r with
  | cycle =>
    refine .after Run.halting_bystands fun halting => ?_
    cases halting with
    | true => exact .pure h.toIsPreorder _
    | false => exact h.serveLink s
  | resume => exact h.serveLink s

end TokenKeeps

end Session

end KeyFob
