import KeyFob.Session.Cycle

/-!
The script of dials. It is used up by dialing alone: whatever else a session does leaves it as it is.
-/

namespace KeyFob

variable {ε κ τ α β : Type}

def Undialed (m : Run ε κ τ α) : Prop := ∀ d, (m d).2.dials = d.dials

namespace Undialed

variable {m : Run ε κ τ α} {f : α → Run ε κ τ β}

theorem bind (hm : Undialed m) (hf : ∀ a, Undialed (f a)) : Undialed (m >>= f) :=
  fun d => (hf (m d).1 (m d).2).trans (hm d)

theorem pure (a : α) : Undialed (Pure.pure a : Run ε κ τ α) := fun _ => rfl

end Undialed

namespace Run

theorem add_undialed (e : Entry) : Undialed (add e : Run ε κ τ Unit) := fun _ => rfl

theorem actAll_undialed (as : List Action) : Undialed (actAll as : Run ε κ τ Unit) := by
  induction as with
  | nil => exact .pure ()
  | cons a as ih => exact .bind (fun _ => rfl) fun _ => ih

theorem write_undialed (x : Exchange) (bytes : Bytes) : Undialed (write x bytes : Run ε κ τ _) := fun _ => rfl

theorem withToken_undialed (f : τ → OnShelf κ (α × τ)) : Undialed (withToken f : Run ε κ τ α) := fun _ => rfl

variable [Surroundings ε]

theorem uptime_undialed : Undialed (uptime : Run ε κ τ Nat) := fun _ => rfl

theorem elapse_undialed (ms : Nat) : Undialed (elapse ms : Run ε κ τ Unit) :=
  fun d => actAll_undialed _ { d with outside := (Surroundings.elapse ms d.outside).2 }

theorem meanwhile_undialed : Undialed (meanwhile : Run ε κ τ Unit) :=
  fun d => actAll_undialed _ { d with outside := (Surroundings.meanwhile d.outside).2 }

theorem delay_undialed (ms : Nat) : Undialed (delay ms : Run ε κ τ Unit) :=
  (add_undialed _).bind fun _ => elapse_undialed ms

theorem emit_undialed (e : Event) : Undialed (emit e : Run ε κ τ Unit) :=
  (add_undialed _).bind fun _ d => actAll_undialed _ { d with outside := (Surroundings.told e d.outside).2 }

theorem readLink_undialed : Undialed (readLink : Run ε κ τ (Option Nat)) := fun d => meanwhile_undialed d

theorem readEpoch_undialed : Undialed (readEpoch : Run ε κ τ UInt32) := fun d => meanwhile_undialed d

theorem takeConfirm_undialed : Undialed (takeConfirm : Run ε κ τ Bool) := fun d => meanwhile_undialed d

theorem clearConfirm_undialed : Undialed (clearConfirm : Run ε κ τ Unit) := fun d => meanwhile_undialed d

theorem receive_undialed (size : Nat) (x : Exchange) : Undialed (receive size x : Run ε κ τ _) :=
  (elapse_undialed _).bind fun _ => (add_undialed _).bind fun _ => .pure _

variable [Token κ τ]

theorem invalidate_undialed : Undialed (invalidate : Run ε κ τ Unit) :=
  meanwhile_undialed.bind fun _ => (add_undialed _).bind fun _ => withToken_undialed _

theorem process_undialed (c : Card.Command) (buffer : Card.Response) :
    Undialed (process c buffer : Run ε κ τ Card.Response) := by
  refine meanwhile_undialed.bind fun _ => (add_undialed _).bind fun _ => (withToken_undialed _).bind fun answer => ?_
  have answered : Undialed (do add (.answered answer.response); return answer.response : Run ε κ τ Card.Response) :=
    (add_undialed _).bind fun _ => .pure _
  cases answer.takesMs with
  | some ms => exact (elapse_undialed ms).bind fun _ => answered
  | none => exact answered

end Run

namespace Gate

variable [Surroundings ε]

theorem pulse_undialed (halfMs : Nat) : Undialed (pulse halfMs : Run ε κ τ Unit) := by
  unfold pulse
  refine .bind (fun _ => rfl) fun _ => .bind (fun _ => rfl) fun _ => (Run.delay_undialed _).bind fun _ => ?_
  exact .bind (fun _ => rfl) fun _ => .bind (fun _ => rfl) fun _ => Run.delay_undialed _

theorem wait_undialed (halfMs n : Nat) : Undialed (wait halfMs n : Run ε κ τ Bool) := by
  induction n with
  | zero => exact Run.takeConfirm_undialed
  | succ n ih =>
    refine Run.takeConfirm_undialed.bind fun b => ?_
    cases b with
    | true => exact .pure _
    | false => exact (pulse_undialed halfMs).bind fun _ => ih

theorem await_undialed (p : Config.ConfirmPolicy) : Undialed (await p : Run ε κ τ Outcome) := by
  unfold await
  refine Run.clearConfirm_undialed.bind fun _ => Run.uptime_undialed.bind fun _ => (wait_undialed _ _).bind fun b => ?_
  refine .bind (fun _ => rfl) fun _ => Run.uptime_undialed.bind fun _ => ?_
  cases b <;> exact fun _ => rfl

theorem evaluate_undialed (p : Config.ConfirmPolicy) (c : Card.Command) :
    Undialed (evaluate p c : Run ε κ τ Outcome) := by
  have judges : Undialed (judge p c : Run ε κ τ Outcome) := by
    unfold judge
    split
    · exact .bind (fun _ => rfl) fun _ => await_undialed p
    · exact .pure _
  refine Run.meanwhile_undialed.bind fun _ => (Run.add_undialed _).bind fun _ => judges.bind fun _ => ?_
  exact (Run.add_undialed _).bind fun _ => .pure _

end Gate

namespace Session

open Card (Command)

theorem log_undialed (level : Level) (message : String) : Undialed (log level message : Run ε κ τ Unit) := fun _ => rfl

theorem warnOfStreak_undialed (s : Session) : Undialed (warnOfStreak s : Run ε κ τ Unit) := by
  unfold warnOfStreak
  dsimp only
  split
  · exact log_undialed _ _
  · exact .pure ()

variable [Surroundings ε]

theorem announce_undialed (c : Command) : Undialed (announce c : Run ε κ τ Unit) := by
  unfold announce
  split
  · exact Run.emit_undialed _
  · exact .pure ()

variable [Token κ τ]

theorem process_undialed (s : Session) (c : Command) : Undialed (process s c : Run ε κ τ _) := by
  unfold process
  refine .bind (fun _ => rfl) fun _ => Run.uptime_undialed.bind fun _ => (Run.process_undialed _ _).bind fun _ => ?_
  refine Run.uptime_undialed.bind fun _ => .bind (fun _ => rfl) fun _ => ?_
  split
  · exact fun _ => rfl
  · exact .pure _

theorem answer_undialed (s : Session) (c : Command) : Undialed (answer s c : Run ε κ τ _) := by
  unfold answer
  refine (Gate.evaluate_undialed _ _).bind fun outcome => ?_
  cases outcome with
  | lockedOut => exact (warnOfStreak_undialed _).bind fun _ => (Run.emit_undialed _).bind fun _ => .pure _
  | confirmed => exact (Run.emit_undialed _).bind fun _ => (process_undialed _ _).bind fun _ => .pure _
  | bypassed => exact (process_undialed _ _).bind fun _ => .pure _

theorem serveCommand_undialed (s : Session) (x : Exchange) (c : Command) :
    Undialed (serveCommand s x c : Run ε κ τ _) := by
  unfold serveCommand
  refine (announce_undialed c).bind fun _ => Run.uptime_undialed.bind fun _ => ?_
  refine (answer_undialed s c).bind fun (r, locked, s') => (log_undialed _ _).bind fun _ => ?_
  refine (Run.write_undialed _ _).bind fun written => ?_
  cases written with
  | error e => exact (log_undialed _ _).bind fun _ => (Run.emit_undialed _).bind fun _ => fun _ => rfl
  | ok _ =>
    refine .bind (fun _ => rfl) fun _ => ?_
    cases locked with
    | true => exact .pure _
    | false => exact Run.uptime_undialed.bind fun _ => (Run.emit_undialed _).bind fun _ => .pure _

theorem followLink_undialed (s : Session) : Undialed (followLink s : Run ε κ τ Session) := by
  unfold followLink
  refine Run.readEpoch_undialed.bind fun epoch => ?_
  dsimp only
  split
  · exact (log_undialed _ _).bind fun _ => Run.invalidate_undialed.bind fun _ => .pure _
  · exact .pure _

/-- A cycle that has its connection dials no more. -/
theorem serveConnection_undialed (s : Session) (x : Exchange) : Undialed (serveConnection s x : Run ε κ τ _) := by
  unfold serveConnection
  refine (Run.receive_undialed _ _).bind fun received => ?_
  cases received with
  | error e => exact (log_undialed _ _).bind fun _ => Run.invalidate_undialed.bind fun _ => fun _ => rfl
  | ok raw =>
    refine (log_undialed _ _).bind fun _ => .bind (fun _ => rfl) fun _ => (followLink_undialed s).bind fun s' => ?_
    split
    · exact Run.invalidate_undialed.bind fun _ => .bind (fun _ => rfl) fun _ => (Run.emit_undialed _).bind fun _ => .pure _
    · exact serveCommand_undialed _ _ _

end Session

end KeyFob
