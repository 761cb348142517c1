import KeyFob.Proofs.Gate
import KeyFob.Session.Cycle

/-!
What a cycle of a session leaves in the journal, as a grammar: one relation for each activity, with one constructor for
each of its ends. Together with the account that the journal gives of the signals this is all that the statements about
cycles rest on.
-/

namespace KeyFob.Session

open Card (Command Response)
open Config (Endpoint)

/-- The steps of a dial that fails, up to the look at the link behind the delay. -/
def redial (s : Session) (peer : Endpoint) (link : Option Nat) : List Entry :=
  [.dial peer (.error .connect), .invalidate, .emit (.peerUnreachable s.settings.connectBackoffMs),
    .delay s.settings.connectBackoffMs.toNat, .readLink link]

def failed (s : Session) : Session := { s with stats := s.stats.recordConnectFailure }

inductive Dials (index : Nat) (peer : Endpoint) : Session → Dialed → Session → List Entry → Prop
  | halted (s) : Dials index peer s (.ended (.done .halted)) s []
  | connected (s x) : Dials index peer s (.connected x) s [.dial peer (.ok ())]
  | refused (s) : Dials index peer s (.ended (.fatal .socketAllocation)) s [.dial peer (.error .allocate)]
  | linkLost (s) {link : Option Nat} (h : link ≠ some index) :
    Dials index peer s (.ended (.done .linkLost)) s.failed (s.redial peer link)
  | again {s s' : Session} {r : Dialed} {o : List Entry} (h : Dials index peer s.failed r s' o) :
    Dials index peer s r s' (s.redial peer (some index) ++ o)

def processed (s : Session) (c : Command) (elapsedMs : Nat) : Session :=
  if c.isGetChallenge then { s with timing := s.timing.record elapsedMs } else s

def processing (c : Command) (r : Response) : List Entry :=
  [.led .activity true, .process c, .answered r, .led .activity false]

inductive Answers (s : Session) (c : Command) : Response → Bool → Session → List Entry → Prop
  | lockedOut {g : List Entry} (h : Gate.Judges s.settings.confirm c .lockedOut g) :
    Answers s c .lockedOut true { s with stats := s.stats.recordLockout }
      (.judge c :: (g ++ [.judged .lockedOut, .emit (.lockedOut c.ins s.stats.recordLockout.consecutiveLockouts)]))
  | confirmed {g : List Entry} {waitedMs : Nat} (h : Gate.Judges s.settings.confirm c (.confirmed waitedMs) g)
    (r : Response) (elapsedMs : Nat) :
    Answers s c r false (processed { s with stats := s.stats.recordConfirmed } c elapsedMs)
      (.judge c :: (g ++ [.judged (.confirmed waitedMs), .emit (.confirmed c.ins waitedMs)] ++ processing c r))
  | bypassed {g : List Entry} (h : Gate.Judges s.settings.confirm c .bypassed g) (r : Response) (elapsedMs : Nat) :
    Answers s c r false (s.processed c elapsedMs) (.judge c :: (g ++ [.judged .bypassed] ++ processing c r))

/-- The same behind the gate's wait, whatever that is. -/
inductive Replies (s : Session) (c : Command) : Response → Bool → Session → List Entry → Prop
  | lockedOut (h : c.requiresConfirmation = true) :
    Replies s c .lockedOut true { s with stats := s.stats.recordLockout }
      [.judged .lockedOut, .emit (.lockedOut c.ins s.stats.recordLockout.consecutiveLockouts)]
  | confirmed (h : c.requiresConfirmation = true) (waitedMs : Nat) (r : Response) (elapsedMs : Nat) :
    Replies s c r false (processed { s with stats := s.stats.recordConfirmed } c elapsedMs)
      (.judged (.confirmed waitedMs) :: .emit (.confirmed c.ins waitedMs) :: processing c r)
  | bypassed (h : c.requiresConfirmation = false) (r : Response) (elapsedMs : Nat) :
    Replies s c r false (s.processed c elapsedMs) (.judged .bypassed :: processing c r)

theorem Answers.replies {s s' : Session} {c : Command} {r : Response} {locked : Bool} {o : List Entry}
    (h : Answers s c r locked s' o) :
    ∃ g l, o = .judge c :: (g ++ l) ∧ (∀ x ∈ g, Gate.isWait x = true) ∧ Replies s c r locked s' l := by
  cases h with
  | @lockedOut g h =>
    refine ⟨g, _, rfl, h.waits, .lockedOut ?_⟩
    cases h with
    | lockedOut h => exact h
  | @confirmed g waitedMs h r elapsedMs =>
    refine ⟨g, _, congrArg _ (List.append_assoc _ _ _), h.waits, .confirmed ?_ waitedMs r elapsedMs⟩
    cases h with
    | confirmed h => exact h
  | @bypassed g h r elapsedMs =>
    refine ⟨g, _, congrArg _ (List.append_assoc _ _ _), h.waits, .bypassed ?_ r elapsedMs⟩
    cases h with
    | bypassed h => exact h

def pending (c : Command) : List Entry :=
  if c.requiresConfirmation then [.emit (.confirmationPending c.ins)] else []

inductive Serves (s : Session) (c : Command) : Outcome → Session → List Entry → Prop
  | writeFailed {r : Response} {locked : Bool} {s' : Session} {o : List Entry} (h : Answers s c r locked s' o) :
    Serves s c .writeFailed { s' with stats := s'.stats.recordWriteFailure }
      (pending c ++ o ++ [.write r.bytes, .emit (.writeFailed c.ins), .close])
  | lockedOut {r : Response} {s' : Session} {o : List Entry} (h : Answers s c r true s' o) :
    Serves s c .lockedOut s' (pending c ++ o ++ [.write r.bytes, .close])
  | served {r : Response} {s' : Session} {o : List Entry} (h : Answers s c r false s' o) (elapsedMs : Nat) :
    Serves s c (.served (statusOf r)) { s' with stats := s'.stats.recordServed }
      (pending c ++ o ++ [.write r.bytes, .close, .emit (.served c.ins (statusOf r) r.length elapsedMs)])

/-- What the session has the token forget once it has looked at the epoch. -/
def dropped (s : Session) (epoch : UInt32) : List Entry := if epoch = s.cursor.seen then [] else [.invalidate]

inductive Connects (s : Session) : Outcome → Session → List Entry → Prop
  | readFailed (e : TransportError) : Connects s .readFailed s [.receive (.error e), .invalidate, .close]
  | empty (raw : Bytes) (epoch : UInt32) (h : (Command.parse raw).isNone = true) :
    Connects s .empty { s with cursor := ⟨epoch⟩, stats := s.stats.recordEmpty }
      (.receive (.ok raw) :: .readEpoch epoch :: (s.dropped epoch ++ [.invalidate, .close, .emit .exchangeEmpty]))
  | command (raw : Bytes) (epoch : UInt32) {r : Outcome} {s' : Session} {o : List Entry}
    (hc : (Command.parse raw).isNone = false) (h : Serves { s with cursor := ⟨epoch⟩ } (Command.parse raw) r s' o) :
    Connects s r s' (.receive (.ok raw) :: .readEpoch epoch :: (s.dropped epoch ++ o))

inductive Cycles (s : Session) : CycleEnd → Session → List Entry → Prop
  | halted : Cycles s (.done .halted) s []
  | waiting : Cycles s .waiting s [.readLink none]
  | unknown (index : Nat) (h : s.settings.networks.toList[index]? = none) :
    Cycles s (.fatal .stationDriver) s [.readLink (some index)]
  | ended (index : Nat) {network : Config.Network} (hn : s.settings.networks.toList[index]? = some network)
    {e : CycleEnd} {s' : Session} {o : List Entry}
    (h : Dials index (network.peerAt s.settings.peerPort) s (.ended e) s' o) :
    Cycles s e s' (.readLink (some index) :: o)
  | connected (index : Nat) {network : Config.Network} (hn : s.settings.networks.toList[index]? = some network)
    {x : Exchange} {r : Outcome} {s₁ s' : Session} {o o' : List Entry}
    (h : Dials index (network.peerAt s.settings.peerPort) s (.connected x) s₁ o) (h' : Connects s₁ r s' o') :
    Cycles s (.done r) s' (.readLink (some index) :: (o ++ o'))

variable {ε κ τ : Type}

theorem log_leaves (level : Level) (message : String) :
    Leaves (log level message : Run ε κ τ Unit) fun _ o => o = [] :=
  Run.log_leaves level .session message

theorem add_dial_leaves (peer : Endpoint) (r : Except DialError Unit) :
    Leaves (Run.add (.dial peer r) : Run ε κ τ Unit) fun _ o => o = [.dial peer r] :=
  Run.add_leaves fun _ => ⟨trivial, rfl⟩

theorem setDials_leaves (dials : List Dial) :
    Leaves (modify fun d => { d with dials } : Run ε κ τ Unit) fun _ o => o = [] :=
  Run.leaves_of_same (fun _ => rfl) fun _ => rfl

theorem warnOfStreak_leaves (s : Session) : Leaves (warnOfStreak s : Run ε κ τ Unit) fun _ o => o = [] := by
  unfold warnOfStreak
  dsimp only
  split
  · exact log_leaves _ _
  · exact .pure rfl

theorem refused_leaves (index : Nat) (peer : Endpoint) (s : Session) :
    Leaves (dialFrom.refused peer s : Run ε κ τ _) fun (r, s') o => Dials index peer s r s' o := by
  unfold dialFrom.refused
  refine (add_dial_leaves _ _).step fun _ => (log_leaves _ _).skip fun _ => .pure ?_
  exact .refused s

variable [Surroundings ε]

theorem announce_leaves (c : Command) : Leaves (announce c : Run ε κ τ Unit) fun _ o => o = pending c := by
  unfold announce pending
  split
  · exact Run.emit_leaves _
  · exact .pure rfl

variable [Token κ τ]

theorem dialFrom_leaves (index : Nat) (peer : Endpoint) (dials : List Dial) (s : Session) :
    Leaves (dialFrom index peer dials s : Run ε κ τ _) fun (r, s') o => Dials index peer s r s' o := by
  induction dials generalizing s with
  | nil =>
    unfold dialFrom
    refine Run.halting_leaves.skip fun halting => ?_
    cases halting with
    | true => exact .pure (.halted s)
    | false => exact refused_leaves index peer s
  | cons dial rest ih =>
    unfold dialFrom
    refine Run.halting_leaves.skip fun halting => ?_
    cases halting with
    | true => exact .pure (.halted s)
    | false =>
      rcases dial with ⟨_ | _⟩ | x
      · exact (setDials_leaves _).skip fun _ => refused_leaves index peer s
      · refine (setDials_leaves _).skip fun _ => (add_dial_leaves _ _).step fun _ => ?_
        refine Run.invalidate_leaves.step fun _ => (Run.emit_leaves _).step fun _ => ?_
        refine (Run.delay_leaves _).step fun _ => Run.readLink_leaves.bind fun link o h => ?_
        subst h
        split
        · next hl => exact .pure (.linkLost s hl)
        · next hl =>
          obtain rfl : link = some index := Decidable.not_not.1 hl
          exact (ih s.failed).mono fun _ _ h => .again h
      · exact (setDials_leaves _).skip fun _ => (add_dial_leaves _ _).step fun _ => .pure (.connected s x)

theorem process_leaves (s : Session) (c : Command) :
    Leaves (process s c : Run ε κ τ _) fun (r, s') o =>
      ∃ elapsedMs, s' = s.processed c elapsedMs ∧ o = processing c r := by
  unfold process
  refine (Run.led_leaves _ _).step fun _ => Run.uptime_leaves.skip fun started => ?_
  refine (Run.process_leaves _ _).bind fun r o h => Run.uptime_leaves.skip fun now => ?_
  subst h
  refine (Run.led_leaves _ _).step fun _ => ?_
  split
  · next hc => exact (Run.log_leaves _ _ _).skip fun _ => .pure ⟨now - started, by simp [processed, hc], rfl⟩
  · next hc => exact .pure ⟨0, by simp [processed, hc], rfl⟩

theorem answer_leaves (s : Session) (c : Command) :
    Leaves (answer s c : Run ε κ τ _) fun (r, locked, s') o => Answers s c r locked s' o := by
  unfold answer
  refine (Gate.evaluate_leaves _ _).bind fun outcome o h => ?_
  obtain ⟨g, rfl, hg⟩ := h
  cases outcome with
  | lockedOut =>
    refine (warnOfStreak_leaves _).skip fun _ => (Run.emit_leaves _).step fun _ => .pure ?_
    simpa using Answers.lockedOut hg
  | confirmed waitedMs =>
    refine (Run.emit_leaves _).step fun _ => (process_leaves _ _).bind fun (r, s') o h => .pure ?_
    obtain ⟨elapsedMs, rfl, rfl⟩ := h
    simpa using Answers.confirmed hg r elapsedMs
  | bypassed =>
    refine (process_leaves _ _).bind fun (r, s') o h => .pure ?_
    obtain ⟨elapsedMs, rfl, rfl⟩ := h
    simpa using Answers.bypassed hg r elapsedMs

theorem serveCommand_leaves (s : Session) (x : Exchange) (c : Command) :
    Leaves (serveCommand s x c : Run ε κ τ _) fun (r, s') o => Serves s c r s' o := by
  unfold serveCommand
  refine (announce_leaves c).step fun _ => Run.uptime_leaves.skip fun started => ?_
  refine (answer_leaves s c).bind fun (r, locked, s') o h => (log_leaves _ _).skip fun _ => ?_
  refine (Run.write_leaves _ _).bind fun written o' h' => ?_
  subst h'
  cases written with
  | error e =>
    refine (log_leaves _ _).skip fun _ => (Run.emit_leaves _).step fun _ => Run.close_leaves.step fun _ => .pure ?_
    simpa using Serves.writeFailed h
  | ok _ =>
    refine Run.close_leaves.step fun _ => ?_
    cases locked with
    | true =>
      refine .pure ?_
      simpa using Serves.lockedOut h
    | false =>
      refine Run.uptime_leaves.skip fun now => (Run.emit_leaves _).step fun _ => .pure ?_
      simpa using Serves.served h (now - started)

theorem followLink_leaves (s : Session) :
    Leaves (followLink s : Run ε κ τ Session) fun s' o =>
      ∃ epoch, s' = { s with cursor := ⟨epoch⟩ } ∧ o = .readEpoch epoch :: s.dropped epoch := by
  unfold followLink
  refine Run.readEpoch_leaves.bind fun epoch o h => ?_
  subst h
  by_cases he : epoch = s.cursor.seen
  · have : (epoch != s.cursor.seen) = false := by simpa using he
    simp only [Cursor.advance, this, Bool.false_eq_true, if_false]
    exact .pure ⟨epoch, rfl, by simp [dropped, he]⟩
  · have : (epoch != s.cursor.seen) = true := by simpa using he
    simp only [Cursor.advance, this, if_true]
    refine (log_leaves _ _).skip fun _ => Run.invalidate_leaves.step fun _ => .pure ?_
    exact ⟨epoch, rfl, by simp [dropped, he]⟩

theorem serveConnection_leaves (s : Session) (x : Exchange) :
    Leaves (serveConnection s x : Run ε κ τ _) fun (r, s') o => Connects s r s' o := by
  unfold serveConnection
  refine (Run.receive_leaves _ _).bind fun received o h => ?_
  subst h
  cases received with
  | error e =>
    refine (log_leaves _ _).skip fun _ => Run.invalidate_leaves.step fun _ => Run.close_leaves.step fun _ => .pure ?_
    exact .readFailed e
  | ok raw =>
    refine (log_leaves _ _).skip fun _ => (Run.logLines_leaves _).skip fun _ => ?_
    refine (followLink_leaves s).bind fun s' o h => ?_
    obtain ⟨epoch, rfl, rfl⟩ := h
    split
    · next hc =>
      refine Run.invalidate_leaves.step fun _ => Run.close_leaves.step fun _ => (Run.emit_leaves _).step fun _ => ?_
      exact .pure (by simpa using Connects.empty raw epoch hc)
    · next hc =>
      refine (serveCommand_leaves _ _ _).mono fun _ _ h => ?_
      simpa using Connects.command raw epoch (by simpa using hc) h

/-- A cycle from its look at the link on leaves what `Cycles` says. -/
theorem serveLink_leaves (s : Session) :
    Leaves (serveLink s : Run ε κ τ _) fun (e, s') o => Cycles s e s' o := by
  unfold serveLink
  refine Run.readLink_leaves.bind fun link o h => ?_
  subst h
  cases link with
  | none => exact .pure .waiting
  | some index =>
    dsimp only
    split
    · next hn => exact (log_leaves _ _).skip fun _ => .pure (.unknown index hn)
    · next network hn =>
      refine Run.get_leaves.skip fun d => (dialFrom_leaves index _ d.dials s).bind fun (r, s₁) o h => ?_
      cases r with
      | ended e => exact .pure (by simpa using Cycles.ended index hn h)
      | connected x =>
        refine (log_leaves _ _).skip fun _ => (serveConnection_leaves s₁ x).bind fun (r, s') o' h' => .pure ?_
        simpa using Cycles.connected index hn h h'

/-- So does a full cycle. -/
theorem serveOnce_leaves (s : Session) :
    Leaves (serveOnce s : Run ε κ τ _) fun (e, s') o => Cycles s e s' o := by
  unfold serveOnce
  refine Run.halting_leaves.skip fun halting => ?_
  cases halting with
  | true => exact .pure .halted
  | false => exact serveLink_leaves s

end KeyFob.Session
