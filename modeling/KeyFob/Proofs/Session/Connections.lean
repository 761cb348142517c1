import KeyFob.Proofs.Card.Reading
import KeyFob.Proofs.Session.Breaks
import KeyFob.Proofs.Session.Debt

/-!
How a cycle treats its connection and its token. A connection is read once, written to just where a command has been
read, and closed behind all else that is done with it. What breaks the session off is paid for with an invalidation
each, before the next dial, before a command is judged and before the connection is closed, and nothing else is.
-/

namespace KeyFob

namespace Entry

/-- Steps that obtain a connection or make use of it, and what is made of a command in between. -/
def isDealing : Entry → Bool
  | dial _ (.ok ()) | receive _ | judge _ | judged _ | process _ | answered _ | write _ | close => true
  | _ => false

/-- Steps at which nothing may be owing. -/
def isDue : Entry → Bool
  | dial .. | judge _ | process _ | write _ | close => true
  | _ => false

end Entry

def dealings (t : List Entry) : List Entry := t.filter Entry.isDealing

def PaidFor (seen : UInt32) (t : List Entry) : Prop := t.countP Entry.isInvalidation = t.countP (Entry.breaksOff seen)

/-- Reads a journal with the number of breaks in mind that are not paid for. -/
def balance (seen : UInt32) : Reading Int where
  next n e := n + (if e.breaksOff seen then 1 else 0) - (if e.isInvalidation then 1 else 0)
  Fits n e := e.isDue = true → n = 0

theorem dealings_append (t u : List Entry) : dealings (t ++ u) = dealings t ++ dealings u := List.filter_append t u

theorem dealings_own (t : List Entry) : dealings (own t) = dealings t := filter_own (fun _ => rfl) (fun _ => rfl) t

theorem balance_after (seen : UInt32) (n : Int) (t : List Entry) :
    (balance seen).after n t = n + t.countP (Entry.breaksOff seen) - t.countP Entry.isInvalidation := by
  induction t generalizing n with
  | nil => simp [Reading.after]
  | cons x t ih =>
    change (balance seen).after ((balance seen).next n x) t = _
    rw [ih, List.countP_cons, List.countP_cons]
    simp only [balance]
    split <;> split <;> push_cast <;> omega

/-- In a balanced journal the breaks are paid for at its end, and wherever nothing may be owing. -/
theorem paidFor_of_balance {seen : UInt32} {t : List Entry} (h : (balance seen).Tells 0 t 0) :
    PaidFor seen t ∧ ∀ (u v : List Entry) (x : Entry), t = u ++ x :: v → x.isDue = true → PaidFor seen u := by
  have paid : ∀ {u : List Entry}, (balance seen).after 0 u = 0 → PaidFor seen u := by
    intro u hu
    rw [balance_after] at hu
    unfold PaidFor
    omega
  refine ⟨paid h.eq_after.symm, ?_⟩
  rintro u v x rfl hx
  exact paid (h.fits.1 hx)

theorem balance_of_unconcerned {seen : UInt32} {t : List Entry}
    (h : ∀ x ∈ t, x.breaksOff seen = false ∧ x.isInvalidation = false) : (balance seen).Tells 0 t 0 := by
  induction t with
  | nil => rfl
  | cons x t ih =>
    rw [List.forall_mem_cons] at h
    refine ⟨fun _ => rfl, ?_⟩
    simp only [balance, h.1.1, h.1.2, Bool.false_eq_true, if_false]
    exact ih h.2

theorem balance_ignores (seen : UInt32) : (balance seen).Ignores Entry.isOwn := by
  intro n e he
  cases e <;> first
    | (cases he; done)
    | exact ⟨by simp [balance, Entry.breaksOff, Entry.isInvalidation], by simp [balance, Entry.isDue]⟩

namespace Session

open Card (Command Response)
open Config (Endpoint)

/-- What a cycle does with a connection, for each of its ends: nothing without one; a read and a close where no command
has been read; and otherwise one write between the two, of the lockout response or of the token's answer to the
command, as the gate decides. -/
inductive Conduct : CycleEnd → List Entry → Prop
  | unconnected {e : CycleEnd} (he : ∀ r, e = .done r → r = .halted ∨ r = .linkLost) : Conduct e []
  | unread {peer : Endpoint} (error : TransportError) :
    Conduct (.done .readFailed) [.dial peer (.ok ()), .receive (.error error), .close]
  | empty {peer : Endpoint} {raw : Bytes} (hraw : ∀ c, Command.parse? raw = .ok c → c.ins = 0) :
    Conduct (.done .empty) [.dial peer (.ok ()), .receive (.ok raw), .close]
  | lockedOut {peer : Endpoint} {raw : Bytes} {c : Command} {r : Outcome} (hraw : Command.parse? raw = .ok c)
    (hins : c.ins ≠ 0) (hr : r = .lockedOut ∨ r = .writeFailed) :
    Conduct (.done r) [.dial peer (.ok ()), .receive (.ok raw), .judge c, .judged .lockedOut, .write [0x69, 0x83],
      .close]
  | answered {peer : Endpoint} {raw : Bytes} {c : Command} {out : Gate.Outcome} {response : Response} {r : Outcome}
    (hraw : Command.parse? raw = .ok c) (hins : c.ins ≠ 0) (hout : out.permits = true)
    (hr : r = .served (statusOf response) ∨ r = .writeFailed) :
    Conduct (.done r) [.dial peer (.ok ()), .receive (.ok raw), .judge c, .judged out, .process c, .answered response,
      .write response.bytes, .close]

variable {s s' : Session} {o : List Entry} {c : Command}

theorem dealings_of_waits {g : List Entry} (h : ∀ x ∈ g, Gate.isWait x = true) : dealings g = [] := by
  refine List.filter_eq_nil_iff.2 fun x hx => ?_
  have := h x hx
  cases x <;> first | exact Bool.false_ne_true | cases this

theorem dealings_pending (c : Command) : dealings (pending c) = [] := by
  unfold pending
  split <;> rfl

theorem dealings_dropped (s : Session) (epoch : UInt32) : dealings (s.dropped epoch) = [] := by
  unfold dropped
  split <;> rfl

def Dialed.dealings (peer : Endpoint) : Dialed → List Entry
  | connected _ => [.dial peer (.ok ())]
  | ended _ => []

theorem Dials.dealings {index : Nat} {peer : Endpoint} {r : Dialed} (h : Dials index peer s r s' o) :
    KeyFob.dealings o = r.dealings peer := by
  induction h with
  | again _ ih => rw [dealings_append, ih, redial]; rfl
  | _ => rfl

theorem Dials.end_cases {index : Nat} {peer : Endpoint} {r : Dialed} {e : CycleEnd} (h : Dials index peer s r s' o)
    (he : r = .ended e) : ∀ r, e = .done r → r = .halted ∨ r = .linkLost := by
  induction h with
  | again _ ih => exact ih he
  | connected => cases he
  | _ =>
    cases he
    simp

/-- The answer is the lockout response, or that of the token to the command. -/
theorem Answers.dealings {r : Response} {locked : Bool} (h : Answers s c r locked s' o) :
    (locked = true ∧ r.bytes = [0x69, 0x83] ∧ KeyFob.dealings o = [.judge c, .judged .lockedOut]) ∨
      ∃ out : Gate.Outcome, locked = false ∧ out.permits = true ∧
        KeyFob.dealings o = [.judge c, .judged out, .process c, .answered r] := by
  obtain ⟨g, l, rfl, hg, hl⟩ := h.replies
  have ho : KeyFob.dealings (.judge c :: (g ++ l)) = .judge c :: KeyFob.dealings l := calc
    _ = .judge c :: KeyFob.dealings (g ++ l) := rfl
    _ = _ := by rw [dealings_append, dealings_of_waits hg, List.nil_append]
  rw [ho]
  cases hl with
  | lockedOut => exact Or.inl ⟨rfl, rfl, rfl⟩
  | confirmed _ waitedMs => exact Or.inr ⟨.confirmed waitedMs, rfl, rfl, rfl⟩
  | bypassed => exact Or.inr ⟨.bypassed, rfl, rfl, rfl⟩

theorem Serves.conduct {r : Outcome} (h : Serves s c r s' o) {peer : Endpoint} {raw : Bytes}
    (hraw : Command.parse? raw = .ok c) (hins : c.ins ≠ 0) :
    Conduct (.done r) (.dial peer (.ok ()) :: .receive (.ok raw) :: dealings o) := by
  have served : ∀ {answer : Response} {locked : Bool} {s₁ : Session} {o rest : List Entry},
      Answers s c answer locked s₁ o → (r = .writeFailed ∨ r = if locked then .lockedOut else .served (statusOf answer)) →
      dealings rest = [.close] →
      Conduct (.done r) (.dial peer (.ok ()) :: .receive (.ok raw) ::
        dealings (pending c ++ o ++ .write answer.bytes :: rest)) := by
    intro answer locked s₁ o rest h hr hrest
    have hwrite : dealings (.write answer.bytes :: rest) = [.write answer.bytes, .close] :=
      congrArg (Entry.write answer.bytes :: ·) hrest
    rw [dealings_append, dealings_append, dealings_pending, List.nil_append, hwrite]
    rcases h.dealings with ⟨rfl, hbytes, ho⟩ | ⟨out, rfl, hout, ho⟩
    · rw [ho, hbytes]
      exact .lockedOut hraw hins hr.symm
    · rw [ho]
      exact .answered hraw hins hout hr.symm
  cases h with
  | writeFailed h => exact served h (Or.inl rfl) rfl
  | lockedOut h => exact served h (Or.inr rfl) rfl
  | served h elapsedMs => exact served h (Or.inr rfl) rfl

/-- A command is read if and only if the bytes are one and its instruction is not 0. -/
theorem parse?_of_not_none {raw : Bytes} (h : (Command.parse raw).isNone = false) :
    Command.parse? raw = .ok (Command.parse raw) ∧ (Command.parse raw).ins ≠ 0 := by
  refine ⟨?_, by simpa [Command.isNone] using h⟩
  cases hp : Command.parse? raw with
  | ok c => rw [Command.parse_of_ok hp]
  | error e =>
    rw [Command.parse_of_error hp] at h
    cases h

theorem Connects.conduct {r : Outcome} (h : Connects s r s' o) (peer : Endpoint) :
    Conduct (.done r) (.dial peer (.ok ()) :: dealings o) := by
  cases h with
  | readFailed e => exact .unread e
  | empty raw epoch hc =>
    have ho : dealings (.receive (.ok raw) :: .readEpoch epoch :: (s.dropped epoch ++ [.invalidate, .close,
        .emit .exchangeEmpty])) = [.receive (.ok raw), .close] := by
      change _ :: dealings (s.dropped epoch ++ _) = _
      rw [dealings_append, dealings_dropped]
      rfl
    rw [ho]
    refine .empty fun c hp => ?_
    rw [Command.parse_of_ok hp] at hc
    simpa [Command.isNone] using hc
  | @command raw epoch _ _ o hc h =>
    have ho : dealings (.receive (.ok raw) :: .readEpoch epoch :: (s.dropped epoch ++ o)) =
        .receive (.ok raw) :: dealings o := by
      change _ :: dealings (s.dropped epoch ++ o) = _
      rw [dealings_append, dealings_dropped, List.nil_append]
    rw [ho]
    obtain ⟨hraw, hins⟩ := parse?_of_not_none hc
    exact h.conduct hraw hins

theorem Cycles.conduct {e : CycleEnd} (h : Cycles s e s' o) : Conduct e (dealings o) := by
  cases h with
  | halted => exact .unconnected (by simp)
  | waiting => exact .unconnected (by simp)
  | unknown => exact .unconnected (by simp)
  | @ended index network _ _ _ o h =>
    change Conduct e (dealings o)
    rw [h.dealings]
    exact .unconnected (h.end_cases rfl)
  | @connected index network _ _ r _ _ o o' h h' =>
    change Conduct (.done r) (dealings (o ++ o'))
    rw [dealings_append, h.dealings]
    exact h'.conduct _

theorem Dials.balance {index : Nat} {peer : Endpoint} {r : Dialed} (h : Dials index peer s r s' o) (seen : UInt32) :
    (balance seen).Tells 0 o 0 := by
  have again : ∀ (s : Session) (link : Option Nat), (KeyFob.balance seen).Tells 0 (s.redial peer link) 0 := by
    intro s link
    simp [redial, Reading.Tells, KeyFob.balance, Entry.breaksOff, Entry.isInvalidation, Entry.isDue]
  induction h with
  | halted => rfl
  | connected => simp [Reading.Tells, KeyFob.balance, Entry.breaksOff, Entry.isInvalidation]
  | refused => simp [Reading.Tells, KeyFob.balance, Entry.breaksOff, Entry.isInvalidation]
  | linkLost s => exact again s _
  | again _ ih => exact (again _ _).append ih

theorem Answers.balance {r : Response} {locked : Bool} (h : Answers s c r locked s' o) (seen : UInt32) :
    (balance seen).Tells 0 o 0 := by
  obtain ⟨g, l, rfl, hg, hl⟩ := h.replies
  have hl' : ∀ x ∈ l, x.breaksOff seen = false ∧ x.isInvalidation = false := by
    cases hl <;> simp [processing, Entry.breaksOff, Entry.isInvalidation]
  refine balance_of_unconcerned (List.forall_mem_cons.2 ⟨⟨rfl, rfl⟩, List.forall_mem_append.2 ⟨fun x hx => ?_, hl'⟩⟩)
  have := hg x hx
  cases x <;> first | exact ⟨rfl, rfl⟩ | cases this

theorem Serves.balance {r : Outcome} (h : Serves s c r s' o) (seen : UInt32) : (balance seen).Tells 0 o 0 := by
  have hpending : (KeyFob.balance seen).Tells 0 (pending c) 0 := by
    unfold pending
    split <;> simp [Reading.Tells, KeyFob.balance, Entry.breaksOff, Entry.isInvalidation, Entry.isDue]
  cases h with
  | writeFailed h =>
    refine (hpending.append (h.balance seen)).append (balance_of_unconcerned ?_)
    simp [Entry.breaksOff, Entry.isInvalidation]
  | lockedOut h =>
    refine (hpending.append (h.balance seen)).append (balance_of_unconcerned ?_)
    simp [Entry.breaksOff, Entry.isInvalidation]
  | served h =>
    refine (hpending.append (h.balance seen)).append (balance_of_unconcerned ?_)
    simp [Entry.breaksOff, Entry.isInvalidation]

/-- A look at the epoch pays for itself. -/
theorem balance_look (s : Session) (epoch : UInt32) :
    (balance s.cursor.seen).Tells 0 (.readEpoch epoch :: s.dropped epoch) 0 := by
  unfold dropped
  split <;> simp [*, Reading.Tells, balance, Entry.breaksOff, Entry.isInvalidation, Entry.isDue]

theorem Connects.balance {r : Outcome} (h : Connects s r s' o) : (balance s.cursor.seen).Tells 0 o 0 := by
  cases h with
  | readFailed e => simp [Reading.Tells, KeyFob.balance, Entry.breaksOff, Entry.isInvalidation, Entry.isDue]
  | empty raw epoch hc =>
    -- The exchange is owed for while the look at the epoch is taken.
    unfold dropped
    split <;>
      simp [*, Reading.Tells, KeyFob.balance, Entry.breaksOff, Entry.isInvalidation, Entry.isDue]
  | command raw epoch hc h =>
    have hreceive : (KeyFob.balance s.cursor.seen).Tells 0 [.receive (.ok raw)] 0 := by
      simp [Reading.Tells, KeyFob.balance, Entry.breaksOff, Entry.isInvalidation, Entry.isDue, hc]
    exact (hreceive.append (balance_look s epoch)).append (h.balance _)

theorem Cycles.balance {e : CycleEnd} (h : Cycles s e s' o) : (balance s.cursor.seen).Tells 0 o 0 := by
  have hlink : ∀ link, (KeyFob.balance s.cursor.seen).Tells 0 [.readLink link] 0 := fun link =>
    balance_of_unconcerned (by simp [Entry.breaksOff, Entry.isInvalidation])
  cases h with
  | halted => rfl
  | waiting => exact hlink _
  | unknown => exact hlink _
  | ended index hn h => exact (hlink _).append (h.balance _)
  | connected index hn h h' =>
    refine (hlink _).append ((h.balance _).append ?_)
    rw [← h.same.2]
    exact h'.balance

variable {ε κ τ : Type} [Surroundings ε] [Token κ τ]

/-- Whatever state a cycle begins in and however it ends: a connection that it obtains is read once, written to once if
a command has been read and closed once behind that, and the token forgets once for each break and for nothing else. -/
theorem connections_are_closed_and_breaks_paid_for (r : Round) (s : Session) (d : Device ε κ τ) :
    let t := (round r s d).2.journal.since d.journal
    Conduct (round r s d).1.1 (dealings t) ∧ PaidFor s.cursor.seen t ∧
      ∀ (u v : List Entry) (x : Entry), t = u ++ x :: v → x.isDue = true → PaidFor s.cursor.seen u := by
  intro t
  obtain ⟨t', hj, -, hc⟩ := round_leaves r s d
  obtain rfl : t = t' := Journal.since_eq hj
  refine ⟨?_, paidFor_of_balance ((balance_ignores _).tells_filter.1 hc.balance)⟩
  rw [← dealings_own]
  exact hc.conduct

end Session

end KeyFob
