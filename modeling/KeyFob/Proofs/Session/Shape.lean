import KeyFob.Proofs.Journal.Split
import KeyFob.Proofs.Session.Steps

/-!
The shape of a cycle. Every cycle is plain but for two places: where it looks at the epoch, and behind that where it
has a command judged and answered. Both occur at most once, and in this order.
-/

namespace KeyFob

/-- Neither a look at the epoch nor a part of judging and answering a command. -/
def Entry.isPlain : Entry → Bool
  | readEpoch _ | judge _ | judged _ | clearConfirm | takeConfirm _ | process _ | answered _ | write _ => false
  | _ => true

def Plain (o : List Entry) : Prop := ∀ x ∈ o, x.isPlain = true

theorem plain_append {o o' : List Entry} : Plain (o ++ o') ↔ Plain o ∧ Plain o' := List.forall_mem_append

theorem plain_cons {e : Entry} {o : List Entry} : Plain (e :: o) ↔ e.isPlain = true ∧ Plain o := List.forall_mem_cons

def Entry.isClosing : Entry → Bool
  | close | emit _ => true
  | _ => false

def Closes (o : List Entry) : Prop := ∀ x ∈ o, x.isClosing = true

theorem Closes.plain {o : List Entry} (h : Closes o) : Plain o := fun x hx => by
  have := h x hx
  cases x <;> first | rfl | cases this

/-- No look at the epoch, nor at the link. -/
def Unlooked (o : List Entry) : Prop := ∀ x ∈ o, x.looksAtEpoch = false ∧ x.looksAtLink = false

/-- Not a part of judging and answering a command. -/
def Entry.isQuiet (x : Entry) : Bool := x.isPlain || x.looksAtEpoch

theorem Plain.quiet {o : List Entry} (h : Plain o) : ∀ x ∈ o, x.isQuiet = true := fun x hx => by
  simp [Entry.isQuiet, h x hx]

theorem Plain.lowers {o : List Entry} (h : Plain o) : ∀ x ∈ o, x.lowers = false := fun x hx => by
  have := h x hx
  cases x <;> first | rfl | cases this

theorem Plain.unlooked {o : List Entry} (h : Plain o) : ∀ x ∈ o, x.looksAtEpoch = false := fun x hx => by
  have := h x hx
  cases x <;> first | rfl | cases this

theorem quiet_of_look {a b : List Entry} {epoch : UInt32} (ha : Plain a) (hb : Plain b) :
    ∀ x ∈ a ++ .readEpoch epoch :: b, x.isQuiet = true := by
  intro x hx
  rcases List.mem_append.1 hx with hx | hx
  · exact ha.quiet x hx
  rcases List.mem_cons.1 hx with rfl | hx
  · rfl
  · exact hb.quiet x hx

namespace Session

open Card (Command)
open Config (ConfirmPolicy Endpoint)

/-- What a verdict brings about: the token's answer is written, or the lockout response instead. -/
inductive Follows (c : Command) : Gate.Outcome → List Entry → Prop
  | lockedOut (streak : UInt32) : Follows c .lockedOut [.emit (.lockedOut c.ins streak), .write [0x69, 0x83]]
  | confirmed (waitedMs : Nat) (r : Card.Response) :
    Follows c (.confirmed waitedMs) (.emit (.confirmed c.ins waitedMs) :: (processing c r ++ [.write r.bytes]))
  | bypassed (r : Card.Response) : Follows c .bypassed (processing c r ++ [.write r.bytes])

/-- The part of a cycle that begins when the gate judges a command. -/
inductive Judged (p : ConfirmPolicy) (c : Command) : List Entry → Prop
  | mk {g v rest : List Entry} {out : Gate.Outcome} (hg : Gate.Judges p c out g)
    (hv : Follows c out v) (hrest : Closes rest) :
    Judged p c (.judge c :: (g ++ .judged out :: (v ++ rest)))

inductive Shape (s s' : Session) : List Entry → Prop
  | idle {o : List Entry} (hcursor : s'.cursor = s.cursor) (ho : Plain o) : Shape s s' o
  | empty {a rest : List Entry} {epoch : UInt32} (hcursor : s'.cursor = ⟨epoch⟩) (ha : Plain a)
    (hrest : Plain rest) : Shape s s' (a ++ .readEpoch epoch :: (s.dropped epoch ++ rest))
  | command {a j : List Entry} {epoch : UInt32} {c : Command} {index : Nat} (hcursor : s'.cursor = ⟨epoch⟩)
    (ha : Plain a) (hlink : .readLink (some index) ∈ a) (hj : Judged s.settings.confirm c j) :
    Shape s s' (a ++ .readEpoch epoch :: (s.dropped epoch ++ (pending c ++ j)))

variable {s s' : Session}

theorem Dials.same {index : Nat} {peer : Endpoint} {r : Dialed} {o : List Entry} (h : Dials index peer s r s' o) :
    s'.settings = s.settings ∧ s'.cursor = s.cursor := by
  induction h with
  | again _ ih => exact ih
  | _ => exact ⟨rfl, rfl⟩

theorem plain_redial (s : Session) (peer : Endpoint) (link : Option Nat) : Plain (s.redial peer link) := by
  simp [Plain, redial, Entry.isPlain]

theorem Dials.plain {index : Nat} {peer : Endpoint} {r : Dialed} {o : List Entry} (h : Dials index peer s r s' o) :
    Plain o := by
  induction h with
  | linkLost s => exact plain_redial s peer _
  | again _ ih => exact plain_append.2 ⟨plain_redial _ peer _, ih⟩
  | _ => simp [Plain, Entry.isPlain]

theorem Answers.judged {c : Command} {r : Card.Response} {locked : Bool} {o : List Entry}
    (h : Answers s c r locked s' o) {rest : List Entry} (hrest : Closes rest) :
    Judged s.settings.confirm c (o ++ .write r.bytes :: rest) := by
  cases h with
  | lockedOut hg =>
    have hb : Card.Response.lockedOut.bytes = [0x69, 0x83] := rfl
    simpa [hb] using Judged.mk hg (.lockedOut s.stats.recordLockout.consecutiveLockouts) hrest
  | confirmed hg r => simpa using Judged.mk hg (.confirmed _ r) hrest
  | bypassed hg r => simpa using Judged.mk hg (.bypassed r) hrest

theorem Answers.cursor {c : Command} {r : Card.Response} {locked : Bool} {o : List Entry}
    (h : Answers s c r locked s' o) : s'.cursor = s.cursor := by
  cases h with
  | lockedOut => rfl
  | confirmed => unfold processed; split <;> rfl
  | bypassed => unfold processed; split <;> rfl

theorem Serves.judged {c : Command} {r : Outcome} {o : List Entry} (h : Serves s c r s' o) :
    s'.cursor = s.cursor ∧ ∃ j, o = pending c ++ j ∧ Judged s.settings.confirm c j := by
  cases h with
  | writeFailed h => exact ⟨h.cursor, _, List.append_assoc _ _ _, h.judged (by simp [Closes, Entry.isClosing])⟩
  | lockedOut h => exact ⟨h.cursor, _, List.append_assoc _ _ _, h.judged (by simp [Closes, Entry.isClosing])⟩
  | served h elapsedMs => exact ⟨h.cursor, _, List.append_assoc _ _ _, h.judged (by simp [Closes, Entry.isClosing])⟩

theorem Cycles.shape {e : CycleEnd} {o : List Entry} (h : Cycles s e s' o) : Shape s s' o := by
  cases h with
  | halted => exact .idle rfl (by simp [Plain])
  | waiting => exact .idle rfl (by simp [Plain, Entry.isPlain])
  | unknown => exact .idle rfl (by simp [Plain, Entry.isPlain])
  | ended index hn h => exact .idle h.same.2 (plain_cons.2 ⟨rfl, h.plain⟩)
  | @connected index network hn x r s₁ s' o o' h h' =>
    obtain ⟨hset, hcur⟩ := h.same
    have ho : Plain (.readLink (some index) :: o) := plain_cons.2 ⟨rfl, h.plain⟩
    have hd : ∀ epoch, s₁.dropped epoch = s.dropped epoch := fun epoch => by rw [dropped, hcur, dropped]
    have ha : ∀ raw, Plain (.readLink (some index) :: (o ++ [.receive (.ok raw)])) := fun raw => by
      rw [← List.cons_append]
      exact plain_append.2 ⟨ho, by simp [Plain, Entry.isPlain]⟩
    cases h' with
    | readFailed e =>
      rw [← List.cons_append]
      exact .idle hcur (plain_append.2 ⟨ho, by simp [Plain, Entry.isPlain]⟩)
    | empty raw epoch hc =>
      have hrest : Plain [.invalidate, .close, .emit .exchangeEmpty] := by simp [Plain, Entry.isPlain]
      have hcursor : ({ s₁ with cursor := ⟨epoch⟩, stats := s₁.stats.recordEmpty } : Session).cursor = ⟨epoch⟩ := rfl
      simpa [hd] using Shape.empty (s := s) hcursor (ha raw) hrest
    | command raw epoch hc h' =>
      obtain ⟨hcursor, j, rfl, hj⟩ := h'.judged
      rw [show ({ s₁ with cursor := ⟨epoch⟩ } : Session).settings = s.settings from hset] at hj
      have hlink : .readLink (some index) ∈ .readLink (some index) :: (o ++ [.receive (.ok raw)]) := List.mem_cons_self
      simpa [hd] using Shape.command hcursor (ha raw) hlink hj

theorem plain_dropped (s : Session) (epoch : UInt32) : Plain (s.dropped epoch) := by
  unfold dropped
  split <;> simp [Plain, Entry.isPlain]

theorem plain_pending (c : Command) : Plain (pending c) := by
  unfold pending
  split <;> simp [Plain, Entry.isPlain]

theorem dropped_unlooked (s : Session) (epoch : UInt32) : Unlooked (s.dropped epoch) := by
  unfold dropped
  split <;> simp [Unlooked, Entry.looksAtEpoch, Entry.looksAtLink]

theorem pending_unlooked (c : Command) : Unlooked (pending c) := by
  unfold pending
  split <;> simp [Unlooked, Entry.looksAtEpoch, Entry.looksAtLink]

theorem Follows.unlooked {c : Command} {out : Gate.Outcome} {v : List Entry} (h : Follows c out v) : Unlooked v := by
  cases h <;> simp [Unlooked, processing, Entry.looksAtEpoch, Entry.looksAtLink]

theorem Judged.unlooked {p : ConfirmPolicy} {c : Command} {j : List Entry} (h : Judged p c j) : Unlooked j := by
  obtain @⟨g, v, rest, out, hg, hv, hrest⟩ := h
  intro x hx
  simp only [List.mem_cons, List.mem_append] at hx
  rcases hx with rfl | hx | rfl | hx | hx
  · exact ⟨rfl, rfl⟩
  · have := hg.waits x hx
    cases x <;> first | exact ⟨rfl, rfl⟩ | cases this
  · exact ⟨rfl, rfl⟩
  · exact hv.unlooked x hx
  · have := hrest x hx
    cases x <;> first | exact ⟨rfl, rfl⟩ | cases this

/-- A cycle looks at the epoch once at most. With that look its cursor moves, and the token forgets if the epoch did. -/
theorem Shape.follows {o : List Entry} (h : Shape s s' o) :
    (s'.cursor = s.cursor ∧ ∀ x ∈ o, x.looksAtEpoch = false) ∨
      ∃ (a b : List Entry) (epoch : UInt32), o = a ++ .readEpoch epoch :: (s.dropped epoch ++ b) ∧ s'.cursor = ⟨epoch⟩ ∧
        (∀ x ∈ a, x.looksAtEpoch = false) ∧ ∀ x ∈ s.dropped epoch ++ b, x.looksAtEpoch = false := by
  cases h with
  | idle hcursor ho => exact Or.inl ⟨hcursor, ho.unlooked⟩
  | empty hcursor ha hrest =>
    refine Or.inr ⟨_, _, _, rfl, hcursor, ha.unlooked, ?_⟩
    exact (plain_append.2 ⟨plain_dropped s _, hrest⟩).unlooked
  | @command a j epoch c _ hcursor ha _ hj =>
    refine Or.inr ⟨_, _, _, rfl, hcursor, ha.unlooked, List.forall_mem_append.2 ⟨(plain_dropped s _).unlooked, ?_⟩⟩
    exact List.forall_mem_append.2 ⟨(plain_pending c).unlooked, fun x hx => (hj.unlooked x hx).1⟩

/-- In front of any step of judging or answering a command the cycle has seen the link up, and then the epoch. -/
theorem Shape.looked {o pre post : List Entry} {y : Entry} (h : Shape s s' o) (ho : o = pre ++ y :: post)
    (hy : y.isQuiet = false) :
    ∃ (a b : List Entry) (epoch : UInt32) (index : Nat),
      pre = a ++ .readEpoch epoch :: (s.dropped epoch ++ b) ∧ .readLink (some index) ∈ a ∧
      (∀ x ∈ a, x.looksAtEpoch = false) ∧ Unlooked (s.dropped epoch ++ b) := by
  have quiet : ∀ {l : List Entry}, (∀ x ∈ l, x.isQuiet = true) → y ∉ l := fun hl hm => by
    cases hy.symm.trans (hl y hm)
  cases h with
  | idle _ hplain => exact absurd (ho ▸ List.mem_append_right _ List.mem_cons_self) (quiet hplain.quiet)
  | @empty a rest epoch _ ha hrest =>
    refine absurd (ho ▸ List.mem_append_right pre List.mem_cons_self) (quiet (quiet_of_look ha ?_))
    exact plain_append.2 ⟨plain_dropped s epoch, hrest⟩
  | @command a j epoch c index _ ha hlink hj =>
    have hfront : y ∉ a ++ .readEpoch epoch :: (s.dropped epoch ++ pending c) :=
      quiet (quiet_of_look ha (plain_append.2 ⟨plain_dropped s epoch, plain_pending c⟩))
    obtain ⟨pre', rfl, hj'⟩ := append_split (by simpa using ho) hfront
    refine ⟨a, pending c ++ pre', epoch, index, by simp, hlink, ha.unlooked, ?_⟩
    refine List.forall_mem_append.2 ⟨dropped_unlooked s epoch, List.forall_mem_append.2 ⟨pending_unlooked c, ?_⟩⟩
    exact fun x hx => hj.unlooked x (hj' ▸ List.mem_append_left _ hx)

/-- A cycle is quiet up to where it judges its command, or quiet throughout. -/
theorem Shape.quiet_or_judged {o : List Entry} (h : Shape s s' o) :
    (∀ x ∈ o, x.isQuiet = true) ∨
      ∃ (a j : List Entry) (c : Command), o = a ++ j ∧ (∀ x ∈ a, x.isQuiet = true) ∧ Judged s.settings.confirm c j := by
  cases h with
  | idle _ ho => exact Or.inl ho.quiet
  | @empty a rest epoch _ ha hrest =>
    exact Or.inl (quiet_of_look ha (plain_append.2 ⟨plain_dropped s epoch, hrest⟩))
  | @command a j epoch c _ _ ha _ hj =>
    refine Or.inr ⟨a ++ .readEpoch epoch :: (s.dropped epoch ++ pending c), j, c, by simp, ?_, hj⟩
    exact quiet_of_look ha (plain_append.2 ⟨plain_dropped s epoch, plain_pending c⟩)

end Session

end KeyFob
