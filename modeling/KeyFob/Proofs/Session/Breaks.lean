import KeyFob.Proofs.Journal.Reading
import KeyFob.Proofs.Session.Rounds

/-!
What breaks a session off: a peer that cannot be reached, a command that cannot be read or is none, and an epoch that
has moved. Each of these has the token forget before the next command is judged, so at that point nothing of the kind is
left owing.
-/

namespace KeyFob

namespace Entry

/-- Whether an entry breaks a session off that has last seen the epoch so. -/
def breaksOff (seen : UInt32) : Entry → Bool
  | dial _ (.error .connect) => true
  | receive (.error _) => true
  | receive (.ok raw) => (Card.Command.parse raw).isNone
  | readEpoch epoch => epoch != seen
  | _ => false

def seenAfter (seen : UInt32) : Entry → UInt32
  | readEpoch epoch => epoch
  | _ => seen

def concernsBreaks : Entry → Bool
  | dial .. | receive _ | readEpoch _ | invalidate | judge _ => true
  | _ => false

end Entry

/-- The epoch as it was last seen at the end of a journal. -/
def lastSeen (seen : UInt32) (J : List Entry) : UInt32 := J.foldl Entry.seenAfter seen

/-- What a session has seen of the link, and whether it owes the token an invalidation. -/
structure Owing where
  seen : UInt32
  owes : Bool := false

/-- Reads a journal with the invalidations in mind that are owed: none may be when a command is judged. -/
def settlement : Reading Owing where
  next s e := ⟨e.seenAfter s.seen, match e with
    | .invalidate => false
    | e => s.owes || e.breaksOff s.seen⟩
  Fits s
    | .judge _ => s.owes = false
    | _ => True

theorem settlement_ignores : settlement.Ignores Entry.concernsBreaks := by
  intro s e he
  cases e <;> first
    | (cases he; done)
    | exact ⟨by simp [settlement, Entry.seenAfter, Entry.breaksOff], trivial⟩

theorem after_seen (s : Owing) (J : List Entry) : (settlement.after s J).seen = lastSeen s.seen J := by
  induction J generalizing s with
  | nil => rfl
  | cons e J ih => exact ih _

theorem owes_after {s : Owing} {J : List Entry} (hs : s.owes = true) (hJ : .invalidate ∉ J) :
    (settlement.after s J).owes = true := by
  induction J generalizing s with
  | nil => exact hs
  | cons e J ih =>
    rw [List.mem_cons, not_or] at hJ
    refine ih ?_ hJ.2
    cases e with
    | invalidate => exact absurd rfl hJ.1
    | _ => exact Bool.or_eq_true_iff.2 (Or.inl hs)

/-- What breaks a session off is followed by an invalidation before a command is judged. -/
theorem settled {s s' : Owing} {u v w : List Entry} {e : Entry} {c : Card.Command}
    (h : settlement.Tells s (u ++ e :: (v ++ .judge c :: w)) s') (he : e.breaksOff (lastSeen s.seen u) = true) :
    .invalidate ∈ v := by
  obtain ⟨-, h⟩ := h.fits
  obtain ⟨hjudge, -⟩ := h.fits
  refine Classical.byContradiction fun hv => ?_
  have howes : (settlement.next (settlement.after s u) e).owes = true := by
    rw [← after_seen] at he
    cases e with
    | invalidate => cases he
    | _ => exact Bool.or_eq_true_iff.2 (Or.inr he)
  have hdue := owes_after howes hv
  change (settlement.after (settlement.next (settlement.after s u) e) v).owes = false at hjudge
  rw [hdue] at hjudge
  cases hjudge

namespace Session

open Card (Command)
open Config (Endpoint)

/-- Nothing is owed before or behind these entries, and the epoch is last seen so. -/
def Settles (seen seen' : UInt32) (o : List Entry) : Prop := settlement.Tells ⟨seen, false⟩ o ⟨seen', false⟩

theorem Settles.append {x y z : UInt32} {o o' : List Entry} (h : Settles x y o) (h' : Settles y z o') :
    Settles x z (o ++ o') :=
  Reading.Tells.append h h'

theorem settles_unconcerned {o : List Entry} (h : ∀ e ∈ o, e.concernsBreaks = false) (seen : UInt32) :
    Settles seen seen o :=
  settlement_ignores.tells h

variable {s s' : Session} {o : List Entry} {c : Command}

theorem settles_redial (s : Session) (peer : Endpoint) (link : Option Nat) (seen : UInt32) :
    Settles seen seen (s.redial peer link) := by
  simp [Settles, redial, Reading.Tells, settlement, Entry.seenAfter, Entry.breaksOff]

theorem Dials.settles {index : Nat} {peer : Endpoint} {r : Dialed} (h : Dials index peer s r s' o) (seen : UInt32) :
    Settles seen seen o := by
  induction h with
  | halted => exact settles_unconcerned (by simp) seen
  | connected => simp [Settles, Reading.Tells, settlement, Entry.seenAfter, Entry.breaksOff]
  | refused => simp [Settles, Reading.Tells, settlement, Entry.seenAfter, Entry.breaksOff]
  | linkLost s => exact settles_redial s peer _ seen
  | again _ ih => exact (settles_redial _ peer _ seen).append ih

theorem Answers.settles {r : Card.Response} {locked : Bool} (h : Answers s c r locked s' o) (seen : UInt32) :
    Settles seen seen o := by
  obtain ⟨g, l, rfl, hg, hl⟩ := h.replies
  have hl' : ∀ x ∈ l, x.concernsBreaks = false := by cases hl <;> simp [processing, Entry.concernsBreaks]
  refine ⟨rfl, settles_unconcerned (List.forall_mem_append.2 ⟨fun x hx => ?_, hl'⟩) seen⟩
  have := hg x hx
  cases x <;> first | rfl | cases this

theorem settles_pending (c : Command) (seen : UInt32) : Settles seen seen (pending c) := by
  refine settles_unconcerned (fun e he => ?_) seen
  unfold pending at he
  split at he
  · rw [List.mem_singleton.1 he]
    rfl
  · cases he

theorem Serves.settles {r : Outcome} (h : Serves s c r s' o) (seen : UInt32) : Settles seen seen o := by
  cases h with
  | writeFailed h =>
    exact ((settles_pending c seen).append (h.settles seen)).append
      (settles_unconcerned (by simp [Entry.concernsBreaks]) seen)
  | lockedOut h =>
    exact ((settles_pending c seen).append (h.settles seen)).append
      (settles_unconcerned (by simp [Entry.concernsBreaks]) seen)
  | served h =>
    exact ((settles_pending c seen).append (h.settles seen)).append
      (settles_unconcerned (by simp [Entry.concernsBreaks]) seen)

/-- A look at the epoch, and what is dropped if it moved. -/
theorem settles_look (s : Session) (epoch : UInt32) :
    Settles s.cursor.seen epoch (.readEpoch epoch :: s.dropped epoch) := by
  by_cases h : epoch = s.cursor.seen
  · simp [Settles, dropped, h, Reading.Tells, settlement, Entry.seenAfter, Entry.breaksOff]
  · simp [Settles, dropped, h, Reading.Tells, settlement, Entry.seenAfter]

theorem Connects.settles {r : Outcome} (h : Connects s r s' o) : Settles s.cursor.seen s'.cursor.seen o := by
  cases h with
  | readFailed e => simp [Settles, Reading.Tells, settlement, Entry.seenAfter, Entry.breaksOff]
  | empty raw epoch hc =>
    -- The invalidation that ends the exchange settles the look as well.
    unfold dropped
    split <;> simp [Settles, Reading.Tells, settlement, Entry.seenAfter, Entry.breaksOff]
  | command raw epoch hc h =>
    have hreceive : Settles s.cursor.seen s.cursor.seen [.receive (.ok raw)] := by
      simp [Settles, Reading.Tells, settlement, Entry.seenAfter, Entry.breaksOff, hc]
    have hcursor : s'.cursor = ⟨epoch⟩ := h.judged.1
    rw [hcursor]
    exact (hreceive.append (settles_look s epoch)).append (h.settles epoch)

theorem Cycles.settles {e : CycleEnd} (h : Cycles s e s' o) : Settles s.cursor.seen s'.cursor.seen o := by
  have hlink : ∀ link seen, Settles seen seen [.readLink link] := fun link seen =>
    settles_unconcerned (by simp [Entry.concernsBreaks]) seen
  cases h with
  | halted => exact settles_unconcerned (by simp) _
  | waiting => exact hlink _ _
  | unknown index => exact hlink _ _
  | ended index hn h =>
    rw [h.same.2]
    exact (hlink _ _).append (h.settles _)
  | connected index hn h h' =>
    have hcursor := h.same.2
    refine (hlink _ _).append ((h.settles _).append ?_)
    rw [← hcursor]
    exact h'.settles

/-- A run of a session owes nothing when it judges a command. -/
theorem Consecutive.settles {σ : Signals} {ts : List (List Entry)} (h : Consecutive s σ ts) :
    ∃ seen, Settles s.cursor.seen seen ts.flatten := by
  have unowned : settlement.Ignores Entry.isOwn := settlement_ignores.mono fun e he => by
    cases e <;> first | rfl | cases he
  induction h with
  | nil s => exact ⟨_, rfl⟩
  | cons _ hc _ ih =>
    obtain ⟨seen, h⟩ := ih
    exact ⟨seen, Settles.append (unowned.tells_filter.1 hc.settles) h⟩

end Session

end KeyFob
