import Mathlib.Data.List.Induction
import KeyFob.Proofs.Journal.Reading
import KeyFob.Proofs.Session.Rounds

/-!
What a session counts. Its counters are the numbers of certain entries of its journal, up to the size of a word, and
these numbers agree with each other and with the outcomes of its cycles. The first is carried by `bookkeeping`, which
reads a journal with the counters in mind, and the second by the outline of a cycle.
-/

namespace KeyFob

/-- Entries that are counted: most of a session's events, a dial that is answered, the gate's verdict that nobody has
pressed the button, and a challenge that is drawn. -/
inductive Kind
  | peerUnreachable
  | exchangeEmpty
  | confirmationPending
  | confirmed
  | lockedOut
  | served
  | writeFailed
  | connected
  | refused
  | challenged
deriving DecidableEq, Repr

def Event.kind? : Event → Option Kind
  | peerUnreachable _ => some .peerUnreachable
  | exchangeEmpty => some .exchangeEmpty
  | confirmationPending _ => some .confirmationPending
  | confirmed _ _ => some .confirmed
  | lockedOut _ _ => some .lockedOut
  | served _ _ _ _ => some .served
  | writeFailed _ => some .writeFailed
  | _ => none

namespace Entry

def kind? : Entry → Option Kind
  | emit e => e.kind?
  | dial _ (.ok ()) => some .connected
  | judged .lockedOut => some .refused
  | process c => if c.isGetChallenge then some .challenged else none
  | _ => none

def isBooked : Entry → Bool
  | emit _ | process _ => true
  | _ => false

end Entry

def kinds (t : List Entry) : List Kind := t.filterMap Entry.kind?

/-- The lockouts since the last confirmation. -/
def streak (ks : List Kind) : Nat := (ks.reverse.takeWhile (· != .confirmed)).count .lockedOut

theorem streak_lockedOut (ks : List Kind) : streak (ks ++ [.lockedOut]) = streak ks + 1 := by simp [streak]

theorem streak_confirmed (ks : List Kind) : streak (ks ++ [.confirmed]) = 0 := by simp [streak]

theorem streak_other (ks : List Kind) {k : Kind} (h : k ≠ .lockedOut) (h' : k ≠ .confirmed) :
    streak (ks ++ [k]) = streak ks := by
  simp [streak, h, h']

theorem kinds_own (t : List Entry) : kinds (own t) = kinds t := filterMap_own (fun _ => rfl) (fun _ => rfl) t

theorem kinds_append (t u : List Entry) : kinds (t ++ u) = kinds t ++ kinds u := List.filterMap_append

def saturated (n : Nat) : UInt32 := UInt32.ofNat (min n (UInt32.size - 1))

theorem saturated_succ (n : Nat) :
    saturated (n + 1) = if saturated n = 0xFFFFFFFF then 0xFFFFFFFF else saturated n + 1 := by
  unfold saturated
  rcases Nat.lt_or_ge n (UInt32.size - 1) with h | h
  · have hn : UInt32.ofNat n ≠ 0xFFFFFFFF := by
      intro he
      have := congrArg UInt32.toNat he
      rw [UInt32.toNat_ofNat_of_lt' (by omega)] at this
      change n = UInt32.size - 1 at this
      omega
    rw [Nat.min_eq_left (by omega), Nat.min_eq_left (by omega), if_neg hn, UInt32.ofNat_add]
    rfl
  · rw [Nat.min_eq_right (by omega), Nat.min_eq_right h]
    rfl

theorem toNat_saturated (n : Nat) : (saturated n).toNat = min n (UInt32.size - 1) := by
  refine UInt32.toNat_ofNat_of_lt' ?_
  have : UInt32.size - 1 < UInt32.size := by decide
  omega

namespace Session

/-- The counters of a session. -/
structure Books where
  stats : Stats := {}
  challenges : UInt32 := 0

namespace Books

def record (b : Books) : Kind → Books
  | .peerUnreachable => { b with stats := b.stats.recordConnectFailure }
  | .exchangeEmpty => { b with stats := b.stats.recordEmpty }
  | .confirmed => { b with stats := b.stats.recordConfirmed }
  | .lockedOut => { b with stats := b.stats.recordLockout }
  | .served => { b with stats := b.stats.recordServed }
  | .writeFailed => { b with stats := b.stats.recordWriteFailure }
  | .challenged =>
    { b with challenges := if b.challenges = 0xFFFFFFFF then 0xFFFFFFFF else b.challenges + 1 }
  | .confirmationPending | .connected | .refused => b

def ofKinds (ks : List Kind) : Books where
  stats := {
    served := UInt32.ofNat (ks.count .served)
    lockouts := UInt32.ofNat (ks.count .lockedOut)
    consecutiveLockouts := saturated (streak ks)
    connectFailures := UInt32.ofNat (ks.count .peerUnreachable)
    writeFailures := UInt32.ofNat (ks.count .writeFailed)
    emptyExchanges := UInt32.ofNat (ks.count .exchangeEmpty) }
  challenges := saturated (ks.count .challenged)

theorem ofKinds_concat (ks : List Kind) (k : Kind) : ofKinds (ks ++ [k]) = (ofKinds ks).record k := by
  have number : ∀ k k' : Kind, (ks ++ [k]).count k' = ks.count k' + if k = k' then 1 else 0 := by
    intro k k'
    rw [List.count_append, List.count_singleton]
    simp
  unfold ofKinds
  simp only [number]
  cases k <;> simp [record, Stats.recordConnectFailure, Stats.recordEmpty, Stats.recordConfirmed,
    Stats.recordLockout, Stats.recordServed, Stats.recordWriteFailure, streak_lockedOut, streak_confirmed, streak_other,
    UInt32.ofNat_add]
  · rfl
  · exact saturated_succ _
  · exact saturated_succ _

/-- Counting entry by entry comes to the numbers of the entries. -/
theorem foldl_record (ks : List Kind) : ks.foldl record {} = ofKinds ks := by
  induction ks using List.reverseRecOn with
  | nil => rfl
  | append_singleton ks k ih => rw [List.foldl_append, ih, ofKinds_concat]; rfl

end Books

open Card (Command)
open Config (Endpoint)

def books (s : Session) : Books := ⟨s.stats, s.timing.count⟩

/-- Reads a journal with the counters in mind. A lockout tells of the streak that it makes. -/
def bookkeeping : Reading Books where
  next b e := match e.kind? with
    | some k => b.record k
    | none => b
  Fits b
    | .emit (.lockedOut _ n) => n = b.stats.recordLockout.consecutiveLockouts
    | _ => True

theorem bookkeeping_after (b : Books) (t : List Entry) : bookkeeping.after b t = (kinds t).foldl Books.record b := by
  induction t generalizing b with
  | nil => rfl
  | cons e t ih =>
    change bookkeeping.after (bookkeeping.next b e) t = _
    rw [ih]
    simp only [bookkeeping, kinds, List.filterMap_cons]
    cases e.kind? <;> rfl

theorem bookkeeping_ignores : bookkeeping.Ignores Entry.isBooked := by
  intro b e he
  cases e with
  | emit _ => cases he
  | process _ => cases he
  | dial _ r => cases r <;> exact ⟨rfl, trivial⟩
  | judged out => cases out <;> exact ⟨rfl, trivial⟩
  | _ => exact ⟨rfl, trivial⟩

/-- What is counted of a cycle behind the dials that fail, for each of its ends. -/
inductive Outline : CycleEnd → List Kind → Prop
  | unconnected {e : CycleEnd} (he : ∀ r, e = .done r → r = .halted ∨ r = .linkLost) : Outline e []
  | unread : Outline (.done .readFailed) [.connected]
  | empty : Outline (.done .empty) [.connected, .exchangeEmpty]
  | lockedOut : Outline (.done .lockedOut) [.connected, .confirmationPending, .refused, .lockedOut]
  | lockedOutUnwritten :
    Outline (.done .writeFailed) [.connected, .confirmationPending, .refused, .lockedOut, .writeFailed]
  | served {l l' : List Kind} (hl : l = [] ∨ l = [.confirmationPending, .confirmed]) (hl' : l' = [] ∨ l' = [.challenged])
    (sw : UInt16) : Outline (.done (.served sw)) (.connected :: (l ++ l' ++ [.served]))
  | unwritten {l l' : List Kind} (hl : l = [] ∨ l = [.confirmationPending, .confirmed])
    (hl' : l' = [] ∨ l' = [.challenged]) : Outline (.done .writeFailed) (.connected :: (l ++ l' ++ [.writeFailed]))

variable {s s' : Session} {o : List Entry} {c : Command}

theorem Dials.books {index : Nat} {peer : Endpoint} {r : Dialed} (h : Dials index peer s r s' o) :
    bookkeeping.Tells s.books o s'.books := by
  have failed : ∀ (s : Session) (link : Option Nat), bookkeeping.Tells s.books (s.redial peer link) s.failed.books := by
    intro s link
    exact ⟨trivial, trivial, trivial, trivial, trivial, rfl⟩
  induction h with
  | halted => rfl
  | connected => exact ⟨trivial, rfl⟩
  | refused => exact ⟨trivial, rfl⟩
  | linkLost s => exact failed s _
  | again _ ih => exact (failed _ _).append ih

/-- A challenge is counted once the token has drawn it. -/
theorem processing_books (s : Session) (c : Command) (r : Card.Response) (elapsedMs : Nat) :
    bookkeeping.Tells s.books (processing c r) (s.processed c elapsedMs).books := by
  refine ⟨trivial, trivial, trivial, trivial, ?_⟩
  change (s.processed c elapsedMs).books = bookkeeping.next s.books (.process c)
  unfold processed
  cases hc : c.isGetChallenge <;> simp [bookkeeping, Entry.kind?, hc, Books.record, Session.books, Timing.record]

theorem Answers.books {r : Card.Response} {locked : Bool} (h : Answers s c r locked s' o) :
    bookkeeping.Tells s.books o s'.books := by
  obtain ⟨g, l, rfl, hg, hl⟩ := h.replies
  have hl' : bookkeeping.Tells s.books l s'.books := by
    cases hl with
    | lockedOut => exact ⟨trivial, rfl, rfl⟩
    | confirmed _ waitedMs r elapsedMs => exact ⟨trivial, trivial, processing_books _ c r elapsedMs⟩
    | bypassed _ r elapsedMs => exact ⟨trivial, processing_books s c r elapsedMs⟩
  refine ⟨trivial, (bookkeeping_ignores.tells fun x hx => ?_).append hl'⟩
  have := hg x hx
  cases x <;> first | rfl | cases this

theorem Serves.books {r : Outcome} (h : Serves s c r s' o) : bookkeeping.Tells s.books o s'.books := by
  have hpending : bookkeeping.Tells s.books (pending c) s.books := by
    unfold pending
    split
    · exact ⟨trivial, rfl⟩
    · rfl
  cases h with
  | writeFailed h => exact (hpending.append h.books).append ⟨trivial, trivial, trivial, rfl⟩
  | lockedOut h => exact (hpending.append h.books).append ⟨trivial, trivial, rfl⟩
  | served h => exact (hpending.append h.books).append ⟨trivial, trivial, trivial, rfl⟩

theorem Connects.books {r : Outcome} (h : Connects s r s' o) : bookkeeping.Tells s.books o s'.books := by
  have look : ∀ {epoch l b}, bookkeeping.Tells s.books l b →
      bookkeeping.Tells s.books (.readEpoch epoch :: (s.dropped epoch ++ l)) b := by
    intro epoch l b hl
    refine ⟨trivial, (bookkeeping_ignores.tells fun x hx => ?_).append hl⟩
    unfold dropped at hx
    split at hx
    · cases hx
    · rw [List.mem_singleton.1 hx]
      rfl
  cases h with
  | readFailed => exact ⟨trivial, trivial, trivial, rfl⟩
  | empty => exact ⟨trivial, look ⟨trivial, trivial, trivial, rfl⟩⟩
  | command raw epoch hc h => exact ⟨trivial, look h.books⟩

theorem Cycles.books {e : CycleEnd} (h : Cycles s e s' o) : bookkeeping.Tells s.books o s'.books := by
  cases h with
  | halted => rfl
  | waiting => exact ⟨trivial, rfl⟩
  | unknown => exact ⟨trivial, rfl⟩
  | ended index hn h => exact ⟨trivial, h.books⟩
  | connected index hn h h' => exact ⟨trivial, h.books.append h'.books⟩

theorem kinds_of_waits {g : List Entry} (h : ∀ x ∈ g, Gate.isWait x = true) : kinds g = [] := by
  refine List.filterMap_eq_nil_iff.2 fun x hx => ?_
  have := h x hx
  cases x <;> first | rfl | cases this

theorem kinds_dropped (s : Session) (epoch : UInt32) : kinds (s.dropped epoch) = [] := by
  unfold dropped
  split <;> rfl

theorem kinds_processing (c : Command) (r : Card.Response) :
    kinds (processing c r) = [] ∨ kinds (processing c r) = [.challenged] := by
  cases hc : c.isGetChallenge <;> simp [kinds, processing, List.filterMap_cons, Entry.kind?, hc]

theorem Dials.kinds {index : Nat} {peer : Endpoint} {r : Dialed} (h : Dials index peer s r s' o) :
    ∃ k, (KeyFob.kinds o = List.replicate k .peerUnreachable ∧
        ∃ e, r = .ended e ∧ ∀ r, e = .done r → r = .halted ∨ r = .linkLost) ∨
      (KeyFob.kinds o = List.replicate k .peerUnreachable ++ [.connected] ∧ ∃ x, r = .connected x) := by
  induction h with
  | halted => exact ⟨0, Or.inl ⟨rfl, _, rfl, by simp⟩⟩
  | connected _ x => exact ⟨0, Or.inr ⟨rfl, x, rfl⟩⟩
  | refused => exact ⟨0, Or.inl ⟨rfl, _, rfl, by simp⟩⟩
  | linkLost => exact ⟨1, Or.inl ⟨rfl, _, rfl, by simp⟩⟩
  | again _ ih =>
    obtain ⟨k, ⟨hk, he⟩ | ⟨hk, hx⟩⟩ := ih
    · refine ⟨k + 1, Or.inl ⟨?_, he⟩⟩
      rw [kinds_append, hk]
      rfl
    · refine ⟨k + 1, Or.inr ⟨?_, hx⟩⟩
      rw [kinds_append, hk]
      rfl

/-- A command that waits for the button is reported, and so is what comes of the wait. -/
theorem Answers.kinds {r : Card.Response} {locked : Bool} (h : Answers s c r locked s' o) :
    (locked = true ∧ KeyFob.kinds (pending c ++ o) = [.confirmationPending, .refused, .lockedOut]) ∨
      (locked = false ∧ ∃ l l' : List Kind, KeyFob.kinds (pending c ++ o) = l ++ l' ∧
        (l = [] ∨ l = [.confirmationPending, .confirmed]) ∧ (l' = [] ∨ l' = [.challenged])) := by
  obtain ⟨g, l, rfl, hg, hl⟩ := h.replies
  have ho : KeyFob.kinds (pending c ++ .judge c :: (g ++ l)) = KeyFob.kinds (pending c) ++ KeyFob.kinds l := by
    rw [kinds_append]
    change _ ++ KeyFob.kinds (g ++ l) = _
    rw [kinds_append, kinds_of_waits hg, List.nil_append]
  rw [ho, pending]
  cases hl with
  | lockedOut hc =>
    rw [if_pos hc]
    exact Or.inl ⟨rfl, rfl⟩
  | confirmed hc waitedMs r =>
    rw [if_pos hc]
    exact Or.inr ⟨rfl, [.confirmationPending, .confirmed], _, rfl, Or.inr rfl, kinds_processing c r⟩
  | bypassed hc r =>
    rw [if_neg (by simp [hc])]
    exact Or.inr ⟨rfl, [], _, rfl, Or.inl rfl, kinds_processing c r⟩

theorem Serves.outline {r : Outcome} (h : Serves s c r s' o) : Outline (.done r) (.connected :: kinds o) := by
  cases h with
  | writeFailed h =>
    rw [kinds_append]
    rcases h.kinds with ⟨-, ho⟩ | ⟨-, l, l', ho, hl, hl'⟩
    · rw [ho]
      exact .lockedOutUnwritten
    · rw [ho]
      exact .unwritten hl hl'
  | lockedOut h =>
    rw [kinds_append]
    rcases h.kinds with ⟨-, ho⟩ | ⟨hf, -⟩
    · rw [ho]
      exact .lockedOut
    · cases hf
  | served h =>
    rw [kinds_append]
    rcases h.kinds with ⟨hf, -⟩ | ⟨-, l, l', ho, hl, hl'⟩
    · cases hf
    · rw [ho]
      exact .served hl hl' _

theorem Connects.outline {r : Outcome} (h : Connects s r s' o) : Outline (.done r) (.connected :: kinds o) := by
  have look : ∀ {raw epoch l}, kinds (.receive (.ok raw) :: .readEpoch epoch :: (s.dropped epoch ++ l)) = kinds l := by
    intro raw epoch l
    change kinds (s.dropped epoch ++ l) = _
    rw [kinds_append, kinds_dropped, List.nil_append]
  cases h with
  | readFailed => exact .unread
  | empty =>
    rw [look]
    exact .empty
  | command raw epoch hc h =>
    rw [look]
    exact h.outline

theorem Cycles.outline {e : CycleEnd} (h : Cycles s e s' o) :
    ∃ (k : Nat) (l : List Kind), kinds o = List.replicate k .peerUnreachable ++ l ∧ Outline e l := by
  cases h with
  | halted => exact ⟨0, [], rfl, .unconnected (by simp)⟩
  | waiting => exact ⟨0, [], rfl, .unconnected (by simp)⟩
  | unknown => exact ⟨0, [], rfl, .unconnected (by simp)⟩
  | ended index hn h =>
    obtain ⟨k, ⟨hk, e, he, hr⟩ | ⟨-, x, hx⟩⟩ := h.kinds
    · cases he
      exact ⟨k, [], by rw [List.append_nil, ← hk]; rfl, .unconnected hr⟩
    · cases hx
  | @connected index _ _ _ _ _ _ o o' h h' =>
    obtain ⟨k, ⟨-, e, he, -⟩ | ⟨hk, -⟩⟩ := h.kinds
    · cases he
    · refine ⟨k, .connected :: kinds o', ?_, h'.outline⟩
      change kinds (o ++ o') = _
      rw [kinds_append, hk]
      simp

/-- A cycle as it ended, with what it has left in the journal. -/
structure Record where
  ended : CycleEnd
  trail : List Entry

def journal (H : List Record) : List Entry := H.flatMap Record.trail

def number (k : Kind) (H : List Record) : Nat := (kinds (journal H)).count k

def CycleEnd.isOf (p : Outcome → Bool) : CycleEnd → Bool
  | done r => p r
  | _ => false

def outcomes (p : Outcome → Bool) (H : List Record) : Nat := H.countP (·.ended.isOf p)

def Outcome.isServed : Outcome → Bool
  | served _ => true
  | _ => false

/-- The cycle had locked out, and then could not write so. -/
def Record.isUnwrittenLockout (r : Record) : Bool :=
  r.ended.isOf (· == .writeFailed) && (kinds r.trail).contains .refused

/-- The counters of a session are those of its journal. Totals start over at the size of a word; the streak and the
number of challenges stop there. -/
structure KeepsBooks (s : Session) (J : List Entry) : Prop where
  connectFailures : s.stats.connectFailures.toNat = (kinds J).count .peerUnreachable % UInt32.size
  emptyExchanges : s.stats.emptyExchanges.toNat = (kinds J).count .exchangeEmpty % UInt32.size
  writeFailures : s.stats.writeFailures.toNat = (kinds J).count .writeFailed % UInt32.size
  served : s.stats.served.toNat = (kinds J).count .served % UInt32.size
  lockouts : s.stats.lockouts.toNat = (kinds J).count .lockedOut % UInt32.size
  consecutiveLockouts : s.stats.consecutiveLockouts.toNat = min (streak (kinds J)) (UInt32.size - 1)
  positions (u v : List Entry) (ins : UInt8) (n : UInt32) : J = u ++ .emit (.lockedOut ins n) :: v →
    n.toNat = min (streak (kinds u) + 1) (UInt32.size - 1)
  challenges : s.timing.count.toNat = min ((kinds J).count .challenged) (UInt32.size - 1)

/-- The numbers of events agree with those of the outcomes, and with each other. -/
structure Tallies (H : List Record) : Prop where
  exchangeEmpty : number .exchangeEmpty H = outcomes (· == .empty) H
  writeFailed : number .writeFailed H = outcomes (· == .writeFailed) H
  served : number .served H = outcomes Outcome.isServed H
  lockedOut : number .lockedOut H = outcomes (· == .lockedOut) H + H.countP Record.isUnwrittenLockout
  confirmationPending : number .confirmationPending H = number .confirmed H + number .lockedOut H
  connected : number .connected H = outcomes (· == .empty) H + outcomes (· == .readFailed) H +
    outcomes (· == .lockedOut) H + outcomes Outcome.isServed H + outcomes (· == .writeFailed) H

theorem tallies_nil : Tallies [] := ⟨rfl, rfl, rfl, rfl, rfl, rfl⟩

theorem Tallies.append {H H' : List Record} (h : Tallies H) (h' : Tallies H') : Tallies (H ++ H') := by
  have hn : ∀ k, number k (H ++ H') = number k H + number k H' := fun k => by
    simp [number, journal, kinds_append, List.count_append]
  have ho : ∀ p, outcomes p (H ++ H') = outcomes p H + outcomes p H' := fun p => List.countP_append
  constructor
  · rw [hn, ho, h.exchangeEmpty, h'.exchangeEmpty]
  · rw [hn, ho, h.writeFailed, h'.writeFailed]
  · rw [hn, ho, h.served, h'.served]
  · rw [hn, ho, List.countP_append, h.lockedOut, h'.lockedOut]
    omega
  · rw [hn, hn, hn, h.confirmationPending, h'.confirmationPending]
    omega
  · simp only [hn, ho, h.connected, h'.connected]
    omega

/-- What a single cycle has to show for it. -/
theorem Outline.counts {e : CycleEnd} {l : List Kind} (h : Outline e l) :
    l.count .exchangeEmpty = (e.isOf (· == .empty)).toNat ∧ l.count .writeFailed = (e.isOf (· == .writeFailed)).toNat ∧
    l.count .served = (e.isOf Outcome.isServed).toNat ∧
    l.count .lockedOut =
      (e.isOf (· == .lockedOut)).toNat + (e.isOf (· == .writeFailed) && l.contains .refused).toNat ∧
    l.count .confirmationPending = l.count .confirmed + l.count .lockedOut ∧
    l.count .connected = (e.isOf (· == .empty)).toNat + (e.isOf (· == .readFailed)).toNat +
      (e.isOf (· == .lockedOut)).toNat + (e.isOf Outcome.isServed).toNat + (e.isOf (· == .writeFailed)).toNat := by
  cases h with
  | unconnected he =>
    cases e with
    | done r => rcases he r rfl with rfl | rfl <;> exact ⟨rfl, rfl, rfl, rfl, rfl, rfl⟩
    | _ => exact ⟨rfl, rfl, rfl, rfl, rfl, rfl⟩
  | served hl hl' sw => rcases hl with rfl | rfl <;> rcases hl' with rfl | rfl <;> exact ⟨rfl, rfl, rfl, rfl, rfl, rfl⟩
  | unwritten hl hl' => rcases hl with rfl | rfl <;> rcases hl' with rfl | rfl <;> exact ⟨rfl, rfl, rfl, rfl, rfl, rfl⟩
  | _ => exact ⟨rfl, rfl, rfl, rfl, rfl, rfl⟩

theorem Outline.tallies {e : CycleEnd} {l : List Kind} (h : Outline e l) {t : List Entry} {k : Nat}
    (ht : kinds t = List.replicate k .peerUnreachable ++ l) : Tallies [⟨e, t⟩] := by
  have hn : ∀ x, x ≠ .peerUnreachable → number x [⟨e, t⟩] = l.count x := by
    intro x hx
    simp [number, journal, ht, List.count_append, List.count_replicate, hx.symm]
  have single : ∀ (p : Record → Bool) (r : Record), [r].countP p = (p r).toNat := by
    intro p r
    cases hp : p r <;> simp [hp]
  have ho : ∀ p, outcomes p [⟨e, t⟩] = (e.isOf p).toNat := fun p => single _ _
  have hrefused : [(⟨e, t⟩ : Record)].countP Record.isUnwrittenLockout =
      (e.isOf (· == .writeFailed) && l.contains .refused).toNat := by
    rw [single, Record.isUnwrittenLockout, ht]
    simp
  obtain ⟨h₁, h₂, h₃, h₄, h₅, h₆⟩ := h.counts
  constructor
  · rw [hn _ (by decide), ho, h₁]
  · rw [hn _ (by decide), ho, h₂]
  · rw [hn _ (by decide), ho, h₃]
  · rw [hn _ (by decide), ho, hrefused, h₄]
  · rw [hn _ (by decide), hn _ (by decide), hn _ (by decide), h₅]
  · rw [hn _ (by decide), ho, ho, ho, ho, ho, h₆]

variable {ε κ τ : Type} [Surroundings ε] [Token κ τ]

def history (s : Session) (d : Device ε κ τ) : List Round → List Record
  | [] => []
  | r :: rest =>
    ⟨(round r s d).1.1, (round r s d).2.journal.since d.journal⟩ :: history (round r s d).1.2 (round r s d).2 rest

/-- The session that the rounds leave. -/
def afterwards (s : Session) (d : Device ε κ τ) : List Round → Session
  | [] => s
  | r :: rest => afterwards (round r s d).1.2 (round r s d).2 rest

theorem history_tells (s : Session) (d : Device ε κ τ) (rounds : List Round) :
    bookkeeping.Tells s.books (journal (history s d rounds)) (afterwards s d rounds).books ∧
      Tallies (history s d rounds) := by
  induction rounds generalizing s d with
  | nil => exact ⟨rfl, tallies_nil⟩
  | cons r rest ih =>
    obtain ⟨t, hj, -, hc⟩ := round_leaves r s d
    obtain ⟨hbooks, htallies⟩ := ih (round r s d).1.2 (round r s d).2
    have unbooked : bookkeeping.Ignores Entry.isOwn := bookkeeping_ignores.mono fun e he => by
      cases e <;> first | rfl | cases he
    rw [history, Journal.since_eq hj]
    obtain ⟨k, l, hk, hl⟩ := Cycles.outline hc
    rw [kinds_own] at hk
    exact ⟨(unbooked.tells_filter.1 (Cycles.books hc)).append hbooks, (hl.tallies hk).append htallies⟩

/-- A journal that can be read with the counters in mind from none on has them right at its end. -/
theorem keepsBooks_of_tells {s : Session} {J : List Entry} (h : bookkeeping.Tells {} J s.books) : KeepsBooks s J := by
  have hb : s.books = Books.ofKinds (kinds J) := by rw [h.eq_after, bookkeeping_after, Books.foldl_record]
  have hstats : s.stats = (Books.ofKinds (kinds J)).stats := congrArg Books.stats hb
  have htiming : s.timing.count = (Books.ofKinds (kinds J)).challenges := congrArg Books.challenges hb
  constructor
  · rw [hstats]; exact UInt32.toNat_ofNat
  · rw [hstats]; exact UInt32.toNat_ofNat
  · rw [hstats]; exact UInt32.toNat_ofNat
  · rw [hstats]; exact UInt32.toNat_ofNat
  · rw [hstats]; exact UInt32.toNat_ofNat
  · rw [hstats]; exact toNat_saturated _
  · rintro u v ins n rfl
    have hn : n = (Books.ofKinds (kinds u ++ [.lockedOut])).stats.consecutiveLockouts := by
      rw [Books.ofKinds_concat, ← Books.foldl_record, ← bookkeeping_after]
      exact h.fits.1
    rw [hn, ← streak_lockedOut]
    exact toNat_saturated _
  · rw [htiming]; exact toNat_saturated _

/-- Whatever cycles a new session goes through: its counters are the numbers of the events and of the challenges in its
journal, and these agree with the outcomes of the cycles. -/
theorem counters_agree (settings : Config.Settings) (cursor : Cursor) (d : Device ε κ τ) (rounds : List Round) :
    let s : Session := { settings, cursor }
    KeepsBooks (afterwards s d rounds) (journal (history s d rounds)) ∧ Tallies (history s d rounds) := by
  intro s
  obtain ⟨hbooks, htallies⟩ := history_tells s d rounds
  exact ⟨keepsBooks_of_tells hbooks, htallies⟩

end Session

end KeyFob
