import KeyFob.Proofs.Token.Following
import KeyFob.Proofs.Token.Reloading

/-!
A token in use, over a store where nothing fails. It is made ready and then called, time and again, and the store mirrors
it behind every call. So whenever the fob loses power, the token that reloads is the one that was in use, but for its
session, and goes on where that one would have.
-/

namespace KeyFob.SoftToken

open Card (Command Response)

section definitions

variable {κ : Type} [Storage κ]

inductive Readying
  | generate
  | restore

def Readying.perform : Readying → SoftToken → OnShelf κ (Except ProvisionError Unit × SoftToken)
  | generate => SoftToken.generate
  | restore => SoftToken.restore

inductive Call
  | process (c : Command)
  | invalidate

def Call.make (t : SoftToken) : Call → OnShelf κ (Option Response × SoftToken)
  | process c => do
    let (response, t) ← SoftToken.process c t
    return (some response, t)
  | invalidate => return (none, ← t.invalidate)

def makeAll : List Call → SoftToken → OnShelf κ (List (Option Response) × SoftToken)
  | [], t => return ([], t)
  | call :: calls, t => do
    let (answer, t) ← call.make t
    let (answers, t) ← makeAll calls t
    return (answer :: answers, t)

/-- A new token that is made ready and then called. -/
def useAfter (start : Readying) (entropy : Entropy) (calls : List Call) : OnShelf κ SoftToken := do
  let (_, t) ← start.perform { entropy }
  let (_, t) ← makeAll calls t
  return t

def Call.outcome (t : SoftToken) : Call → Option Response × SoftToken
  | process c => (some (react c t).1, (react c t).2)
  | invalidate => (none, t.dropped)

theorem makeAll_cons (call : Call) (calls : List Call) (t : SoftToken) (s : Shelf κ) :
    makeAll (call :: calls) t s =
      (((call.make t s).1.1 :: (makeAll calls (call.make t s).1.2 (call.make t s).2).1.1,
        (makeAll calls (call.make t s).1.2 (call.make t s).2).1.2),
        (makeAll calls (call.make t s).1.2 (call.make t s).2).2) :=
  rfl

end definitions

variable {κ κ' : Type} [Storage κ] [Reliable κ] [Storage κ'] [Reliable κ'] {C : Contents} {t : SoftToken}

def Mirrored (t : SoftToken) (s : Shelf κ) : Prop := Mirrors (Honest.contents s.store) t

theorem Call.outcome_kept (call : Call) (t : SoftToken) :
    (call.outcome t).2.secret = t.secret ∧ (call.outcome t).2.pin = t.pin := by
  cases call with
  | process c => exact (reacts c t).kept
  | invalidate => exact ⟨rfl, rfl⟩

theorem Call.outcome_retries (call : Call) (ht : t.retries ≤ maxRetries) :
    (call.outcome t).2.retries ≤ maxRetries := by
  cases call with
  | process c => exact (reacts c t).retries ht
  | invalidate => exact ht

/-- What a call comes to does not hang on the store, and the store follows the counter. -/
def Call.Comes (call : Call) (C : Contents) (t : SoftToken) (r : Option Response × SoftToken) (s : Shelf κ) : Prop :=
  r = call.outcome t ∧ s.Holds (recount C t.retries (call.outcome t).2.retries)

theorem Call.make_comes (call : Call) :
    Leads (Shelf.Holds C) (call.make t : OnShelf κ _) (call.Comes C t) := by
  intro s hs
  cases call with
  | process c =>
    have hr : (SoftToken.process c t .empty s).1 = react c t := process_fst c t s
    have hcontents : (SoftToken.process c t .empty s).2.Holds (recount C t.retries (react c t).2.retries) :=
      hr ▸ process_recounts c s hs
    exact ⟨congrArg (fun r : Response × SoftToken => (some r.1, r.2)) hr, hcontents⟩
  | invalidate =>
    have hcontents : (t.invalidate s).2.Holds C := (invalidate_leads s hs).1
    exact ⟨congrArg (fun t : SoftToken => (none, t)) (invalidate_fst t s), (recount_self C t.retries).symm ▸ hcontents⟩

theorem Call.make_mirrors (call : Call) :
    Leads (Mirrored t) (call.make t : OnShelf κ _) fun r => Mirrored r.2 := by
  intro s hs
  obtain ⟨hr, hcontents⟩ := call.make_comes (t := t) s rfl
  have hmirrors := hs.recount (call.outcome_kept t).1 (call.outcome_kept t).2 (call.outcome_retries hs.retries)
  rw [Mirrored, hr, hcontents]
  exact hmirrors

theorem makeAll_mirrors (calls : List Call) :
    Leads (Mirrored t) (makeAll calls t : OnShelf κ _) fun r => Mirrored r.2 := by
  induction calls generalizing t with
  | nil => exact .pure fun _ hs => hs
  | cons call calls ih => exact (call.make_mirrors).bind fun r => ih.bind fun r' => .pure fun _ hs => hs

/-- Over stores that hold the same, all calls come to the same. -/
theorem makeAll_agree (calls : List Call) (t : SoftToken) (s : Shelf κ) (s' : Shelf κ')
    (h : Honest.contents s.store = Honest.contents s'.store) :
    (makeAll calls t s).1 = (makeAll calls t s').1 ∧
      Honest.contents (makeAll calls t s).2.store = Honest.contents (makeAll calls t s').2.store := by
  induction calls generalizing t s s' with
  | nil => exact ⟨rfl, h⟩
  | cons call calls ih =>
    obtain ⟨hr, hcontents⟩ := call.make_comes (t := t) s h
    obtain ⟨hr', hcontents'⟩ := call.make_comes (t := t) s' rfl
    obtain ⟨hrest, hrestContents⟩ := ih (call.outcome t).2 (call.make t s).2 (call.make t s').2
      (hcontents.trans hcontents'.symm)
    simp only [makeAll_cons, hr, hr']
    exact ⟨congrArg (fun r : List (Option Response) × SoftToken => ((call.outcome t).1 :: r.1, r.2)) hrest, hrestContents⟩

/-- What making a token ready comes to: the store mirrors it, or there is nothing to reload and it stays as it was. -/
def Readied (t : SoftToken) (r : Except ProvisionError Unit × SoftToken) (s : Shelf κ) : Prop :=
  (r.1 = .ok () ∧ Mirrored r.2 s ∧ r.2.verified = t.verified) ∨
    (∃ e, r = (.error e, t)) ∧ ¬ ∃ secret pin n, Loadable (Honest.contents s.store) secret pin n

theorem Readying.perform_readies (start : Readying) (t : SoftToken) :
    Leads (Shelf.Holds C) (start.perform t : OnShelf κ _) (Readied t) := by
  cases start with
  | generate => exact generate_mirrors.mono fun _ _ h => Or.inl h
  | restore =>
    refine restore_yields.mono fun r s ⟨hs, hr⟩ => ?_
    obtain ⟨secret, pin, n, hload, rfl⟩ | ⟨hnone, e, rfl⟩ := hr
    · exact Or.inl ⟨rfl, ⟨secret, rfl, hs.symm ▸ hload⟩, rfl⟩
    · exact Or.inr ⟨⟨e, rfl⟩, hs.symm ▸ hnone⟩

/-- From a store that mirrors a token, another one reloads just what that one has. -/
theorem Mirrors.restores (h : Mirrors C t) (t' : SoftToken) :
    Leads (Shelf.Holds C) (restore t' : OnShelf κ _) fun r s => s.Holds C ∧
      r = (.ok (), { t' with secret := t.secret, pin := t.pin, retries := t.retries }) := by
  obtain ⟨secret, hsecret, hload⟩ := h
  refine restore_yields.mono fun r s ⟨hs, hr⟩ => ⟨hs, ?_⟩
  obtain ⟨secret', pin, n, hload', rfl⟩ | ⟨hnone, -⟩ := hr
  · cases hload.storedSecret.symm.trans hload'.storedSecret
    obtain rfl := Option.some.inj (hload.storedPin.symm.trans hload'.storedPin)
    obtain rfl := Option.some.inj (hload.storedRetries.symm.trans hload'.storedRetries)
    rw [hsecret]
    rfl
  · exact absurd ⟨_, _, _, hload⟩ hnone

/-- A new token on this store is the one in use without its session, and every further call comes to the same. -/
structure Resumes (live : SoftToken) (s : Shelf κ) : Prop where
  dropped : (invalidate live s).1 = { live with verified := false, chain := [] }
  same (entropy : Entropy) : (restore { entropy } s).1 = (.ok (), { (invalidate live s).1 with entropy })
  further (calls : List Call) :
    let new := restore { entropy := live.entropy } s
    let old := invalidate live s
    (makeAll calls new.1.2 new.2).1 = (makeAll calls old.1 old.2).1 ∧
      Honest.contents (makeAll calls new.1.2 new.2).2.store = Honest.contents (makeAll calls old.1 old.2).2.store

theorem Mirrored.resumes {s : Shelf κ} (h : Mirrored t s) : Resumes t s := by
  have hdropped : (invalidate t s).1 = t.dropped := invalidate_fst t s
  have hkept : (invalidate t s).2.Holds (Honest.contents s.store) := (invalidate_leads s rfl).1
  have hrestores (entropy : Entropy) := Mirrors.restores h { entropy } s rfl
  refine ⟨hdropped, fun entropy => ?_, fun calls => ?_⟩
  · rw [(hrestores entropy).2, hdropped]
    rfl
  · obtain ⟨hnew, hr⟩ := hrestores t.entropy
    intro new old
    have hsame : new.1.2 = old.1 := (congrArg Prod.snd hr).trans hdropped.symm
    rw [hsame]
    exact makeAll_agree calls old.1 new.2 old.2 (hnew.trans hkept.symm)

/-- A token that is ready and has been called can be left at any time: a new one resumes where it was. -/
theorem new_token_resumes (start : Readying) (entropy : Entropy) (calls : List Call) (s : Shelf κ)
    (h : (start.perform { entropy } s).1.1 = .ok ()) :
    Resumes (useAfter start entropy calls s).1 (useAfter start entropy calls s).2 := by
  obtain ⟨-, hmirrors, -⟩ | ⟨⟨e, hr⟩, -⟩ := start.perform_readies { entropy } s rfl
  · exact (makeAll_mirrors calls _ hmirrors).resumes
  · cases h.symm.trans (congrArg Prod.fst hr)

def mistakeAndPart : List Call :=
  [.process ⟨0, Card.Ins.verify, 0, 0, [0x30, 0x30], 0⟩,
    .process ⟨Card.chainedClass, Card.Ins.verify, 0, 0, [0x31], 0⟩]

def leftInChain : SoftToken × Shelf MemoryStore := useAfter .generate (.scrambled 7) mistakeAndPart ⟨{}, []⟩

theorem new_token_resumes_in_a_chain :
    (Readying.generate.perform { entropy := .scrambled 7 } (⟨{}, []⟩ : Shelf MemoryStore)).1.1 = .ok () ∧
      leftInChain.1.retries = 2 ∧ leftInChain.1.chain = [0x31] ∧ Resumes leftInChain.1 leftInChain.2 := by
  have hready : (Readying.generate.perform { entropy := .scrambled 7 } (⟨{}, []⟩ : Shelf MemoryStore)).1.1 = .ok () := rfl
  refine ⟨hready, by decide +kernel, by decide +kernel, ?_⟩
  exact new_token_resumes .generate (.scrambled 7) mistakeAndPart (⟨{}, []⟩ : Shelf MemoryStore) hready

end KeyFob.SoftToken
