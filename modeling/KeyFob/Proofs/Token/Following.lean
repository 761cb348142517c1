import Mathlib.Data.List.Induction
import KeyFob.Proofs.Journal.Reading
import KeyFob.Proofs.Session.Vault
import KeyFob.Proofs.Token.Reaction

/-!
The software token as the journal shows it. Its calls are all that it takes to follow what becomes of the token, and
every answer in the journal is the one that the token so followed gives. A token that is found verified then stands on
a PIN verification since which nothing has taken that back.
-/

namespace KeyFob

def Entry.concernsToken : Entry → Bool
  | process _ | answered _ | invalidate => true
  | _ => false

theorem Entry.concernsToken_of_not_ofVault {e : Entry} (h : e.ofVault = false) : e.concernsToken = false := by
  cases e <;> first | rfl | cases h

namespace SoftToken

open Card (Command Response)

def step (t : SoftToken) : Entry → SoftToken
  | .process c => (react c t).2
  | .invalidate => { t with verified := false, chain := [] }
  | _ => t

def following (t : SoftToken) (J : List Entry) : SoftToken := J.foldl step t

variable {t : SoftToken}

theorem following_append (t : SoftToken) (J K : List Entry) :
    t.following (J ++ K) = (t.following J).following K :=
  List.foldl_append

theorem following_concat (t : SoftToken) (J : List Entry) (e : Entry) :
    t.following (J ++ [e]) = (t.following J).step e :=
  t.following_append J [e]

theorem step_kept (t : SoftToken) (e : Entry) : (t.step e).secret = t.secret ∧ (t.step e).pin = t.pin := by
  cases e with
  | process c => exact (reacts c t).kept
  | _ => exact ⟨rfl, rfl⟩

theorem following_secret (t : SoftToken) (J : List Entry) : (t.following J).secret = t.secret := by
  induction J generalizing t with
  | nil => rfl
  | cons e J ih => exact (ih (t.step e)).trans (t.step_kept e).1

theorem Sound.step (h : t.Sound) (e : Entry) : (t.step e).Sound := by
  cases e with
  | process c => exact (reacts c t).sound h
  | invalidate => exact fun hv => nomatch hv
  | _ => exact h

theorem Sound.following (h : t.Sound) (J : List Entry) : (t.following J).Sound := by
  induction J generalizing t with
  | nil => exact h
  | cons e J ih => exact ih (h.step e)

/-- A part of a journal that leaves a verified token as verified as it was. -/
def Undisturbed (t : SoftToken) (w : List Entry) : Prop :=
  .invalidate ∉ w ∧ ∀ (x y : List Entry) (m : Command), w = x ++ .process m :: y → ¬ Mistakes (t.following x) m

theorem undisturbed_nil (t : SoftToken) : t.Undisturbed [] := ⟨List.not_mem_nil, by simp⟩

theorem Undisturbed.concat {w : List Entry} {e : Entry} (h : t.Undisturbed w) (hinv : e ≠ .invalidate)
    (hmistakes : ∀ m, e = .process m → ¬ Mistakes (t.following w) m) : t.Undisturbed (w ++ [e]) := by
  refine ⟨?_, ?_⟩
  · rw [List.mem_append, List.mem_singleton]
    rintro (hm | hm)
    · exact h.1 hm
    · exact hinv hm.symm
  · intro x y m hw
    rcases split_cases hw with ⟨b, rfl, -⟩ | ⟨pre, rfl, he⟩
    · exact h.2 x b m rfl
    · cases pre with
      | nil => simpa using hmistakes m (List.cons.inj he).1
      | cons z pre => simp at he

/-- A token that has become verified stands on the last PIN verification that the rest has left undisturbed. -/
theorem verified_since (hv : t.verified = false) (J : List Entry) (hJ : (t.following J).verified = true) :
    ∃ (u w : List Entry) (v : Command), J = u ++ .process v :: w ∧ Verifies (t.following u) v ∧
      (t.following (u ++ [.process v])).Undisturbed w := by
  have ht : t.Sound := fun h => absurd h (by simp [hv])
  induction J using List.reverseRecOn with
  | nil => exact absurd hJ (by simp [following, hv])
  | append_singleton J e ih =>
    rw [following_concat] at hJ
    -- The verification that the token stands on is still the last one if the new entry takes nothing back.
    have extend (hbefore : (t.following J).verified = true) (hinv : e ≠ .invalidate)
        (hm : ∀ m, e = .process m → ¬ Mistakes (t.following J) m) : ∃ (u w : List Entry) (v : Command),
        J ++ [e] = u ++ .process v :: w ∧ Verifies (t.following u) v ∧
          (t.following (u ++ [.process v])).Undisturbed w := by
      obtain ⟨u, w, v, rfl, hverifies, hw⟩ := ih hbefore
      refine ⟨u, w ++ [e], v, by simp, hverifies, hw.concat hinv fun m he => ?_⟩
      rw [← following_append]
      simpa using hm m he
    cases e with
    | process c =>
      rcases (reacts c (t.following J)).verified (ht.following J) hJ with h | ⟨hbefore, hm⟩
      · exact ⟨J, [], c, rfl, h, undisturbed_nil _⟩
      · refine extend hbefore nofun fun m he => ?_
        cases he
        exact hm
    | invalidate => cases hJ
    | _ => exact extend hJ nofun nofun

structure Conversation where
  token : SoftToken
  due : Option Response := none

/-- Reads a journal as a conversation with the token: every answer is the one that is due. -/
def conversation : Reading Conversation where
  next s e := ⟨s.token.step e, match e with
    | .process c => some (react c s.token).1
    | .answered _ => none
    | _ => s.due⟩
  Fits s
    | .answered r => s.due = some r
    | _ => True

theorem conversation_ignores : conversation.Ignores Entry.concernsToken := by
  intro s e he
  cases e <;> first | exact ⟨rfl, trivial⟩ | cases he

theorem after_token (s : Conversation) (J : List Entry) : (conversation.after s J).token = s.token.following J := by
  induction J generalizing s with
  | nil => rfl
  | cons e J ih => exact ih _

/-- The answer to a command is the one that the token gives which the journal has led to. -/
theorem answer_of_conversation {s s' : Conversation} {J rest between : List Entry} {c : Command} {r : Response}
    (h : conversation.Tells s (J ++ .process c :: (between ++ .answered r :: rest)) s')
    (hbetween : ∀ e ∈ between, e.concernsToken = false) : r = (react c (s.token.following J)).1 := by
  obtain ⟨-, h⟩ := h.fits
  obtain ⟨hdue, -⟩ := h.fits
  rw [conversation_ignores.after hbetween] at hdue
  change some (react c (conversation.after s J).token).1 = some r at hdue
  rw [after_token] at hdue
  exact (Option.some.inj hdue).symm

variable {ε κ : Type}

def Converses (x y : Vault κ SoftToken) : Prop :=
  ∃ u, y.trail = x.trail ++ u ∧ conversation.Tells ⟨x.token, none⟩ u ⟨y.token, none⟩

theorem converses_preorder : Vault.IsPreorder (Converses (κ := κ)) where
  refl x := ⟨[], by simp, rfl⟩
  trans := by
    rintro x y z ⟨u, hu, h⟩ ⟨w, hw, h'⟩
    exact ⟨u ++ w, by rw [hw, hu, List.append_assoc], h.append h'⟩

theorem tells_notes (s : Conversation) (ns : List Note) : conversation.Tells s (vaultTrail (ns.map .note)) s := by
  refine conversation_ignores.tells fun e he => ?_
  obtain ⟨n, -, rfl⟩ := List.mem_map.1 (List.mem_filter.1 he).1
  rfl

theorem invalidate_fst (t : SoftToken) (s : Shelf κ) : (invalidate t s).1 = t.step .invalidate := by
  unfold invalidate
  split <;> rfl

variable [Surroundings ε] [Storage κ]

theorem tokenKeeps_converses : Session.TokenKeeps ε (Converses (κ := κ)) where
  toIsPreorder := converses_preorder
  invalidate := Run.invalidate_keeps fun store t trail => by
    intro r
    refine ⟨.invalidate :: vaultTrail (r.2.notes.map .note), rfl, trivial, ?_⟩
    have ht : r.1 = t.step .invalidate := invalidate_fst t _
    rw [ht]
    exact tells_notes _ _
  process c buffer := Run.process_keeps c buffer fun store t trail => by
    intro r
    have hr : (process c t .empty (⟨store, []⟩ : Shelf κ)).1 = react c t := process_fst c t _
    have hresponse : r.1.1.response = (react c t).1 := congrArg Prod.fst hr
    have ht : r.1.2 = (react c t).2 := congrArg Prod.snd hr
    rw [hresponse, ht]
    refine ⟨_, rfl, trivial, (tells_notes _ _).append ⟨rfl, rfl⟩⟩

end SoftToken

end KeyFob
