import KeyFob.Bench.Turns
import KeyFob.Proofs.Session.Rounds

/-!
Every sensitive command has its own press of the button. Within a cycle the gate takes the flag down before it waits,
so that a look which finds it up rests on a raise of that cycle. Over a run, the next sensitive call has such a clear
of its own in front of it, which no raise from before survives.
-/

namespace KeyFob

def Entry.called? : Entry → Option Card.Command
  | process c => some c
  | _ => none

def Entry.written? : Entry → Option Bytes
  | write bytes => some bytes
  | _ => none

def calls (t : List Entry) : List Card.Command := t.filterMap Entry.called?

def written (t : List Entry) : List Bytes := t.filterMap Entry.written?

/-- A call of the token rests on a raise if the look that found the flag up between them is the first to take it
down. Both are positions in the journal. -/
def RestsOn (J : List Entry) (call raise : Nat) : Prop :=
  ∃ (x b e rest : List Entry) (c : Card.Command),
    J = x ++ .acted .raise :: (b ++ .takeConfirm true :: (e ++ .process c :: rest)) ∧
    c.requiresConfirmation = true ∧ (∀ y ∈ b ++ e, y.lowers = false) ∧
    raise = x.length ∧ call = x.length + 1 + b.length + 1 + e.length

theorem calls_append (t u : List Entry) : calls (t ++ u) = calls t ++ calls u := List.filterMap_append

theorem written_append (t u : List Entry) : written (t ++ u) = written t ++ written u := List.filterMap_append

theorem mem_calls {t : List Entry} {c : Card.Command} : c ∈ calls t ↔ .process c ∈ t := by
  rw [calls, List.mem_filterMap]
  constructor
  · rintro ⟨x, hx, hc⟩
    cases x with
    | process c' =>
      obtain rfl := Option.some.inj hc
      exact hx
    | _ => cases hc
  · exact fun h => ⟨_, h, rfl⟩

theorem calls_own (t : List Entry) : calls (own t) = calls t := filterMap_own (fun _ => rfl) (fun _ => rfl) t

theorem written_own (t : List Entry) : written (own t) = written t := filterMap_own (fun _ => rfl) (fun _ => rfl) t

namespace Session

open Card (Command)
open Config (ConfirmPolicy)

variable {p : ConfirmPolicy} {c : Command} {out : Gate.Outcome}

theorem Follows.locked {v : List Entry} (h : Follows c .lockedOut v) : calls v = [] ∧ written v = [[0x69, 0x83]] := by
  cases h with
  | lockedOut streak => exact ⟨rfl, rfl⟩

theorem Follows.permitted {v : List Entry} (h : Follows c out v) (hp : out.permits = true) :
    calls v = [c] ∧ ∀ x ∈ v, x.lowers = false := by
  cases h with
  | lockedOut streak => cases hp
  | confirmed waitedMs r => exact ⟨rfl, by simp [processing, Entry.lowers]⟩
  | bypassed r => exact ⟨rfl, by simp [processing, Entry.lowers]⟩

theorem Follows.unjudged {v : List Entry} (h : Follows c out v) (out' : Gate.Outcome) : .judged out' ∉ v := by
  cases h <;> simp [processing]

theorem silent {o : List Entry} (h : ∀ x ∈ o, x.called? = none ∧ x.written? = none) : calls o = [] ∧ written o = [] :=
  ⟨List.filterMap_eq_nil_iff.2 fun x hx => (h x hx).1, List.filterMap_eq_nil_iff.2 fun x hx => (h x hx).2⟩

theorem silent_of_quiet {o : List Entry} (h : ∀ x ∈ o, x.isQuiet = true) : calls o = [] ∧ written o = [] := by
  refine silent fun x hx => ?_
  have := h x hx
  cases x <;> first | exact ⟨rfl, rfl⟩ | cases this

theorem silent_of_waits {g : List Entry} (h : ∀ x ∈ g, Gate.isWait x = true) : calls g = [] ∧ written g = [] := by
  refine silent fun x hx => ?_
  have := h x hx
  cases x <;> first | exact ⟨rfl, rfl⟩ | cases this

/-- What the verdict of the gate means for the token and for the peer. -/
theorem Judged.verdict {j : List Entry} (h : Judged p c j) (hm : .judged out ∈ j) :
    (out = .lockedOut → calls j = [] ∧ written j = [[0x69, 0x83]]) ∧ (out.permits = true → calls j = [c]) := by
  obtain @⟨g, v, rest, out', hg, hv, hrest⟩ := h
  obtain rfl : out = out' := by
    simp only [List.mem_cons, List.mem_append, reduceCtorEq, false_or, Entry.judged.injEq] at hm
    rcases hm with hm | hm | hm | hm
    · cases hg.waits _ hm
    · exact hm
    · exact absurd hm (hv.unjudged out)
    · cases hrest _ hm
  obtain ⟨hg₁, hg₂⟩ := silent_of_waits hg.waits
  obtain ⟨hrest₁, hrest₂⟩ := silent_of_quiet hrest.plain.quiet
  have hcalls : calls (.judge c :: (g ++ .judged out :: (v ++ rest))) = calls v := calc
    _ = calls g ++ calls (v ++ rest) := calls_append g (.judged out :: (v ++ rest))
    _ = calls v := by rw [hg₁, calls_append, hrest₁, List.append_nil, List.nil_append]
  have hwritten : written (.judge c :: (g ++ .judged out :: (v ++ rest))) = written v := calc
    _ = written g ++ written (v ++ rest) := written_append g (.judged out :: (v ++ rest))
    _ = written v := by rw [hg₂, written_append, hrest₂, List.append_nil, List.nil_append]
  rw [hcalls, hwritten]
  constructor
  · rintro rfl
    exact hv.locked
  · exact fun hp => (hv.permitted hp).1

/-- Where the token is called once, a split at a call is at that call. -/
theorem split_of_one_call {pre post : List Entry} {c' : Command} (h : calls (pre ++ .process c' :: post) = [c]) :
    calls pre = [] ∧ c' = c ∧ calls post = [] := by
  rw [calls_append] at h
  change calls pre ++ c' :: calls post = [c] at h
  cases hpre : calls pre with
  | nil =>
    rw [hpre] at h
    obtain ⟨rfl, hpost⟩ := List.cons.inj h
    exact ⟨rfl, rfl, hpost⟩
  | cons x l =>
    rw [hpre] at h
    simp at h

theorem not_called {u v : List Entry} (h : calls (u ++ .process c :: v) = []) : False :=
  absurd (mem_calls.2 (List.mem_append_right _ List.mem_cons_self)) (h ▸ List.not_mem_nil)

theorem same_call {pre post pre' post' : List Entry} (hpre : calls pre = []) (hpost : calls post = [])
    (h : pre ++ .process c :: post = pre' ++ .process c :: post') : pre = pre' ∧ post = post' := by
  rcases append_cons_cases h with ⟨rfl, -, rfl⟩ | ⟨m, -, rfl⟩ | ⟨m, rfl, -⟩
  · exact ⟨rfl, rfl⟩
  · exact (not_called hpost).elim
  · exact (not_called hpre).elim

/-- In front of a call of the token stands the gate's permission, and nothing behind that touches the flag. -/
theorem Judged.called {j pre post : List Entry} {c' : Command} (h : Judged p c j)
    (hj : j = pre ++ .process c' :: post) :
    c' = c ∧ calls pre = [] ∧ ∃ (g v : List Entry) (out : Gate.Outcome), pre = .judge c :: (g ++ .judged out :: v) ∧
      Gate.Judges p c out g ∧ out.permits = true ∧ ∀ x ∈ v ++ post, x.lowers = false := by
  cases h with
  | @mk g v rest out hg hv hrest =>
    have hm : .judged out ∈ .judge c :: (g ++ .judged out :: (v ++ rest)) := by simp
    obtain ⟨hlocked, hpermits⟩ := (Judged.mk hg hv hrest).verdict hm
    have hp : out.permits = true := by
      cases out with
      | lockedOut =>
        have hnone := (hlocked rfl).1
        rw [hj] at hnone
        exact (not_called hnone).elim
      | _ => rfl
    obtain ⟨hpre, rfl, hpost⟩ := split_of_one_call (hj ▸ hpermits hp)
    obtain ⟨hv₁, hlowers⟩ := hv.permitted hp
    obtain ⟨v₁, v₂, rfl⟩ := List.append_of_mem (mem_calls.1 (hv₁ ▸ List.mem_singleton_self c'))
    have hsplit : pre ++ .process c' :: post =
        .judge c' :: (g ++ .judged out :: v₁) ++ .process c' :: (v₂ ++ rest) := by
      rw [← hj]
      simp
    obtain ⟨rfl, rfl⟩ := same_call hpre hpost hsplit
    refine ⟨rfl, hpre, g, v₁, out, rfl, hg, hp, fun x hx => ?_⟩
    simp only [List.mem_append] at hx
    rcases hx with hx | hx | hx
    · exact hlowers x (by simp [hx])
    · exact hlowers x (by simp [hx])
    · exact hrest.plain.lowers x hx

/-- A sensitive call has behind the clear of its gate a look that found the flag up, and no other behind that. -/
theorem Shape.sensitive_call {s s' : Session} {o pre post : List Entry} {c : Command} (h : Shape s s' o)
    (ho : o = pre ++ .process c :: post) (hc : c.requiresConfirmation = true) :
    calls pre = [] ∧ ∃ a b e : List Entry, pre = a ++ .clearConfirm :: (b ++ .takeConfirm true :: e) ∧ .judge c ∈ a ∧
      ∀ x ∈ e ++ post, x.lowers = false := by
  rcases h.quiet_or_judged with hq | ⟨a, j, c', rfl, ha, hj⟩
  · cases hq _ (ho ▸ List.mem_append_right _ List.mem_cons_self)
  obtain ⟨pre, rfl, hj'⟩ := append_split ho fun hm => by cases ha _ hm
  obtain ⟨rfl, hcalls, g, v, out, rfl, hg, hp, hlow⟩ := hj.called hj'
  refine ⟨by rw [calls_append, (silent_of_quiet ha).1, hcalls, List.append_nil], ?_⟩
  cases hg with
  | bypassed h => cases hc.symm.trans h
  | lockedOut => cases hp
  | confirmed _ k waitedMs =>
    refine ⟨a ++ [.judge c], Gate.prompts s.settings.confirm.halfPeriodMs.toNat k,
      .led .link true :: .judged (.confirmed waitedMs) :: v, by simp, by simp, ?_⟩
    rintro x (_ | ⟨_, _ | ⟨_, hx⟩⟩)
    · rfl
    · rfl
    · exact hlow x hx

/-- So the flag was raised between the two. -/
theorem raise_of_sensitive_call {s s' : Session} {σ σ' : Signals} {e : CycleEnd} {t pre post : List Entry} {c : Command}
    (hacc : Accounts σ t σ') (h : Cycles s e s' (own t)) (ht : t = pre ++ .process c :: post)
    (hc : c.requiresConfirmation = true) :
    calls pre = [] ∧ ∃ a b₁ b₂ f : List Entry,
      pre = a ++ .clearConfirm :: (b₁ ++ .acted .raise :: (b₂ ++ .takeConfirm true :: f)) ∧ .judge c ∈ a ∧
        (∀ x ∈ b₂ ++ f, x.lowers = false) ∧ ∀ x ∈ post, x.lowers = false := by
  subst ht
  have ho : own (pre ++ .process c :: post) = own pre ++ .process c :: own post := own_append pre _
  obtain ⟨hcalls, oa, ob, oe, hpre, hjudge, hlow⟩ := h.shape.sensitive_call ho hc
  obtain ⟨a, v, rfl, rfl, hv⟩ := own_split hpre
  obtain ⟨b, f, rfl, rfl, rfl⟩ := own_split hv
  rw [← own_append] at hlow
  have hlow' := forall_of_own (fun _ => Entry.not_lowers) hlow
  refine ⟨by rw [← calls_own, hcalls], ?_⟩
  have hacc' : Accounts σ (a ++ .clearConfirm :: (b ++ .takeConfirm true :: (f ++ .process c :: post))) σ' := by
    simpa using hacc
  obtain ⟨m, -, -, hm⟩ := hacc'.agrees
  obtain ⟨m', hb, hup, -⟩ := hm.agrees
  -- The flag is down behind the clear, so the look that finds it up has a raise in front of it.
  rcases hb.raised hup.symm with ⟨hdown, -⟩ | ⟨b₁, b₂, rfl, hb₂⟩
  · cases hdown
  refine ⟨a, b₁, b₂, f, by simp, (mem_own.1 hjudge).1, ?_, fun x hx => hlow' x (List.mem_append_right _ hx)⟩
  exact List.forall_mem_append.2 ⟨hb₂, fun x hx => hlow' x (List.mem_append_left _ hx)⟩

/-- The verdict that a cycle's gate has come to decides on its call of the token. -/
theorem verdict_of_cycle {s s' : Session} {e : CycleEnd} {t : List Entry} (h : Cycles s e s' (own t))
    (hm : .judged out ∈ t) :
    (out = .lockedOut → calls t = [] ∧ written t = [[0x69, 0x83]]) ∧
      (out.permits = true → ∃ c, .judge c ∈ t ∧ calls t = [c]) := by
  have hm' : .judged out ∈ own t := mem_own.2 ⟨hm, rfl⟩
  rcases h.shape.quiet_or_judged with hq | ⟨a, j, c, ho, ha, hj⟩
  · cases hq _ hm'
  rw [ho] at hm'
  have hmj := (List.mem_append.1 hm').resolve_left fun hma => by cases ha _ hma
  obtain ⟨ha₁, ha₂⟩ := silent_of_quiet ha
  have hcalls : calls t = calls j := by rw [← calls_own, ho, calls_append, ha₁, List.nil_append]
  have hwritten : written t = written j := by rw [← written_own, ho, written_append, ha₂, List.nil_append]
  have hjudge : .judge c ∈ own t := by
    cases hj
    simp [ho]
  obtain ⟨hlocked, hpermits⟩ := hj.verdict hmj
  rw [hcalls, hwritten]
  exact ⟨hlocked, fun hp => ⟨c, (mem_own.1 hjudge).1, hpermits hp⟩⟩

/-- Behind any call, the flag is taken down before the next sensitive one. -/
theorem Consecutive.lowered {s : Session} {σ : Signals} {ts : List (List Entry)} (h : Consecutive s σ ts)
    {u v w : List Entry} {c c' : Command} (hJ : ts.flatten = u ++ .process c :: (v ++ .process c' :: w))
    (hc : c'.requiresConfirmation = true) : ∃ x ∈ v, x.lowers = true := by
  rw [← List.cons_append, ← List.append_assoc] at hJ
  obtain ⟨before, t, after, pre, post, rfl, ht, hpre, -⟩ := flatten_split hJ
  obtain ⟨s₁, s₂, e, σ₁, σ₂, hacc, hcyc⟩ := h.cycle (List.mem_append_right _ List.mem_cons_self)
  obtain ⟨hcalls, a, b₁, b₂, f, rfl, -⟩ := raise_of_sensitive_call hacc hcyc ht hc
  rw [← List.append_assoc] at hpre
  rcases append_cons_cases hpre with ⟨-, h, -⟩ | ⟨m, -, rfl⟩ | ⟨m, -, hm⟩
  · cases h
  · exact ⟨.clearConfirm, by simp, rfl⟩
  · -- The first call stands behind the clear, and thus in the cycle of the second.
    rw [hm] at hcalls
    have : c ∈ calls (a ++ .clearConfirm :: (m ++ .process c :: v)) := mem_calls.2 (by simp)
    rw [hcalls] at this
    cases this

/-- A raise that one call rests on is taken before the gate of any other waits. -/
theorem Consecutive.call_unique {s : Session} {σ : Signals} {ts : List (List Entry)} (h : Consecutive s σ ts)
    {call call' raise : Nat} (hc : RestsOn ts.flatten call raise) (hc' : RestsOn ts.flatten call' raise) :
    call = call' := by
  obtain ⟨x, b, e, rest, c, hJ, hsens, hlow, rfl, rfl⟩ := hc
  obtain ⟨x', b', e', rest', c', hJ', hsens', hlow', hraise, rfl⟩ := hc'
  obtain ⟨rfl, hrest⟩ := List.append_inj (hJ.symm.trans hJ') hraise
  have untaken : ∀ {l l' m : List Entry}, (∀ y ∈ l ++ .takeConfirm true :: m ++ l', y.lowers = false) → False :=
    fun h => by cases h (.takeConfirm true) (by simp)
  have uncalled : ∀ {b f₁ f₂ w : List Entry} {c c' : Command},
      ts.flatten = x ++ .acted .raise :: (b ++ .takeConfirm true :: (f₁ ++ .process c :: f₂ ++ .process c' :: w)) →
        c'.requiresConfirmation = true → (∀ y ∈ b ++ (f₁ ++ .process c :: f₂), y.lowers = false) → False := by
    intro b f₁ f₂ w c c' hJ hc hf
    obtain ⟨y, hy, hl⟩ := h.lowered (u := x ++ .acted .raise :: (b ++ .takeConfirm true :: f₁)) (v := f₂)
      (by simpa using hJ) hc
    cases hl.symm.trans (hf y (by simp [hy]))
  rcases append_cons_cases (List.cons.inj hrest).2 with ⟨rfl, -, hee⟩ | ⟨m, rfl, -⟩ | ⟨m, rfl, -⟩
  · rcases append_cons_cases hee with ⟨rfl, -, -⟩ | ⟨m, rfl, -⟩ | ⟨m, rfl, -⟩
    · rfl
    · exact (uncalled hJ' hsens' hlow').elim
    · exact (uncalled hJ hsens hlow).elim
  · exact (untaken hlow').elim
  · exact (untaken hlow).elim

variable {ε κ τ : Type} [Surroundings ε] [Token κ τ]

/-- Over any number of rounds: a sensitive command reaches the token only behind a raise that the gate of that cycle has
waited for, with its last look, and no two of them behind the same raise. A lockout reaches the peer as its status word
and the token not at all, and a permitted command reaches the token once. -/
theorem every_sensitive_call_has_its_own_raise (s : Session) (d : Device ε κ τ) (rounds : List Round) :
    (∀ (before after : List (List Entry)) (t pre post : List Entry) (c : Command),
      trails s d rounds = before ++ t :: after → t = pre ++ .process c :: post → c.requiresConfirmation = true →
      ∃ (a b f : List Entry) (raise : Nat),
        pre = a ++ .clearConfirm :: (b ++ .takeConfirm true :: f) ∧ .judge c ∈ a ∧
        (∀ x ∈ f ++ post, x.lowers = false) ∧ a.length < raise ∧ raise < (a ++ .clearConfirm :: b).length ∧
        RestsOn (trails s d rounds).flatten (before.flatten.length + pre.length) (before.flatten.length + raise)) ∧
    (∀ call call' raise, RestsOn (trails s d rounds).flatten call raise →
      RestsOn (trails s d rounds).flatten call' raise → call = call') ∧
    ∀ t ∈ trails s d rounds, ∀ out, .judged out ∈ t →
      (out = .lockedOut → calls t = [] ∧ written t = [[0x69, 0x83]]) ∧
      (out.permits = true → ∃ c, .judge c ∈ t ∧ calls t = [c]) := by
  have h := consecutive_trails s d rounds
  refine ⟨?_, fun _ _ _ => h.call_unique, ?_⟩
  · intro before after t pre post c hts ht hc
    obtain ⟨s₁, s₂, e, σ₁, σ₂, hacc, hcyc⟩ := h.cycle (hts ▸ List.mem_append_right _ List.mem_cons_self)
    obtain ⟨-, a, b₁, b₂, f, rfl, hjudge, hlow, hpost⟩ := raise_of_sensitive_call hacc hcyc ht hc
    refine ⟨a, b₁ ++ .acted .raise :: b₂, f, a.length + 1 + b₁.length, by simp, hjudge, ?_, by omega, ?_, ?_⟩
    · rw [List.forall_mem_append] at hlow ⊢
      exact ⟨hlow.2, hpost⟩
    · simp
      omega
    · refine ⟨before.flatten ++ a ++ .clearConfirm :: b₁, b₂, f, post ++ after.flatten, c, ?_, hc, hlow, ?_, ?_⟩
      · simp [hts, ht]
      · simp
        omega
      · simp
        omega
  · intro t ht out hm
    obtain ⟨s₁, s₂, e, σ₁, σ₂, -, hcyc⟩ := h.cycle ht
    exact verdict_of_cycle hcyc hm

/-- Somebody presses the button while the gate waits, and the call behind that rests on the press. -/
theorem sensitive_call_has_the_raise_of_a_press :
    let d := Bench.Turns.device [[.bump, .linkUp 0], [], [], [], [], [], [], [.raise]] [[0x00, 0x88, 0x00, 0x00]]
    let ts := trails { settings := .default } d [.cycle]
    ∃ (before after : List (List Entry)) (pre post : List Entry) (c : Command) (raise : Nat),
      ts = before ++ (pre ++ .process c :: post) :: after ∧ c.requiresConfirmation = true ∧
        RestsOn ts.flatten (before.flatten.length + pre.length) (before.flatten.length + raise) := by
  intro d ts
  have hcall : ts.any (fun t => (calls t).any Command.requiresConfirmation) = true := by decide +kernel
  obtain ⟨t, ht, hc⟩ := List.any_eq_true.1 hcall
  obtain ⟨c, hc, hsens⟩ := List.any_eq_true.1 hc
  obtain ⟨before, after, hts⟩ := List.append_of_mem ht
  obtain ⟨pre, post, rfl⟩ := List.append_of_mem (mem_calls.1 hc)
  obtain ⟨_, _, _, raise, -, -, -, -, -, hrests⟩ :=
    (every_sensitive_call_has_its_own_raise { settings := .default } d [.cycle]).1 _ _ _ _ _ _ hts rfl hsens
  exact ⟨before, after, pre, post, c, raise, hts, hsens, hrests⟩

end Session

end KeyFob
