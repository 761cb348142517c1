import KeyFob.Proofs.Journal.Split
import KeyFob.Proofs.Session.Script
import KeyFob.Proofs.Session.Steps

/-!
How a cycle dials, where the others act only while time passes. Then nothing comes between a look at the signals and
the dial that follows it: a cycle dials while no restart is pending and the link is up on the candidate whose peer it
dials, and goes on dialing that peer until one of the reasons to stop is there.
-/

namespace KeyFob

/-- The others act while time passes and when they are told of an event, and not otherwise. -/
def Still (ε : Type) [Surroundings ε] : Prop := ∀ e : ε, (Surroundings.meanwhile e).1 = []

def Entry.isDial : Entry → Bool
  | dial .. => true
  | _ => false

/-- The number of dials. -/
def dials (t : List Entry) : Nat := t.countP Entry.isDial

theorem dials_append (t u : List Entry) : dials (t ++ u) = dials t + dials u := List.countP_append

theorem dials_own (t : List Entry) : dials (own t) = dials t := by
  rw [dials, List.countP_eq_length_filter, filter_own (fun _ => rfl) (fun _ => rfl), ← List.countP_eq_length_filter, dials]

theorem dials_dial (peer : Config.Endpoint) (r : Except DialError Unit) (t : List Entry) :
    dials (.dial peer r :: t) = dials t + 1 :=
  List.countP_cons_of_pos rfl

theorem not_dialed {t : List Entry} (h : dials t = 0) (peer : Config.Endpoint) (r : Except DialError Unit) :
    .dial peer r ∉ t :=
  fun hm => List.countP_eq_zero.1 h _ hm rfl

theorem ne_of_undialed {t pre post : List Entry} {peer : Config.Endpoint} {r : Except DialError Unit} (h : dials t = 0) :
    t ≠ pre ++ .dial peer r :: post := by
  rintro rfl
  exact not_dialed h peer r (by simp)

namespace Run

variable {ε κ τ α β : Type}

theorem bind_apply (m : Run ε κ τ α) (f : α → Run ε κ τ β) (d : Device ε κ τ) : (m >>= f) d = f (m d).1 (m d).2 := rfl

variable [Surroundings ε]

theorem meanwhile_still (h : Still ε) (d : Device ε κ τ) :
    meanwhile d = ((), { d with outside := (Surroundings.meanwhile d.outside).2 }) := by
  change actAll (Surroundings.meanwhile d.outside).1 { d with outside := (Surroundings.meanwhile d.outside).2 } = _
  rw [h]
  rfl

theorem halting_still (h : Still ε) (d : Device ε κ τ) :
    halting d = (d.signals.halting, { d with outside := (Surroundings.meanwhile d.outside).2 }) := by
  change ((meanwhile d).2.signals.halting, (meanwhile d).2) = _
  rw [meanwhile_still h]

theorem readLink_still (h : Still ε) (d : Device ε κ τ) :
    readLink d = (d.signals.link.current, { d with
      outside := (Surroundings.meanwhile d.outside).2
      journal := d.journal.add (.readLink d.signals.link.current) }) := by
  change ((meanwhile d).2.signals.link.current, { (meanwhile d).2 with
    journal := (meanwhile d).2.journal.add (.readLink (meanwhile d).2.signals.link.current) }) = _
  rw [meanwhile_still h]

end Run

namespace Session

open Config (Endpoint Network Settings)

/-- What a failed dial is followed by, up to the next look at the link. -/
structure BacksOff (settings : Settings) (σ : Signals) (u : List Entry) (σ' : Signals) : Prop where
  accounts : Accounts σ u σ'
  own_eq : own u =
    [.invalidate, .emit (.peerUnreachable settings.connectBackoffMs), .delay settings.connectBackoffMs.toNat]

/-- The dials of one candidate's peer, from the signals and the script that they begin with to those that they leave. -/
inductive Tries (settings : Settings) (index : Nat) (peer : Endpoint) :
    Signals → List Dial → Dialed → List Entry → List Dial → Signals → Prop
  | halted {σ : Signals} (script : List Dial) (h : σ.halting = true) :
    Tries settings index peer σ script (.ended (.done .halted)) [] script σ
  | connected {σ : Signals} (x : Exchange) (rest : List Dial) (h : σ.halting = false) :
    Tries settings index peer σ (.connects x :: rest) (.connected x) [.dial peer (.ok ())] rest σ
  | refused {σ : Signals} {script : List Dial} (n : Note) (h : σ.halting = false)
    (hscript : script = [] ∨ script = .fails .allocate :: script.tail) :
    Tries settings index peer σ script (.ended (.fatal .socketAllocation)) [.dial peer (.error .allocate), .note n]
      script.tail σ
  | linkLost {σ σ' : Signals} {u : List Entry} (rest : List Dial) (h : σ.halting = false)
    (hu : BacksOff settings σ u σ') (hlink : σ'.link.current ≠ some index) :
    Tries settings index peer σ (.fails .connect :: rest) (.ended (.done .linkLost))
      (.dial peer (.error .connect) :: (u ++ [.readLink σ'.link.current])) rest σ'
  | again {σ σ' σ'' : Signals} {u t : List Entry} {r : Dialed} {rest script' : List Dial} (h : σ.halting = false)
    (hu : BacksOff settings σ u σ') (hlink : σ'.link.current = some index)
    (ht : Tries settings index peer σ' rest r t script' σ'') :
    Tries settings index peer σ (.fails .connect :: rest) r
      (.dial peer (.error .connect) :: (u ++ .readLink (some index) :: t)) script' σ''

/-- One cycle, in the same terms. -/
inductive Attends (settings : Settings) : Signals → List Dial → CycleEnd → List Entry → List Dial → Signals → Prop
  | halted {σ : Signals} (script : List Dial) (h : σ.halting = true) :
    Attends settings σ script (.done .halted) [] script σ
  | waiting {σ : Signals} (script : List Dial) (h : σ.halting = false) (hlink : σ.link.current = none) :
    Attends settings σ script .waiting [.readLink none] script σ
  | unknown {σ : Signals} {index : Nat} (script : List Dial) (n : Note) (h : σ.halting = false)
    (hlink : σ.link.current = some index) (hn : settings.networks.toList[index]? = none) :
    Attends settings σ script (.fatal .stationDriver) [.readLink (some index), .note n] script σ
  | ended {σ σ' : Signals} {index : Nat} {network : Network} {e : CycleEnd} {t : List Entry} {script script' : List Dial}
    (h : σ.halting = false) (hlink : σ.link.current = some index)
    (hn : settings.networks.toList[index]? = some network)
    (ht : Tries settings index (network.peerAt settings.peerPort) σ script (.ended e) t script' σ') :
    Attends settings σ script e (.readLink (some index) :: t) script' σ'
  | connected {σ σ₁ σ' : Signals} {index : Nat} {network : Network} {x : Exchange} {r : Outcome} {t u : List Entry}
    {script script' : List Dial} (h : σ.halting = false) (hlink : σ.link.current = some index)
    (hn : settings.networks.toList[index]? = some network)
    (ht : Tries settings index (network.peerAt settings.peerPort) σ script (.connected x) t script' σ₁)
    (hu : Accounts σ₁ u σ') (hdials : dials u = 0) (hr : r ≠ .halted) :
    Attends settings σ script (.done r) (.readLink (some index) :: (t ++ u)) script' σ'

/-- The link is up on one of the candidates. -/
def Up (settings : Settings) (σ : Signals) : Prop :=
  ∃ (i : Nat) (n : Network), σ.link.current = some i ∧ settings.networks.toList[i]? = some n

/-- So many failed dials, each with what follows it up to a look that finds the link unmoved. -/
def retries (settings : Settings) (index : Nat) (peer : Endpoint) (k : Nat) : List Entry :=
  (List.replicate k [.dial peer (.error .connect), .invalidate, .emit (.peerUnreachable settings.connectBackoffMs),
    .delay settings.connectBackoffMs.toNat, .readLink (some index)]).flatten

/-- What a dial of the candidate's peer, made with these signals, is followed by up to the end of the cycle. -/
inductive Onward (settings : Settings) (index : Nat) (peer : Endpoint) (σ : Signals) :
    Except DialError Unit → List Entry → CycleEnd → Prop
  | connected {post : List Entry} (e : CycleEnd) (h : dials post = 0) : Onward settings index peer σ (.ok ()) post e
  | refused {post : List Entry} (h : own post = []) :
    Onward settings index peer σ (.error .allocate) post (.fatal .socketAllocation)
  | linkLost {u : List Entry} {σ' : Signals} (hu : BacksOff settings σ u σ') (hlink : σ'.link.current ≠ some index) :
    Onward settings index peer σ (.error .connect) (u ++ [.readLink σ'.link.current]) (.done .linkLost)
  | halted {u : List Entry} {σ' : Signals} (hu : BacksOff settings σ u σ') (hlink : σ'.link.current = some index)
    (h : σ'.halting = true) :
    Onward settings index peer σ (.error .connect) (u ++ [.readLink (some index)]) (.done .halted)
  | again {u : List Entry} {σ' : Signals} (hu : BacksOff settings σ u σ') (hlink : σ'.link.current = some index)
    (h : σ'.halting = false) (r : Except DialError Unit) (post : List Entry) (e : CycleEnd) :
    Onward settings index peer σ (.error .connect) (u ++ .readLink (some index) :: .dial peer r :: post) e

section tries

variable {settings : Settings} {index : Nat} {peer : Endpoint} {σ σ' : Signals} {script script' : List Dial}
  {r : Dialed} {t u : List Entry}

theorem BacksOff.undialed (h : BacksOff settings σ u σ') : dials u = 0 := by
  rw [← dials_own, h.own_eq]
  rfl

theorem Tries.accounts (h : Tries settings index peer σ script r t script' σ') : Accounts σ t σ' := by
  induction h with
  | linkLost rest h hu => exact ⟨trivial, hu.accounts.append ⟨rfl, rfl⟩⟩
  | again h hu hlink ht ih => exact ⟨trivial, hu.accounts.append ⟨hlink.symm, ih⟩⟩
  | refused => exact ⟨trivial, trivial, rfl⟩
  | connected => exact ⟨trivial, rfl⟩
  | halted => rfl

/-- The first of the dials, or the restart that there is none because of. -/
theorem Tries.first (h : Tries settings index peer σ script r t script' σ') :
    (σ.halting = true ∧ t = [] ∧ r = .ended (.done .halted)) ∨
      (σ.halting = false ∧ ∃ x post, t = .dial peer x :: post) := by
  cases h with
  | halted _ h => exact Or.inl ⟨h, rfl, rfl⟩
  | connected _ _ h => exact Or.inr ⟨h, _, _, rfl⟩
  | refused _ h => exact Or.inr ⟨h, _, _, rfl⟩
  | linkLost _ h => exact Or.inr ⟨h, _, _, rfl⟩
  | again h => exact Or.inr ⟨h, _, _, rfl⟩

/-- Where there is no dial but the first, a split at a dial is at the first. -/
theorem split_at_first {p : Endpoint} {x x' : Except DialError Unit} {pre post : List Entry} (hu : dials u = 0)
    (h : .dial peer x :: u = pre ++ .dial p x' :: post) : pre = [] ∧ peer = p ∧ x = x' ∧ u = post := by
  cases pre with
  | nil =>
    obtain ⟨hx, rfl⟩ := List.cons.inj h
    obtain ⟨rfl, rfl⟩ := Entry.dial.inj hx
    exact ⟨rfl, rfl, rfl, rfl⟩
  | cons y pre =>
    obtain ⟨-, rfl⟩ := List.cons.inj h
    exact absurd (List.mem_append_right pre List.mem_cons_self) (not_dialed hu p x')

/-- From any of the dials on it goes as if that were the first, and in front of it there are only failed ones. -/
theorem Tries.from_dial (h : Tries settings index peer σ script r t script' σ') {pre post : List Entry} {p : Endpoint}
    {x : Except DialError Unit} (ht : t = pre ++ .dial p x :: post) (hlink : σ.link.current = some index) :
    (replayed σ pre).link.current = some index ∧ (∃ k, own pre = retries settings index peer k) ∧
      ∃ rest, Tries settings index peer (replayed σ pre) rest r (.dial p x :: post) script' σ' := by
  induction h generalizing pre with
  | halted => simp at ht
  | connected x rest h =>
    obtain ⟨rfl, rfl, rfl, rfl⟩ := split_at_first rfl ht
    exact ⟨hlink, ⟨0, rfl⟩, _, .connected x rest h⟩
  | refused n h hscript =>
    obtain ⟨rfl, rfl, rfl, rfl⟩ := split_at_first rfl ht
    exact ⟨hlink, ⟨0, rfl⟩, _, .refused n h hscript⟩
  | linkLost rest h hu hlink' =>
    obtain ⟨rfl, rfl, rfl, rfl⟩ := split_at_first (by rw [dials_append, hu.undialed]; rfl) ht
    exact ⟨hlink, ⟨0, rfl⟩, _, .linkLost rest h hu hlink'⟩
  | @again σ σ' _ u t _ _ _ h hu hlink' ht' ih =>
    cases pre with
    | nil =>
      obtain ⟨hx, rfl⟩ := List.cons.inj ht
      obtain ⟨rfl, rfl⟩ := Entry.dial.inj hx
      exact ⟨hlink, ⟨0, rfl⟩, _, .again h hu hlink' ht'⟩
    | cons y pre =>
      obtain ⟨rfl, htail⟩ := List.cons.inj ht
      obtain ⟨pre, rfl, hlook⟩ := append_split htail (not_dialed hu.undialed p x)
      cases pre with
      | nil => cases (List.cons.inj hlook).1
      | cons z pre =>
        obtain ⟨rfl, hrest⟩ := List.cons.inj hlook
        have hreplay : replayed σ (.dial peer (.error .connect) :: (u ++ .readLink (some index) :: pre)) =
            replayed σ' pre := by
          change replayed σ (u ++ .readLink (some index) :: pre) = _
          rw [replayed_append, ← hu.accounts.eq_replayed]
          rfl
        rw [hreplay]
        obtain ⟨hup, ⟨k, hk⟩, hdials⟩ := ih hrest hlink'
        refine ⟨hup, ⟨k + 1, ?_⟩, hdials⟩
        change _ :: own (u ++ .readLink (some index) :: pre) = _
        rw [own_append, hu.own_eq]
        change _ :: (_ ++ _ :: own pre) = _
        rw [hk]
        simp [retries, List.replicate_succ]

/-- What comes behind a dial, with all that the cycle does once it has its connection. -/
theorem Tries.onward {p : Endpoint} {x : Except DialError Unit} {post : List Entry}
    (h : Tries settings index peer σ script r (.dial p x :: post) script' σ') {e : CycleEnd}
    (hr : r = .ended e ∧ u = [] ∨ (∃ x, r = .connected x) ∧ dials u = 0) :
    σ.halting = false ∧ p = peer ∧ Onward settings index peer σ x (post ++ u) e := by
  have ended : ∀ {e'}, r = .ended e' → e' = e ∧ u = [] := by
    rintro e' rfl
    rcases hr with ⟨he, rfl⟩ | ⟨⟨_, he⟩, -⟩
    · exact ⟨Dialed.ended.inj he, rfl⟩
    · cases he
  cases h with
  | connected x _ h =>
    refine ⟨h, rfl, .connected e ?_⟩
    rcases hr with ⟨he, -⟩ | ⟨-, hu⟩
    · cases he
    · exact hu
  | refused n h =>
    obtain ⟨rfl, rfl⟩ := ended rfl
    exact ⟨h, rfl, .refused rfl⟩
  | linkLost _ h hu hlink =>
    obtain ⟨rfl, rfl⟩ := ended rfl
    rw [List.append_nil]
    exact ⟨h, rfl, .linkLost hu hlink⟩
  | again h hu hlink ht =>
    refine ⟨h, rfl, ?_⟩
    rw [List.append_assoc, List.cons_append]
    rcases ht.first with ⟨hhalting, rfl, rfl⟩ | ⟨hhalting, x, post, rfl⟩
    · obtain ⟨rfl, rfl⟩ := ended rfl
      exact .halted hu hlink hhalting
    · exact .again hu hlink hhalting x _ e

/-- Each dial takes one from the script, but for one that is refused because the script is used up. -/
theorem Tries.script_length (h : Tries settings index peer σ script r t script' σ') :
    dials t + script'.length ≤ script.length + 1 ∧
      (r ≠ .ended (.fatal .socketAllocation) → dials t + script'.length = script.length) := by
  have failed : ∀ {σ σ' u} (v : List Entry), BacksOff settings σ u σ' →
      dials (.dial peer (.error .connect) :: (u ++ v)) = dials v + 1 := by
    intro σ σ' u v hu
    rw [dials_dial, dials_append, hu.undialed, Nat.zero_add]
  induction h with
  | halted => simp [dials]
  | connected x rest =>
    rw [dials_dial, List.length_cons]
    simp [dials, Nat.add_comm]
  | refused n =>
    rw [dials_dial, List.length_tail]
    simp [dials, Entry.isDial]
    omega
  | linkLost rest h hu =>
    rw [failed _ hu, List.length_cons]
    simp [dials, Entry.isDial, Nat.add_comm]
  | @again _ _ _ u t _ _ _ h hu hlink ht ih =>
    rw [failed _ hu, List.length_cons]
    change dials t + 1 + _ ≤ _ ∧ (_ → dials t + 1 + _ = _)
    exact ⟨by omega, fun hr => by have := ih.2 hr; omega⟩

/-- Dialing ends without a connection where the link is lost, a restart is pending, or a socket is refused. -/
theorem Tries.halting (h : Tries settings index peer σ script r t script' σ') {e : CycleEnd} (hr : r = .ended e) :
    e = .done .linkLost ∨ (e = .done .halted ∧ σ'.halting = true) ∨
      (e = .fatal .socketAllocation ∧ σ'.halting = false) := by
  induction h with
  | halted _ h => exact Or.inr (Or.inl ⟨(Dialed.ended.inj hr).symm, h⟩)
  | connected => cases hr
  | refused _ h => exact Or.inr (Or.inr ⟨(Dialed.ended.inj hr).symm, h⟩)
  | linkLost => exact Or.inl (Dialed.ended.inj hr).symm
  | again _ _ _ _ ih => exact ih hr

end tries

section attends

variable {settings : Settings} {σ σ' : Signals} {script script' : List Dial} {e : CycleEnd} {t : List Entry}

theorem Attends.accounts (h : Attends settings σ script e t script' σ') : Accounts σ t σ' := by
  cases h with
  | halted => rfl
  | waiting _ h hlink => exact ⟨hlink.symm, rfl⟩
  | unknown _ n h hlink => exact ⟨hlink.symm, trivial, rfl⟩
  | ended h hlink hn ht => exact ⟨hlink.symm, ht.accounts⟩
  | connected h hlink hn ht hu => exact ⟨hlink.symm, ht.accounts.append hu⟩

/-- Where a cycle dials no restart is pending, and the link is up on the candidate that is dialed. -/
theorem Attends.at_dial (h : Attends settings σ script e t script' σ') {pre post : List Entry} {peer : Endpoint}
    {x : Except DialError Unit} (ht : t = pre ++ .dial peer x :: post) :
    (replayed σ pre).halting = false ∧ ∃ (i : Nat) (n : Network), (replayed σ pre).link.current = some i ∧
      settings.networks.toList[i]? = some n ∧ peer = n.peerAt settings.peerPort ∧
      (∃ k, own pre = .readLink (some i) :: retries settings i peer k) ∧
      Onward settings i peer (replayed σ pre) x post e := by
  cases h with
  | halted => exact absurd ht (ne_of_undialed rfl)
  | waiting => exact absurd ht (ne_of_undialed rfl)
  | unknown => exact absurd ht (ne_of_undialed rfl)
  | ended h hlink hn htries =>
    obtain ⟨pre, rfl, htail⟩ := append_split (a := [Entry.readLink _]) ht (by simp)
    obtain ⟨hup, ⟨k, hk⟩, _, hrest⟩ := htries.from_dial htail hlink
    obtain ⟨hhalting, rfl, hon⟩ := hrest.onward (u := []) (Or.inl ⟨rfl, rfl⟩)
    rw [List.append_nil] at hon
    exact ⟨hhalting, _, _, hup, hn, rfl, ⟨k, congrArg (Entry.readLink _ :: ·) hk⟩, hon⟩
  | connected h hlink hn htries hu hdials =>
    obtain ⟨pre, rfl, htail⟩ := append_split (a := [Entry.readLink _]) ht (by simp)
    rcases split_cases htail with ⟨b, hb, rfl⟩ | ⟨pre', rfl, hu'⟩
    · obtain ⟨hup, ⟨k, hk⟩, _, hrest⟩ := htries.from_dial hb hlink
      obtain ⟨hhalting, rfl, hon⟩ := hrest.onward (Or.inr ⟨⟨_, rfl⟩, hdials⟩)
      exact ⟨hhalting, _, _, hup, hn, rfl, ⟨k, congrArg (Entry.readLink _ :: ·) hk⟩, hon⟩
    · exact absurd hu' (ne_of_undialed hdials)

theorem Attends.script_length (h : Attends settings σ script e t script' σ') :
    dials t + script'.length ≤ script.length + 1 ∧
      ∀ r, e = .done r → r ≠ .halted → dials t + script'.length = script.length ∧ 0 < dials t := by
  have look : ∀ link t, dials (.readLink link :: t) = dials t := fun _ _ => rfl
  cases h with
  | halted => simp [dials]
  | waiting => simp [dials, Entry.isDial]
  | unknown => simp [dials, Entry.isDial]
  | ended h hlink hn ht =>
    rw [look]
    refine ⟨ht.script_length.1, ?_⟩
    rintro r rfl hr
    refine ⟨ht.script_length.2 (by simp), ?_⟩
    rcases ht.first with ⟨-, -, he⟩ | ⟨-, x, post, rfl⟩
    · cases he
      exact absurd rfl hr
    · rw [dials_dial]
      exact Nat.succ_pos _
  | connected h hlink hn ht hu hdials =>
    have hlen := ht.script_length.2 (by simp)
    rw [look, dials_append, hdials, Nat.add_zero]
    refine ⟨by omega, fun _ _ _ => ⟨hlen, ?_⟩⟩
    rcases ht.first with ⟨-, -, he⟩ | ⟨-, x, post, rfl⟩
    · cases he
    · rw [dials_dial]
      exact Nat.succ_pos _

/-- A restart is pending at the end of a cycle that halts, and not at the end of one that fails or waits. -/
theorem Attends.pending (h : Attends settings σ script e t script' σ') :
    (e = .done .halted → σ'.halting = true) ∧ ((∀ r, e ≠ .done r) → σ'.halting = false) := by
  cases h with
  | halted _ h => exact ⟨fun _ => h, fun he => absurd rfl (he _)⟩
  | waiting _ h => exact ⟨nofun, fun _ => h⟩
  | unknown _ _ h => exact ⟨nofun, fun _ => h⟩
  | ended h hlink hn ht =>
    rcases ht.halting rfl with rfl | ⟨rfl, hh⟩ | ⟨rfl, hh⟩
    · exact ⟨nofun, fun he => absurd rfl (he _)⟩
    · exact ⟨fun _ => hh, fun he => absurd rfl (he _)⟩
    · exact ⟨nofun, fun _ => hh⟩
  | connected h hlink hn ht hu hdials hr =>
    exact ⟨fun he => absurd (CycleEnd.done.inj he) hr, fun he => absurd rfl (he _)⟩

/-- With the link up on a candidate only a refused socket makes a cycle fail, and it does not wait. -/
theorem Attends.of_up (h : Attends settings σ script e t script' σ') (hup : Up settings σ) :
    (∃ r, e = .done r) ∨ e = .fatal .socketAllocation := by
  obtain ⟨i, n, hi, hn⟩ := hup
  cases h with
  | halted => exact Or.inl ⟨_, rfl⟩
  | waiting _ _ hlink => cases hi.symm.trans hlink
  | unknown _ _ _ hlink hn' =>
    obtain rfl := Option.some.inj (hi.symm.trans hlink)
    cases hn.symm.trans hn'
  | ended h hlink hn ht =>
    rcases ht.halting rfl with rfl | ⟨rfl, -⟩ | ⟨rfl, -⟩
    · exact Or.inl ⟨_, rfl⟩
    · exact Or.inl ⟨_, rfl⟩
    · exact Or.inr rfl
  | connected => exact Or.inl ⟨_, rfl⟩

end attends

section spec

variable {s s' : Session} {o : List Entry} {c : Card.Command}

theorem Dials.settings {index : Nat} {peer : Endpoint} {r : Dialed} (h : Dials index peer s r s' o) :
    s'.settings = s.settings := by
  induction h with
  | again _ ih => exact ih
  | _ => rfl

theorem Answers.settings {r : Card.Response} {locked : Bool} (h : Answers s c r locked s' o) :
    s'.settings = s.settings := by
  cases h with
  | lockedOut => rfl
  | confirmed => unfold processed; split <;> rfl
  | bypassed => unfold processed; split <;> rfl

theorem Serves.settings {r : Outcome} (h : Serves s c r s' o) : s'.settings = s.settings := by
  cases h with
  | writeFailed h => exact h.settings
  | lockedOut h => exact h.settings
  | served h => exact h.settings

theorem Connects.settings {r : Outcome} (h : Connects s r s' o) : s'.settings = s.settings := by
  cases h with
  | readFailed => rfl
  | empty => rfl
  | command raw epoch hc h => exact h.settings

theorem Cycles.settings {e : CycleEnd} (h : Cycles s e s' o) : s'.settings = s.settings := by
  cases h with
  | ended index hn h => exact h.settings
  | connected index hn h h' => exact h'.settings.trans h.settings
  | _ => rfl

theorem Answers.undialed {r : Card.Response} {locked : Bool} (h : Answers s c r locked s' o) : dials o = 0 := by
  obtain ⟨g, l, rfl, hg, hl⟩ := h.replies
  have hg' : dials g = 0 := List.countP_eq_zero.2 fun x hx => by
    have := hg x hx
    cases x <;> first | exact Bool.false_ne_true | cases this
  have hl' : dials l = 0 := by cases hl <;> rfl
  change dials (g ++ l) = 0
  rw [dials_append, hg', hl']

theorem dials_pending (c : Card.Command) : dials (pending c) = 0 := by
  unfold pending
  split <;> rfl

theorem dials_dropped (s : Session) (epoch : UInt32) : dials (s.dropped epoch) = 0 := by
  unfold dropped
  split <;> rfl

theorem Serves.undialed {r : Outcome} (h : Serves s c r s' o) : dials o = 0 ∧ r ≠ .halted := by
  have served : ∀ {r : Card.Response} {locked : Bool} {s₁ : Session} {o rest : List Entry},
      Answers s c r locked s₁ o → dials rest = 0 → dials (pending c ++ o ++ rest) = 0 := by
    intro r locked s₁ o rest h hrest
    rw [dials_append, dials_append, dials_pending, h.undialed, hrest]
  cases h with
  | writeFailed h => exact ⟨served h rfl, nofun⟩
  | lockedOut h => exact ⟨served h rfl, nofun⟩
  | served h => exact ⟨served h rfl, nofun⟩

theorem Connects.undialed {r : Outcome} (h : Connects s r s' o) : dials o = 0 ∧ r ≠ .halted := by
  cases h with
  | readFailed => exact ⟨rfl, nofun⟩
  | empty raw epoch =>
    refine ⟨?_, nofun⟩
    change dials (s.dropped epoch ++ _) = 0
    rw [dials_append, dials_dropped]
    rfl
  | @command raw epoch _ _ o hc h =>
    refine ⟨?_, h.undialed.2⟩
    change dials (s.dropped epoch ++ o) = 0
    rw [dials_append, dials_dropped, h.undialed.1]

end spec

variable {ε κ τ : Type}

theorem refused_tries {index : Nat} {peer : Endpoint} (s : Session) (d : Device ε κ τ) {script : List Dial}
    (h : d.signals.halting = false) (hscript : script = [] ∨ script = .fails .allocate :: script.tail)
    (hd : d.dials = script.tail) :
    ∃ t, (dialFrom.refused peer s d).2.journal.toList = d.journal.toList ++ t ∧
      Tries s.settings index peer d.signals script (dialFrom.refused peer s d).1.1 t
        (dialFrom.refused peer s d).2.dials (dialFrom.refused peer s d).2.signals := by
  refine ⟨[.dial peer (.error .allocate), .note (.log ⟨.error, .session, "SESSION: " ++ DialError.allocate.message⟩)],
    ?_, ?_⟩
  · change ((d.journal.add _).add _).toList = _
    simp
  · change Tries _ _ _ _ _ _ _ d.dials _
    rw [hd]
    exact .refused _ h hscript

variable [Surroundings ε] [Token κ τ]

/-- The steps behind a failed dial. -/
def backOff (s : Session) : Run ε κ τ Unit := do
  Run.invalidate
  Run.emit (.peerUnreachable s.settings.connectBackoffMs)
  Run.delay s.settings.connectBackoffMs.toNat

theorem backOff_backsOff (s : Session) (d : Device ε κ τ) :
    ∃ u, (backOff s d).2.journal.toList = d.journal.toList ++ u ∧
      BacksOff s.settings d.signals u (backOff s d).2.signals ∧ (backOff s d).2.dials = d.dials := by
  have hleaves : Leaves (backOff s : Run ε κ τ Unit) fun _ o =>
      o = [.invalidate, .emit (.peerUnreachable s.settings.connectBackoffMs),
        .delay s.settings.connectBackoffMs.toNat] := by
    unfold backOff
    refine Run.invalidate_leaves.step fun _ => (Run.emit_leaves _).step fun _ => (Run.delay_leaves _).mono fun _ _ h => ?_
    rw [h]
    rfl
  have hundialed : Undialed (backOff s : Run ε κ τ Unit) :=
    Run.invalidate_undialed.bind fun _ => (Run.emit_undialed _).bind fun _ => Run.delay_undialed _
  obtain ⟨u, hj, hacc, ho⟩ := hleaves d
  exact ⟨u, hj, ⟨hacc, ho⟩, hundialed d⟩

theorem dialFrom_of_halting (hstill : Still ε) (index : Nat) (peer : Endpoint) (script : List Dial) (s : Session)
    {d : Device ε κ τ} (h : d.signals.halting = true) :
    dialFrom index peer script s d =
      ((.ended (.done .halted), s), { d with outside := (Surroundings.meanwhile d.outside).2 }) := by
  unfold dialFrom
  rw [Run.bind_apply, Run.halting_still hstill, h]
  rfl

theorem dialFrom_of_failed (hstill : Still ε) (index : Nat) (peer : Endpoint) (rest : List Dial) (s : Session)
    {d : Device ε κ τ} (h : d.signals.halting = false) :
    dialFrom index peer (.fails .connect :: rest) s d = (do
      backOff s.failed
      if (← Run.readLink) ≠ some index then return (Dialed.ended (.done .linkLost), s.failed)
      dialFrom index peer rest s.failed) { d with
        outside := (Surroundings.meanwhile d.outside).2
        dials := rest
        journal := d.journal.add (.dial peer (.error .connect)) } := by
  rw [dialFrom, Run.bind_apply, Run.halting_still hstill, h]
  rfl

theorem dialFrom_tries (hstill : Still ε) (index : Nat) (peer : Endpoint) (script : List Dial) (s : Session)
    (d : Device ε κ τ) (hd : d.dials = script) :
    ∃ t, (dialFrom index peer script s d).2.journal.toList = d.journal.toList ++ t ∧
      Tries s.settings index peer d.signals script (dialFrom index peer script s d).1.1 t
        (dialFrom index peer script s d).2.dials (dialFrom index peer script s d).2.signals := by
  induction script generalizing s d with
  | nil =>
    cases h : d.signals.halting with
    | true =>
      rw [dialFrom_of_halting hstill index peer [] s h]
      exact ⟨[], (List.append_nil _).symm, hd ▸ .halted _ h⟩
    | false =>
      rw [dialFrom, Run.bind_apply, Run.halting_still hstill, h]
      exact refused_tries s { d with outside := _ } h (Or.inl rfl) hd
  | cons dial rest ih =>
    cases h : d.signals.halting with
    | true =>
      rw [dialFrom_of_halting hstill index peer _ s h]
      exact ⟨[], (List.append_nil _).symm, hd ▸ .halted _ h⟩
    | false =>
      rcases dial with ⟨_ | _⟩ | x
      · rw [dialFrom, Run.bind_apply, Run.halting_still hstill, h]
        exact refused_tries s { d with outside := _, dials := rest } h (Or.inr rfl) rfl
      · rw [dialFrom_of_failed hstill index peer rest s h, Run.bind_apply]
        obtain ⟨u, hj, hu, hd₂⟩ := backOff_backsOff s.failed ({ d with
          outside := (Surroundings.meanwhile d.outside).2
          dials := rest
          journal := d.journal.add (.dial peer (.error .connect)) } : Device ε κ τ)
        generalize (backOff s.failed (_ : Device ε κ τ)).2 = d₂ at hj hu hd₂ ⊢
        rw [Run.bind_apply, Run.readLink_still hstill]
        have hj₂ : (d₂.journal.add (.readLink d₂.signals.link.current)).toList =
            d.journal.toList ++ .dial peer (.error .connect) :: (u ++ [.readLink d₂.signals.link.current]) := by
          rw [Journal.toList_add, hj, Journal.toList_add]
          simp
        by_cases hlink : d₂.signals.link.current = some index
        · rw [if_neg (not_not_intro hlink)]
          obtain ⟨t, hj₃, ht⟩ := ih s.failed { d₂ with
            outside := (Surroundings.meanwhile d₂.outside).2
            journal := d₂.journal.add (.readLink d₂.signals.link.current) } hd₂
          refine ⟨.dial peer (.error .connect) :: (u ++ .readLink (some index) :: t), ?_, .again h hu hlink ht⟩
          rw [hj₃, hj₂, hlink]
          simp
        · rw [if_pos hlink]
          exact ⟨_, hj₂, hd₂ ▸ .linkLost _ h hu hlink⟩
      · rw [dialFrom, Run.bind_apply, Run.halting_still hstill, h]
        exact ⟨[.dial peer (.ok ())], Journal.toList_add _ _, .connected x rest h⟩

/-- What is done with a connection, as far as the dials and the signals go. -/
theorem serveConnection_undials (s : Session) (x : Exchange) (d : Device ε κ τ) :
    ∃ u, (serveConnection s x d).2.journal.toList = d.journal.toList ++ u ∧
      Accounts d.signals u (serveConnection s x d).2.signals ∧ dials u = 0 ∧ (serveConnection s x d).1.1 ≠ .halted ∧
      (serveConnection s x d).2.dials = d.dials := by
  obtain ⟨u, hj, hacc, hu⟩ := serveConnection_leaves s x d
  obtain ⟨hdials, hr⟩ := hu.undialed
  exact ⟨u, hj, hacc, by rw [← dials_own, hdials], hr, serveConnection_undialed s x d⟩

/-- A cycle behind its look at the link, up on this candidate. -/
theorem serveLink_of_candidate (hstill : Still ε) {s : Session} {d : Device ε κ τ} {index : Nat} {network : Network}
    (hlink : d.signals.link.current = some index) (hn : s.settings.networks.toList[index]? = some network) :
    serveLink s d = (do
      match ← dialFrom index (network.peerAt s.settings.peerPort) d.dials s with
      | (.ended e, s') => return (e, s')
      | (.connected x, s') =>
        log .debug ("SESSION: connected to " ++ (network.peerAt s.settings.peerPort).text)
        let (outcome, s') ← serveConnection s' x
        return (.done outcome, s')) { d with
          outside := (Surroundings.meanwhile d.outside).2
          journal := d.journal.add (.readLink (some index)) } := by
  rw [serveLink, Run.bind_apply, Run.readLink_still hstill, hlink]
  dsimp only
  rw [hn]
  rfl

theorem serveLink_attends (hstill : Still ε) (s : Session) (d : Device ε κ τ) (h : d.signals.halting = false) :
    ∃ t, (serveLink s d).2.journal.toList = d.journal.toList ++ t ∧
      Attends s.settings d.signals d.dials (serveLink s d).1.1 t (serveLink s d).2.dials (serveLink s d).2.signals := by
  cases hlink : d.signals.link.current with
  | none =>
    rw [serveLink, Run.bind_apply, Run.readLink_still hstill, hlink]
    exact ⟨[.readLink none], Journal.toList_add _ _, .waiting _ h hlink⟩
  | some index =>
    cases hn : s.settings.networks.toList[index]? with
    | none =>
      rw [serveLink, Run.bind_apply, Run.readLink_still hstill, hlink]
      dsimp only
      rw [hn]
      refine ⟨[.readLink (some index),
        .note (.log ⟨.error, .session, s!"SESSION: link up on unknown candidate {index}"⟩)], ?_, .unknown _ _ h hlink hn⟩
      change ((d.journal.add _).add _).toList = _
      simp
    | some network =>
      rw [serveLink_of_candidate hstill hlink hn, Run.bind_apply]
      obtain ⟨t, hj, ht⟩ := dialFrom_tries hstill index (network.peerAt s.settings.peerPort) d.dials s { d with
        outside := (Surroundings.meanwhile d.outside).2
        journal := d.journal.add (.readLink (some index)) } rfl
      generalize dialFrom index (network.peerAt s.settings.peerPort) d.dials s (_ : Device ε κ τ) = p at hj ht ⊢
      obtain ⟨⟨r, s'⟩, d₁⟩ := p
      rw [Journal.toList_add, List.append_assoc] at hj
      cases r with
      | ended e => exact ⟨.readLink (some index) :: t, hj, .ended h hlink hn ht⟩
      | connected x =>
        let line : Note := .log ⟨.debug, .session, "SESSION: connected to " ++ (network.peerAt s.settings.peerPort).text⟩
        obtain ⟨u, hj', hacc, hdials, hr, hscript⟩ :=
          serveConnection_undials s' x { d₁ with journal := d₁.journal.add (.note line) }
        refine ⟨.readLink (some index) :: (t ++ .note line :: u), ?_, ?_⟩
        · refine hj'.trans ?_
          rw [Journal.toList_add, hj]
          simp
        · change Attends _ _ _ (.done (serveConnection s' x _).1.1) _ (serveConnection s' x _).2.dials _
          rw [hscript]
          exact .connected h hlink hn ht ⟨trivial, hacc⟩ hdials hr

/-- Every cycle is of this kind. -/
theorem serveOnce_attends (hstill : Still ε) (s : Session) (d : Device ε κ τ) :
    ∃ t, (serveOnce s d).2.journal.toList = d.journal.toList ++ t ∧
      Attends s.settings d.signals d.dials (serveOnce s d).1.1 t (serveOnce s d).2.dials (serveOnce s d).2.signals := by
  rw [serveOnce, Run.bind_apply, Run.halting_still hstill]
  cases h : d.signals.halting with
  | true => exact ⟨[], (List.append_nil _).symm, .halted _ h⟩
  | false => exact serveLink_attends hstill s { d with outside := (Surroundings.meanwhile d.outside).2 } h

end Session

end KeyFob
