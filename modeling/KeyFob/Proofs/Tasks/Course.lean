import KeyFob.Proofs.Provisioning.Passage
import KeyFob.Proofs.Tasks.Asking
import KeyFob.Proofs.Tasks.Ending

/-!
The course of the session task. It serves nobody before its boot has told that it is ready, and it asks for a restart
once at most, behind its boot and its session and for the reason that one of them has failed.
-/

namespace KeyFob.Tasks

open Restart (Reason)

variable {ε κ τ : Type} [Surroundings ε] [Storage κ] [Token κ τ]

def finishing (s : Session) : Session.LoopEnd → Run ε κ τ Ending
  | .waiting => return .waiting
  | .halted => do
    Run.add (.note (stopped s))
    return .ended
  | .fatal reason => do
    request reason
    Run.add (.note (stopped s))
    return .ended

section course

variable (settings : Config.Settings) (d : Device ε κ τ)

def booted : (Except ProvisionError Unit × Lifecycle) × Device ε κ τ :=
  Lifecycle.run { reinit := settings.reinitOnRestoreFailure } d

/-- The session that follows a boot if it succeeds. -/
def served : (Session.LoopEnd × Session) × Device ε κ τ := Session.run { settings } (booted settings d).2

/-- What a boot leaves: it asks for nothing and serves nobody, and tells that it is ready if it is. -/
structure BootTrail (t : List Entry) : Prop where
  journal : (booted settings d).2.journal.toList = d.journal.toList ++ t
  signals : (booted settings d).2.signals = replayed d.signals t
  unasked : requests t = []
  unserved : ∀ x ∈ t, x.isService = false
  ready (h : (booted settings d).1.1 = .ok ()) : ∃ stage, .emit (.lifecycle stage .ready) ∈ t

/-- What a session leaves, which asks for nothing either. -/
structure ServiceTrail (t : List Entry) : Prop where
  journal : (served settings d).2.journal.toList = (booted settings d).2.journal.toList ++ t
  signals : (served settings d).2.signals = replayed (booted settings d).2.signals t
  unasked : requests t = []

/-- What a session task leaves, by the end that its boot and its session come to. -/
inductive Course : List Entry → Prop
  | unready {e : ProvisionError} {t u : List Entry} (hboot : (booted settings d).1.1 = .error e)
    (ht : BootTrail settings d t) (hend : (session settings d).1 = .ended)
    (hasks : Asks .provisioningFailed (booted settings d).2.signals u (session settings d).2.signals) : Course (t ++ u)
  | failed {reason : Reason} {t v u : List Entry} (n : Note) (hboot : (booted settings d).1.1 = .ok ())
    (ht : BootTrail settings d t) (hserved : (served settings d).1.1 = .fatal reason) (hv : ServiceTrail settings d v)
    (hend : (session settings d).1 = .ended)
    (hasks : Asks reason (served settings d).2.signals u (session settings d).2.signals) :
    Course (t ++ (v ++ (u ++ [.note n])))
  | halted {t v : List Entry} (n : Note) (hboot : (booted settings d).1.1 = .ok ()) (ht : BootTrail settings d t)
    (hserved : (served settings d).1.1 = .halted) (hv : ServiceTrail settings d v) : Course (t ++ (v ++ [.note n]))
  | waiting {t v : List Entry} (hboot : (booted settings d).1.1 = .ok ()) (ht : BootTrail settings d t)
    (hserved : (served settings d).1.1 = .waiting) (hv : ServiceTrail settings d v) : Course (t ++ (v ++ []))

theorem boot_trail : ∃ t, BootTrail settings d t := by
  obtain ⟨t, hj, hacc, hown⟩ := Lifecycle.run_leaves settings.reinitOnRestoreFailure d
  obtain ⟨hends, -⟩ := Lifecycle.run_ends settings.reinitOnRestoreFailure d.store d.token d ⟨rfl, rfl⟩
  obtain ⟨hunasked, hunserved⟩ := Lifecycle.stepsThrough_bare (booted settings d).1.2.trail
  change own t = Lifecycle.stepsThrough (booted settings d).1.2.trail at hown
  change Provisioning.Ends _ _ _ (booted settings d).1.1 (booted settings d).1.2.trail _ at hends
  rw [← hown] at hunasked hunserved
  have foreign (x : Entry) (hx : x.isOwn = false) : x.isService = false := by
    cases x <;> first | rfl | cases hx
  refine ⟨t, hj, hacc.eq_replayed, (requests_own t).symm.trans hunasked, forall_of_own foreign hunserved, fun hok => ?_⟩
  rw [hok] at hends
  obtain ⟨stage, hstage, htrail⟩ := hends.stages
  refine ⟨stage, (mem_own.1 ?_).1⟩
  rw [hown, htrail]
  rcases hstage with rfl | rfl <;> simp [Lifecycle.stepsThrough]

theorem service_trail : ∃ t, ServiceTrail settings d t := by
  obtain ⟨t, hj, hacc, hlaps⟩ := Session.run_leaves { settings } (booted settings d).2
  exact ⟨t, hj, hacc.eq_replayed, (requests_own t).symm.trans hlaps.unasked⟩

theorem session_of_error {e : ProvisionError} (h : (booted settings d).1.1 = .error e) :
    session settings d = (.ended, (request .provisioningFailed (booted settings d).2).2) := by
  unfold booted at h ⊢
  rw [session, Run.bind_apply]
  generalize Lifecycle.run { reinit := settings.reinitOnRestoreFailure } d = boot at h ⊢
  obtain ⟨⟨r, l⟩, d'⟩ := boot
  obtain rfl : r = _ := h
  rfl

theorem session_of_ok (h : (booted settings d).1.1 = .ok ()) :
    session settings d = finishing (served settings d).1.2 (served settings d).1.1 (served settings d).2 := by
  unfold served
  unfold booted at h ⊢
  rw [session, Run.bind_apply]
  generalize Lifecycle.run { reinit := settings.reinitOnRestoreFailure } d = boot at h ⊢
  obtain ⟨⟨r, l⟩, d'⟩ := boot
  obtain rfl : r = _ := h
  change (Session.run { settings } >>= _) d' = _
  rw [Run.bind_apply]
  rcases Session.run { settings } d' with ⟨⟨e, s⟩, d''⟩
  cases e <;> rfl

theorem session_course : ∃ t, (session settings d).2.journal.toList = d.journal.toList ++ t ∧ Course settings d t := by
  obtain ⟨t, ht⟩ := boot_trail settings d
  cases hboot : (booted settings d).1.1 with
  | error e =>
    have heq := session_of_error settings d hboot
    obtain ⟨u, hj, hasks⟩ := request_asks .provisioningFailed (booted settings d).2
    refine ⟨t ++ u, ?_, .unready hboot ht (by rw [heq]) (by rw [heq]; exact hasks)⟩
    rw [heq, ← List.append_assoc, ← ht.journal]
    exact hj
  | ok _ =>
    obtain ⟨v, hv⟩ := service_trail settings d
    have heq := session_of_ok settings d hboot
    have journal {d' : Device ε κ τ} {w : List Entry}
        (hj : d'.journal.toList = (served settings d).2.journal.toList ++ w) :
        d'.journal.toList = d.journal.toList ++ (t ++ (v ++ w)) := by
      rw [hj, hv.journal, ht.journal, List.append_assoc, List.append_assoc]
    cases hserved : (served settings d).1.1 with
    | waiting =>
      rw [hserved] at heq
      refine ⟨_, journal ?_, .waiting hboot ht hserved hv⟩
      rw [heq, List.append_nil]
      rfl
    | halted =>
      rw [hserved] at heq
      refine ⟨_, journal ?_, .halted (stopped (served settings d).1.2) hboot ht hserved hv⟩
      rw [heq]
      exact Journal.toList_add _ _
    | fatal reason =>
      rw [hserved] at heq
      obtain ⟨u, hj, hasks⟩ := request_asks reason (served settings d).2
      refine ⟨_, journal ?_, .failed (stopped (served settings d).1.2) hboot ht hserved hv (by rw [heq]; rfl)
        (by rw [heq]; exact hasks)⟩
      rw [heq, ← List.append_assoc, ← hj]
      exact Journal.toList_add _ _

variable {settings d} {t : List Entry}

/-- Whoever is served, or forgotten, is so behind a boot that has told that it is ready. -/
theorem Course.ready (h : Course settings d t) {pre post : List Entry} {x : Entry} (ht : t = pre ++ x :: post)
    (hx : x.isService = true) : ∃ stage, .emit (.lifecycle stage .ready) ∈ pre := by
  have behind {u w : List Entry} (hboot : (booted settings d).1.1 = .ok ()) (hu : BootTrail settings d u)
      (hsplit : u ++ w = pre ++ x :: post) : ∃ stage, .emit (.lifecycle stage .ready) ∈ pre := by
    have hnot : x ∉ u := fun hmem => by
      rw [hu.unserved x hmem] at hx
      cases hx
    obtain ⟨pre', rfl, -⟩ := append_split hsplit hnot
    obtain ⟨stage, hstage⟩ := hu.ready hboot
    exact ⟨stage, List.mem_append_left pre' hstage⟩
  cases h with
  | failed n hboot hu => exact behind hboot hu ht
  | halted n hboot hu => exact behind hboot hu ht
  | waiting hboot hu => exact behind hboot hu ht
  | @unready e u w hboot hu hend hasks =>
    have hmem : x ∈ u ++ w := ht ▸ by simp
    rw [List.forall_mem_append.2 ⟨hu.unserved, hasks.unserved⟩ x hmem] at hx
    cases hx

theorem Course.asksOnce (h : Course settings d t) : AsksOnce d.signals t := by
  cases h with
  | unready hboot ht hend hasks => exact hasks.asksOnce.behind ht.unasked ht.signals
  | failed n hboot ht hserved hv hend hasks =>
    have hu := hasks.asksOnce.before (u := [.note n]) rfl
    exact (hu.behind hv.unasked hv.signals).behind ht.unasked ht.signals
  | halted n hboot ht hserved hv =>
    refine .of_unasked _ ?_
    rw [requests_append, requests_append, ht.unasked, hv.unasked]
    rfl
  | waiting hboot ht hserved hv =>
    refine .of_unasked _ ?_
    rw [requests_append, requests_append, ht.unasked, hv.unasked]
    rfl

theorem Course.cause (h : Course settings d t) {r : Reason} (hr : r ∈ requests t) :
    (∃ e, (booted settings d).1.1 = .error e) ∧ r = .provisioningFailed ∨
      (booted settings d).1.1 = .ok () ∧ (served settings d).1.1 = .fatal r := by
  have asked {reason : Reason} {σ σ' : Signals} {u : List Entry} (hasks : Asks reason σ u σ') (hr : r ∈ requests u) :
      r = reason := by
    rcases hasks.requests_eq with h | h
    · rw [h] at hr
      cases hr
    · rw [h] at hr
      exact List.mem_singleton.1 hr
  cases h with
  | @unready e _ u hboot ht hend hasks =>
    rw [requests_append, ht.unasked] at hr
    exact Or.inl ⟨⟨e, hboot⟩, asked hasks hr⟩
  | failed n hboot ht hserved hv hend hasks =>
    rw [requests_append, requests_append, requests_append, ht.unasked, hv.unasked, List.nil_append, List.nil_append,
      List.mem_append] at hr
    rw [asked hasks (hr.resolve_right List.not_mem_nil)]
    exact Or.inr ⟨hboot, hserved⟩
  | halted n hboot ht hserved hv =>
    rw [requests_append, requests_append, ht.unasked, hv.unasked] at hr
    cases hr
  | waiting hboot ht hserved hv =>
    rw [requests_append, requests_append, ht.unasked, hv.unasked] at hr
    cases hr

theorem Course.of_failed_boot (h : Course settings d t) {e : ProvisionError} (he : (booted settings d).1.1 = .error e) :
    (session settings d).1 = .ended ∧ (∀ x ∈ t, x.isService = false) ∧
      ∃ u, t = (booted settings d).2.journal.since d.journal ++ u ∧
        Asks .provisioningFailed (booted settings d).2.signals u (session settings d).2.signals := by
  cases h with
  | @unready _ t u _ ht hend hasks =>
    have hsince : (booted settings d).2.journal.since d.journal = t := Journal.since_eq ht.journal
    rw [hsince]
    exact ⟨hend, List.forall_mem_append.2 ⟨ht.unserved, hasks.unserved⟩, u, rfl, hasks⟩
  | failed _ hboot | halted _ hboot | waiting hboot => cases hboot.symm.trans he

theorem Course.of_failed_session (h : Course settings d t) (hok : (booted settings d).1.1 = .ok ()) {reason : Reason}
    (hfatal : (served settings d).1.1 = .fatal reason) :
    (session settings d).1 = .ended ∧
      ∃ u n, t = (served settings d).2.journal.since d.journal ++ (u ++ [.note n]) ∧
        Asks reason (served settings d).2.signals u (session settings d).2.signals := by
  cases h with
  | unready hboot => cases hboot.symm.trans hok
  | halted _ _ _ hserved | waiting _ _ hserved => cases hserved.symm.trans hfatal
  | @failed r t v u n _ ht hserved hv hend hasks =>
    obtain rfl : r = reason := Session.LoopEnd.fatal.inj (hserved.symm.trans hfatal)
    have hsince : (served settings d).2.journal.since d.journal = t ++ v :=
      Journal.since_eq (by rw [hv.journal, ht.journal, List.append_assoc])
    rw [hsince]
    exact ⟨hend, u, n, (List.append_assoc _ _ _).symm, hasks⟩

end course

/-- Whatever the store, the token, the script and the others do: a session task dials nobody and has the token neither
answer nor forget anything before its boot has told that it is ready. Where the boot fails, the task serves nobody and
calls for a restart because of that; where the session fails, for the reason that the session gives. It asks for a
restart in no other case, and for none from the moment at which one is pending, which it leaves as it is. -/
theorem serves_when_ready_and_asks_once (settings : Config.Settings) (d : Device ε κ τ) :
    let booted := Lifecycle.run { reinit := settings.reinitOnRestoreFailure } d
    let served := Session.run { settings } booted.2
    let ran := session settings d
    let t := ran.2.journal.since d.journal
    (∀ pre x post, t = pre ++ x :: post → x.isService = true → ∃ stage, .emit (.lifecycle stage .ready) ∈ pre) ∧
    (∀ e, booted.1.1 = .error e → ran.1 = .ended ∧ (∀ x ∈ t, x.isService = false) ∧
      ∃ u, t = booted.2.journal.since d.journal ++ u ∧ Asks .provisioningFailed booted.2.signals u ran.2.signals) ∧
    (∀ reason, booted.1.1 = .ok () → served.1.1 = .fatal reason → ran.1 = .ended ∧
      ∃ u n, t = served.2.journal.since d.journal ++ (u ++ [.note n]) ∧
        Asks reason served.2.signals u ran.2.signals) ∧
    (requests t).length ≤ 1 ∧
    (∀ r ∈ requests t, (∃ e, booted.1.1 = .error e) ∧ r = .provisioningFailed ∨
      booted.1.1 = .ok () ∧ served.1.1 = .fatal r) ∧
    (∀ pre post, t = pre ++ post → (replayed d.signals pre).halting = true →
      requests post = [] ∧ ran.2.signals.restart = (replayed d.signals pre).restart) := by
  intro booted served ran t
  obtain ⟨t', hj, hcourse⟩ := session_course settings d
  obtain rfl : t = t' := Journal.since_eq hj
  obtain ⟨t', hj', hacc, -⟩ := session_waits settings d
  obtain rfl : t = t' := Journal.since_eq hj'
  exact ⟨fun pre x post => hcourse.ready, fun e => hcourse.of_failed_boot,
    fun reason hok hfatal => hcourse.of_failed_session hok hfatal, hcourse.asksOnce.once, fun r => hcourse.cause,
    fun pre post => hcourse.asksOnce.pending hacc⟩

end KeyFob.Tasks
