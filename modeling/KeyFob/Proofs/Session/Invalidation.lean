import KeyFob.Bench.Turns
import KeyFob.Proofs.Connectivity.Rotation
import KeyFob.Proofs.Session.Rounds

/-!
What a session owes the link. A cycle looks at the epoch once, after it has read a command, and has the token forget if
the epoch moved since the last look. So by the time a command is judged the token has forgotten since every bump in
front of that look, unless the epoch went all the way round between two looks.
-/

namespace KeyFob

/-- Every bump of the first part is followed by an invalidation. -/
def Forgotten (past rest : List Entry) : Prop :=
  ∀ u v : List Entry, past = u ++ .acted .bump :: v → .invalidate ∈ v ++ rest

/-- Between two looks at the epoch it does not go all the way round. The start counts as a look. -/
def FewBumps (J : List Entry) : Prop :=
  ∀ (x y z : List Entry) (e : UInt32), J = x ++ (y ++ .readEpoch e :: z) → (∀ w ∈ y, w.looksAtEpoch = false) →
    bumps y < UInt32.size

theorem fewBumps_of_lt {J : List Entry} (h : bumps J < UInt32.size) : FewBumps J := by
  rintro x y z e rfl -
  rw [bumps_append, bumps_append] at h
  omega

theorem Forgotten.append {past past' rest : List Entry} (h : Forgotten past (past' ++ rest))
    (h' : Forgotten past' rest) : Forgotten (past ++ past') rest := by
  intro u v huv
  rcases split_cases huv with ⟨b, rfl, rfl⟩ | ⟨u', rfl, hu⟩
  · simpa using h u b rfl
  · exact h' u' v hu

theorem Forgotten.mono {past rest rest' : List Entry} (h : Forgotten past rest) (hsub : ∀ x ∈ rest, x ∈ rest') :
    Forgotten past rest' := by
  intro u v huv
  rcases List.mem_append.1 (h u v huv) with hm | hm
  · exact List.mem_append_left _ hm
  · exact List.mem_append_right _ (hsub _ hm)

/-- An invalidation behind it settles the past. -/
theorem forgotten_of_mem {past rest : List Entry} (h : .invalidate ∈ rest) : Forgotten past rest :=
  fun _ _ _ => List.mem_append_right _ h

theorem forgotten_of_unmoved {past rest : List Entry} (h : bumps past = 0) : Forgotten past rest :=
  fun _ _ huv => absurd (huv ▸ List.mem_append_right _ List.mem_cons_self) (bumps_eq_zero h)

def Entry.isJudge : Entry → Bool
  | judge _ => true
  | _ => false

namespace Session

/-- A session keeps up with the link if the token has forgotten since every bump in front of the session's last look,
and that look left the cursor at the epoch. The journal's part behind that look accounts for the signals. -/
def KeepsUp (s : Session) (σ : Signals) (past : List Entry) : Prop :=
  ∃ (seen since : List Entry) (m : Signals), past = seen ++ since ∧ Forgotten seen since ∧
    m.epoch = s.cursor.seen ∧ Accounts m since σ ∧ ∀ x ∈ since, x.looksAtEpoch = false

variable {s s' : Session} {σ σ' : Signals} {past t : List Entry} {e : CycleEnd}

/-- The next look settles everything in front of it, provided the token forgets behind it if the epoch moved. -/
theorem KeepsUp.look {a rest z : List Entry} {epoch : UInt32} {m : Signals} (h : KeepsUp s σ past) (ha : Accounts σ a m)
    (hlook : ∀ x ∈ a, x.looksAtEpoch = false) (hepoch : epoch = m.epoch)
    (hfew : FewBumps (past ++ (a ++ .readEpoch epoch :: z))) (hrest : ∀ x ∈ s.dropped epoch, x ∈ rest) :
    Forgotten (past ++ a) rest := by
  obtain ⟨seen, since, m₀, rfl, hseen, hcursor, hacc, hsince⟩ := h
  by_cases he : epoch = s.cursor.seen
  · have hlt : bumps (since ++ a) < UInt32.size :=
      hfew seen (since ++ a) z epoch (by simp) (List.forall_mem_append.2 ⟨hsince, hlook⟩)
    have hnone : bumps (since ++ a) = 0 :=
      (hacc.append ha).bumps_eq_zero_of_epoch hlt (by rw [← hepoch, he, hcursor])
    rw [List.append_assoc]
    refine Forgotten.append (hseen.mono fun x hx => ?_) (forgotten_of_unmoved hnone)
    simp [hx]
  · exact forgotten_of_mem (hrest _ (by simp [dropped, he]))

/-- A cycle leaves the session keeping up, however it ends. -/
theorem KeepsUp.step {z : List Entry} (h : KeepsUp s σ past) (hacc : Accounts σ t σ') (hcyc : Cycles s e s' (own t))
    (hfew : FewBumps (past ++ (t ++ z))) : KeepsUp s' σ' (past ++ t) := by
  rcases hcyc.shape.follows with ⟨hcursor, hlook⟩ | ⟨a, b, epoch, ho, hcursor, ha, hb⟩
  · obtain ⟨seen, since, m₀, rfl, hseen, hseen', hacc₀, hsince⟩ := h
    refine ⟨seen, since ++ t, m₀, by simp, hseen.mono fun x hx => ?_, by rw [hseen', hcursor], hacc₀.append hacc, ?_⟩
    · exact List.mem_append_left _ hx
    · exact List.forall_mem_append.2 ⟨hsince, forall_of_own (fun _ => Entry.not_looksAtEpoch) hlook⟩
  · obtain ⟨u, v, rfl, rfl, hv⟩ := own_split ho
    obtain ⟨m, hu, hepoch, hacc'⟩ := hacc.agrees
    have hdropped : ∀ x ∈ s.dropped epoch, x ∈ v := fun x hx =>
      (mem_own.1 (hv ▸ List.mem_append_left b hx)).1
    have hu' := forall_of_own (fun _ => Entry.not_looksAtEpoch) ha
    have hpast := h.look hu hu' hepoch (z := v ++ z) (by simpa using hfew) hdropped
    refine ⟨past ++ u ++ [.readEpoch epoch], v, m, by simp, ?_, by rw [hcursor]; exact hepoch.symm, hacc', ?_⟩
    · exact Forgotten.append (hpast.mono fun x hx => by simp [hx]) (forgotten_of_unmoved rfl)
    · exact forall_of_own (fun _ => Entry.not_looksAtEpoch) (hv ▸ hb)

/-- Every cycle of a run finds its session keeping up. -/
theorem Consecutive.keepsUp {ts before after : List (List Entry)} (hts : Consecutive s σ ts) (h : KeepsUp s σ past)
    (hfew : FewBumps (past ++ ts.flatten)) (heq : ts = before ++ t :: after) :
    ∃ s₁ s₂ e σ₁ σ₂, KeepsUp s₁ σ₁ (past ++ before.flatten) ∧ Accounts σ₁ t σ₂ ∧ Cycles s₁ e s₂ (own t) := by
  induction before generalizing s σ ts past with
  | nil =>
    subst heq
    cases hts with
    | cons hacc hcyc _ => exact ⟨_, _, _, _, _, by simpa using h, hacc, hcyc⟩
  | cons t' before ih =>
    subst heq
    cases hts with
    | cons hacc hcyc hts =>
      have h' := h.step hacc hcyc (by simpa using hfew)
      obtain ⟨s₁, s₂, e, σ₁, σ₂, hkeep, hacc', hcyc'⟩ := ih hts h' (by simpa using hfew) rfl
      exact ⟨s₁, s₂, e, σ₁, σ₂, by simpa using hkeep, hacc', hcyc'⟩

/-- What a cycle has forgotten when it judges its command, and still has when it answers it. -/
theorem KeepsUp.forgotten {pre post z : List Entry} {y : Entry} (h : KeepsUp s σ past) (hacc : Accounts σ t σ')
    (hcyc : Cycles s e s' (own t)) (hfew : FewBumps (past ++ (t ++ z))) (ht : t = pre ++ y :: post)
    (hy : y.isQuiet = false) (hown : y.isOwn = true) :
    ∃ (a b : List Entry) (epoch : UInt32) (index : Nat), pre = a ++ .readEpoch epoch :: b ∧ .readLink (some index) ∈ a ∧
      (∀ x ∈ a, x.looksAtEpoch = false) ∧ Unlooked b ∧ Forgotten (past ++ a) b := by
  subst ht
  have ho : own (pre ++ y :: post) = own pre ++ y :: own post := by
    rw [own_append]
    congr
    exact List.filter_cons_of_pos hown
  obtain ⟨oa, ob, epoch, index, hpre, hlink, hla, hlb⟩ := hcyc.shape.looked ho hy
  obtain ⟨a, b, rfl, rfl, hb⟩ := own_split hpre
  have hb' : ∀ x ∈ s.dropped epoch, x ∈ b := fun x hx => (mem_own.1 (hb ▸ List.mem_append_left ob hx)).1
  have hacc' : Accounts σ (a ++ .readEpoch epoch :: (b ++ y :: post)) σ' := by simpa using hacc
  obtain ⟨m, ha, hepoch, -⟩ := hacc'.agrees
  rw [← hb] at hlb
  have hla' := forall_of_own (fun _ => Entry.not_looksAtEpoch) hla
  refine ⟨a, b, epoch, index, rfl, (mem_own.1 hlink).1, hla', fun x hx => ⟨?_, ?_⟩, ?_⟩
  · exact forall_of_own (fun _ => Entry.not_looksAtEpoch) (fun x hx => (hlb x hx).1) x hx
  · exact forall_of_own (fun _ => Entry.not_looksAtLink) (fun x hx => (hlb x hx).2) x hx
  · exact h.look ha hla' hepoch (z := b ++ y :: (post ++ z)) (by simpa using hfew) hb'

variable {ε κ τ : Type} {d : Device ε κ τ} {rounds : List Round}

/-- A session that starts with its cursor at the epoch keeps up. -/
theorem keepsUp_nil (hseen : s.cursor.seen = σ.epoch) : KeepsUp s σ [] :=
  ⟨[], [], σ, rfl, forgotten_of_unmoved rfl, hseen.symm, rfl, by simp⟩

/-- The bump of the transition that brought up a link which somebody has seen, in front of the look. -/
theorem bump_of_link {σ₀ σ₁ : Signals} {H rest : List Entry} {i : Nat} (hdown : σ₀.link.current = none)
    (hacc : Accounts σ₀ (H ++ .readLink (some i) :: rest) σ₁) (horder : InLinkOrder (H ++ .readLink (some i) :: rest)) :
    ∃ (u v w : List Entry) (j : Nat), H = u ++ .acted .bump :: (v ++ .acted (.linkUp j) :: w) ∧ linkWrites v = [] ∧
      (∀ x ∈ w, x.setsLink = false) ∧ (Link.setUp {} j).current = some i := by
  obtain ⟨m, hH, hup, -⟩ := hacc.agrees
  rcases hH.linkUp hup.symm with ⟨hup₀, -⟩ | ⟨a, w, j, rfl, hw, hj⟩
  · cases hdown.symm.trans hup₀
  obtain ⟨u, v, rfl, hv⟩ := InLinkOrder.bump (b := w ++ .readLink (some i) :: rest) (by simpa using horder)
  exact ⟨u, v, w, j, by simp, hv, hw, hj⟩

variable [Surroundings ε] [Token κ τ]

/-- A cycle that has made so many steps, after so many that went before, has followed the link: the token has forgotten
since every bump in front of the cycle's look at the epoch, and since the bump of each transition that brought up a link
which the cycle has seen. -/
def FollowsLink (past pre : List Entry) : Prop :=
  ∃ (a b : List Entry) (epoch : UInt32) (index : Nat), pre = a ++ .readEpoch epoch :: b ∧
    (∀ x ∈ a ++ b, x.looksAtEpoch = false) ∧ .readLink (some index) ∈ a ∧
    (∀ u v : List Entry, past ++ a = u ++ .acted .bump :: v → .invalidate ∈ v ++ b) ∧
    ∀ (p q : List Entry) (i : Nat), pre = p ++ .readLink (some i) :: q →
      ∃ (u v w : List Entry) (j : Nat), past ++ p = u ++ .acted .bump :: (v ++ .acted (.linkUp j) :: w) ∧
        linkWrites v = [] ∧ (∀ x ∈ w, x.setsLink = false) ∧ (Link.setUp {} j).current = some i ∧
        .invalidate ∈ v ++ .acted (.linkUp j) :: (w ++ .readLink (some i) :: q)

theorem Consecutive.followsLink {ts before after : List (List Entry)} {pre post : List Entry} {c : Card.Command}
    (hcons : Consecutive s σ ts) (hdown : σ.link.current = none) (hseen : s.cursor.seen = σ.epoch)
    (hfew : FewBumps ts.flatten) (horder : InLinkOrder ts.flatten) (hts : ts = before ++ (pre ++ .judge c :: post) :: after) :
    FollowsLink before.flatten pre := by
  obtain ⟨s₁, s₂, e, σ₁, σ₂, hkeep, hacc, hcyc⟩ := hcons.keepsUp (keepsUp_nil hseen) (by simpa using hfew) hts
  subst hts
  obtain ⟨a, b, epoch, index, rfl, hlink, hla, hlb, hpast⟩ :=
    hkeep.forgotten hacc hcyc (z := after.flatten) (by simpa using hfew) rfl rfl rfl
  refine ⟨a, b, epoch, index, rfl, ?_, hlink, by simpa [Forgotten] using hpast, ?_⟩
  · exact List.forall_mem_append.2 ⟨hla, fun x hx => (hlb x hx).1⟩
  intro p q i hpq
  -- The cycle looks at the link in front of the epoch only, so that the settled part covers the look.
  obtain ⟨m, rfl, rfl⟩ : ∃ m, a = p ++ .readLink (some i) :: m ∧ q = m ++ .readEpoch epoch :: b := by
    rcases append_cons_cases hpq with ⟨-, h, -⟩ | ⟨m, -, rfl⟩ | h
    · cases h
    · cases (hlb (.readLink (some i)) (by simp)).2
    · exact h
  obtain ⟨σ', hall⟩ := hcons.accounts
  have hJ : (before ++ ((p ++ .readLink (some i) :: m) ++ .readEpoch epoch :: b ++ .judge c :: post) :: after).flatten =
      (before.flatten ++ p) ++ .readLink (some i) ::
        (m ++ .readEpoch epoch :: (b ++ .judge c :: (post ++ after.flatten))) := by
    simp
  rw [hJ] at hall horder
  obtain ⟨u, v, w, j, hH, hv, hw, hj⟩ := bump_of_link hdown hall horder
  refine ⟨u, v, w, j, hH, hv, hw, hj, ?_⟩
  have hinv := hpast u (v ++ .acted (.linkUp j) :: (w ++ .readLink (some i) :: m)) (by
    rw [List.nil_append, ← List.append_assoc, hH]
    simp)
  simp only [List.mem_append, List.mem_cons, reduceCtorEq, false_or] at hinv ⊢
  grind

/-- When a cycle calls on the gate, it has followed the link. -/
theorem judges_only_what_follows_the_link (hdown : d.signals.link.current = none)
    (hseen : s.cursor.seen = d.signals.epoch) (hfew : FewBumps (trails s d rounds).flatten)
    (horder : InLinkOrder (trails s d rounds).flatten) {before after : List (List Entry)} {pre post : List Entry}
    {c : Card.Command} (hts : trails s d rounds = before ++ (pre ++ .judge c :: post) :: after) :
    FollowsLink before.flatten pre := by
  have hcons := consecutive_trails s d rounds
  exact hcons.followsLink hdown hseen hfew horder hts

/-- An event that the link task has yet to handle. -/
def addressed : Device Bench.Plan MemoryStore Bench.AnyToken where
  outside := {}
  store := {}
  token := .scripted {}
  queue := ⟨[.gotAddress]⟩

/-- The link comes up while the session waits for it, and the command behind that is judged. -/
theorem judges_only_what_follows_the_first_link :
    let s : Session := { settings := .default }
    let d := Bench.Turns.device [[], [], [.bump, .linkUp 0]] [[0x00, 0xB0, 0x00, 0x00]]
    let ts := trails s d [.cycle, .resume]
    d.signals.link.current = none ∧ s.cursor.seen = d.signals.epoch ∧ FewBumps ts.flatten ∧ InLinkOrder ts.flatten ∧
      ∃ (before after : List (List Entry)) (pre post : List Entry) (c : Card.Command),
        ts = before ++ (pre ++ .judge c :: post) :: after ∧ FollowsLink before.flatten pre := by
  intro s d ts
  have hdown : d.signals.link.current = none := rfl
  have hseen : s.cursor.seen = d.signals.epoch := rfl
  have hfew : FewBumps ts.flatten := fewBumps_of_lt (by decide +kernel)
  have hwrites : linkWrites ts.flatten <+: linkTaskWrites { networks := Config.Settings.default.networks } [addressed] := by
    decide +kernel
  have horder : InLinkOrder ts.flatten := .of_linkTask Connectivity.linkUntouched_plan hwrites
  have hjudge : ts.any (fun t => t.any Entry.isJudge) = true := by decide +kernel
  refine ⟨hdown, hseen, hfew, horder, ?_⟩
  obtain ⟨t, ht, hx⟩ := List.any_eq_true.1 hjudge
  obtain ⟨x, hx, hxj⟩ := List.any_eq_true.1 hx
  obtain ⟨before, after, hts⟩ := List.append_of_mem ht
  obtain ⟨pre, post, rfl⟩ := List.append_of_mem hx
  obtain ⟨c, rfl⟩ : ∃ c, x = .judge c := by cases x <;> first | exact ⟨_, rfl⟩ | cases hxj
  exact ⟨before, after, pre, post, c, hts, judges_only_what_follows_the_link hdown hseen hfew horder hts⟩

/-- So it is beside the link task: whatever the trails show of its writes, however often it was taken up, is in order. -/
theorem judges_only_what_follows_the_link_task {ε' κ' τ' : Type} [Surroundings ε'] (halone : LinkUntouched ε')
    {manager : Connectivity} {fobs : List (Device ε' κ' τ')} (hdown : d.signals.link.current = none)
    (hseen : s.cursor.seen = d.signals.epoch) (hfew : FewBumps (trails s d rounds).flatten)
    (hlink : linkWrites (trails s d rounds).flatten <+: linkTaskWrites manager fobs) {before after : List (List Entry)}
    {pre post : List Entry} {c : Card.Command} (hts : trails s d rounds = before ++ (pre ++ .judge c :: post) :: after) :
    FollowsLink before.flatten pre := by
  have hcons := consecutive_trails s d rounds
  exact hcons.followsLink hdown hseen hfew (.of_linkTask halone hlink) hts

end Session

end KeyFob
