import KeyFob.Config.Settings
import KeyFob.Proofs.Packed

/-!
The rules for networks and settings, in the order in which they are looked at. `Settings.validate` and `Network.new` go by
the same rules: either passes what breaks none of them, and otherwise names the first that is broken.
-/

namespace KeyFob.Config

structure Rule where
  holds : Prop
  violation : Violation

inductive FirstBroken : List Rule → Violation → Prop
  | here {r : Rule} {rest : List Rule} (h : ¬ r.holds) : FirstBroken (r :: rest) r.violation
  | later {r : Rule} {rest : List Rule} {v : Violation} (h : r.holds) (hrest : FirstBroken rest v) :
    FirstBroken (r :: rest) v

def bytesOf (s : String) : Bytes := s.toByteArray.data.toList

structure GoodName (s : String) : Prop where
  least : 1 ≤ (bytesOf s).length
  most : (bytesOf s).length ≤ 32
  printable (b : UInt8) (h : b ∈ bytesOf s) : 0x20 ≤ b ∧ b ≤ 0x7E

/-- No bytes at all, or from 8 to 64. -/
def GoodPassword (s : String) : Prop := bytesOf s = [] ∨ 8 ≤ (bytesOf s).length ∧ (bytesOf s).length ≤ 64

def Network.rules (name password : String) : List Rule := [⟨GoodName name, .badName⟩, ⟨GoodPassword password, .badPassword⟩]

def Settings.rules (s : Settings) : List Rule :=
  ⟨s.networks.toList ≠ [], .noNetworks⟩ :: s.networks.toList.flatMap (fun n => Network.rules n.name.text n.password.text) ++
  [⟨s.peerPort ≠ 0, .zeroPort⟩, ⟨s.confirm.iterations ≠ 0 ∧ s.confirm.halfPeriodMs ≠ 0, .zeroConfirm⟩,
    ⟨s.connectBackoffMs ≠ 0, .zeroBackoff⟩, ⟨s.resetPollMs ≠ 0, .zeroPoll⟩, ⟨s.linkBlinkMs ≠ 0, .zeroBlink⟩]

section rules

variable {rules rules' : List Rule} {v : Violation} {e : Except Violation Unit}

theorem not_firstBroken (h : ∀ r ∈ rules, r.holds) : ¬ FirstBroken rules v := by
  intro hfirst
  induction hfirst with
  | here hr => exact hr (h _ (List.mem_cons_self ..))
  | later _ _ ih => exact ih fun r hr => h r (List.mem_cons_of_mem _ hr)

theorem FirstBroken.unique {v' : Violation} (h : FirstBroken rules v) (h' : FirstBroken rules v') : v = v' := by
  induction h with
  | here hr =>
    cases h' with
    | here _ => rfl
    | later hr' _ => exact absurd hr' hr
  | later hr _ ih =>
    cases h' with
    | here hr' => exact absurd hr hr'
    | later _ hrest => exact ih hrest

theorem FirstBroken.append (h : FirstBroken rules v) (rules' : List Rule) : FirstBroken (rules ++ rules') v := by
  induction h with
  | here hr => exact .here hr
  | later hr _ ih => exact .later hr ih

theorem FirstBroken.behind (h : ∀ r ∈ rules, r.holds) (h' : FirstBroken rules' v) : FirstBroken (rules ++ rules') v := by
  induction rules with
  | nil => exact h'
  | cons r rest ih =>
    rw [List.forall_mem_cons] at h
    exact .later h.1 (ih h.2)

/-- A verdict by these rules: all of them hold, or the first that does not is named. -/
def DecidedBy (rules : List Rule) : Except Violation Unit → Prop
  | .ok () => ∀ r ∈ rules, r.holds
  | .error v => FirstBroken rules v

theorem DecidedBy.eq_ok_iff (h : DecidedBy rules e) : e = .ok () ↔ ∀ r ∈ rules, r.holds := by
  rcases e with v | _
  · exact iff_of_false nofun fun hall => not_firstBroken hall h
  · exact iff_of_true rfl h

theorem DecidedBy.eq_error_iff (h : DecidedBy rules e) : e = .error v ↔ FirstBroken rules v := by
  rcases e with v' | _
  · refine ⟨fun he => Except.error.inj he ▸ h, fun hv => ?_⟩
    rw [FirstBroken.unique h hv]
  · exact iff_of_false nofun (not_firstBroken h)

theorem decidedBy_nil : DecidedBy [] (.ok ()) := nofun

/-- A rule, and a verdict by those behind it. -/
theorem DecidedBy.cons {p c : Prop} [Decidable c] (hrest : DecidedBy rules e) (h : c ↔ ¬ p) :
    DecidedBy (⟨p, v⟩ :: rules) (if c then .error v else e) := by
  split
  · next hc => exact .here (h.1 hc)
  · next hc =>
    have hp : p := Classical.not_not.1 fun hp => hc (h.2 hp)
    rcases e with v' | _
    · exact .later hp hrest
    · exact List.forall_mem_cons.2 ⟨hp, hrest⟩

/-- Verdicts one after another, each given only if those before it have passed. -/
theorem DecidedBy.bind {f : Unit → Except Violation Unit} (h : DecidedBy rules e) (h' : DecidedBy rules' (f ())) :
    DecidedBy (rules ++ rules') (e >>= f) := by
  rcases e with v | _
  · exact FirstBroken.append h rules'
  · show DecidedBy (rules ++ rules') (f ())
    rcases hf : f () with v | _
    · rw [hf] at h'
      exact FirstBroken.behind h h'
    · rw [hf] at h'
      exact List.forall_mem_append.2 ⟨h, h'⟩

end rules

section bytes

variable {s : String}

theorem length_bytesOf (s : String) : (bytesOf s).length = s.utf8ByteSize := Packed.length_bytes s

theorem bytesOf_eq (s : String) : bytesOf s = s.toList.flatMap String.utf8EncodeChar := by
  rw [bytesOf, ← String.utf8Encode_toList, List.utf8Encode]
  simp

/-- A character is printable if and only if all its bytes are: behind the first of several stand no small ones. -/
theorem isPrintable_iff (c : Char) : isPrintable c = true ↔ ∀ b ∈ String.utf8EncodeChar c, 0x20 ≤ b ∧ b ≤ 0x7E := by
  have hval : c.toNat = c.val.toNat := rfl
  simp only [isPrintable, Bool.and_eq_true, decide_eq_true_eq, String.utf8EncodeChar, hval]
  split_ifs <;> simp [UInt8.le_iff_toNat_le] <;> omega

theorem isEmpty_iff_bytesOf : s.isEmpty = true ↔ bytesOf s = [] := by
  rw [String.isEmpty, beq_iff_eq, ← length_bytesOf, List.length_eq_zero_iff]

theorem nameOk_iff : nameOk s = true ↔ GoodName s := by
  have hprintable : s.toList.all isPrintable = true ↔ ∀ b ∈ bytesOf s, 0x20 ≤ b ∧ b ≤ 0x7E := by
    simp only [List.all_eq_true, isPrintable_iff, bytesOf_eq, List.mem_flatMap]
    exact ⟨fun h b ⟨c, hc, hb⟩ => h c hc b hb, fun h c hc b hb => h b ⟨c, hc, hb⟩⟩
  have hleast : (!s.isEmpty) = true ↔ 1 ≤ (bytesOf s).length := by
    rw [Bool.not_eq_true', Bool.eq_false_iff, ne_eq, isEmpty_iff_bytesOf, ← ne_eq, List.ne_nil_iff_length_pos]
    rfl
  simp only [nameOk, Bool.and_eq_true, hprintable, hleast, decide_eq_true_eq, ← length_bytesOf]
  exact ⟨fun ⟨⟨h, h'⟩, h''⟩ => ⟨h, h', h''⟩, fun ⟨h, h', h''⟩ => ⟨⟨h, h'⟩, h''⟩⟩

theorem passwordOk_iff : passwordOk s = true ↔ GoodPassword s := by
  simp only [passwordOk, Bool.or_eq_true, Bool.and_eq_true, decide_eq_true_eq, isEmpty_iff_bytesOf, ← length_bytesOf]
  rfl

end bytes

namespace Network

variable {name password : String} {peer : Address} {n : Network} {v : Violation}

theorem check_decidedBy (name password : String) : DecidedBy (rules name password) (check name password) := by
  have hname : (!nameOk name) = true ↔ ¬ GoodName name := by simp [← nameOk_iff]
  have hpassword : (!passwordOk password) = true ↔ ¬ GoodPassword password := by simp [← passwordOk_iff]
  exact (decidedBy_nil.cons hpassword).cons hname

theorem check_eq_ok_iff : check name password = .ok () ↔ GoodName name ∧ GoodPassword password := by
  simpa [rules] using (check_decidedBy name password).eq_ok_iff

/-- A network is made again from its own texts if and only if they are good ones. -/
theorem new_again_iff (n : Network) : new n.name.text n.password.text n.peer = .ok n ↔
    GoodName n.name.text ∧ GoodPassword n.password.text := by
  rw [← check_eq_ok_iff, new, BoundedText.ofString?_text, BoundedText.ofString?_text]
  rcases check n.name.text n.password.text with v | _
  · exact ⟨nofun, nofun⟩
  · exact ⟨fun _ => rfl, fun _ => rfl⟩

/-- The rules leave nothing to the bounds of the buffers. -/
theorem new_of_check (h : check name password = .ok ()) (peer : Address) : ∃ n : Network, new name password peer = .ok n ∧
    n.name.text = name ∧ n.password.text = password ∧ n.peer = peer := by
  obtain ⟨hname, hpassword⟩ := check_eq_ok_iff.1 h
  have hn : name.utf8ByteSize ≤ 32 := length_bytesOf name ▸ hname.most
  have hp : password.utf8ByteSize ≤ 64 := by
    rw [← length_bytesOf]
    rcases hpassword with hempty | ⟨-, hmost⟩
    · simp [hempty]
    · exact hmost
  let n : Network := ⟨⟨name, hn⟩, ⟨password, hp⟩, peer⟩
  exact ⟨n, n.new_again_iff.2 ⟨hname, hpassword⟩, rfl, rfl, rfl⟩

theorem new_of_broken (h : check name password = .error v) (peer : Address) : new name password peer = .error v := by
  rw [new, h]
  rfl

structure Made (name password : String) (peer : Address) : Prop where
  accepted_iff : (∃ n, new name password peer = .ok n) ↔ GoodName name ∧ GoodPassword password
  holds (n : Network) (h : new name password peer = .ok n) :
    n.name.text = name ∧ n.password.text = password ∧ n.peer = peer
  refused_iff (v : Violation) : new name password peer = .error v ↔ FirstBroken (rules name password) v
  within_bounds : new name password peer ≠ .error .nameTooLong ∧ new name password peer ≠ .error .passwordTooLong

theorem made (name password : String) (peer : Address) : Made name password peer := by
  have hdecided := check_decidedBy name password
  rcases hcheck : check name password with v | _
  · have hnew := new_of_broken hcheck peer
    rw [hcheck] at hdecided
    refine ⟨?_, fun n h => ?_, fun v' => ?_, ?_⟩
    · refine iff_of_false (fun ⟨n, h⟩ => by cases hnew.symm.trans h) fun h => not_firstBroken ?_ hdecided
      simpa [rules] using h
    · cases hnew.symm.trans h
    · rw [hnew, ← hdecided.eq_error_iff, Except.error.injEq, Except.error.injEq]
    · rw [hnew]
      -- only two rules are looked at
      cases hdecided with
      | here _ => exact ⟨nofun, nofun⟩
      | later _ hrest =>
        cases hrest with
        | here _ => exact ⟨nofun, nofun⟩
        | later _ hnone => cases hnone
  · obtain ⟨n, hnew, hheld⟩ := new_of_check hcheck peer
    refine ⟨iff_of_true ⟨n, hnew⟩ (check_eq_ok_iff.1 hcheck), fun m h => ?_, fun v => ?_, ?_⟩
    · obtain rfl := Except.ok.inj (hnew.symm.trans h)
      exact hheld
    · rw [hnew]
      exact iff_of_false nofun (not_firstBroken (hdecided.eq_ok_iff.1 hcheck))
    · rw [hnew]
      exact ⟨nofun, nofun⟩

end Network

namespace Settings

variable {s s' : Settings}

theorem checkNetworks_decidedBy (l : List Network) :
    DecidedBy (l.flatMap fun n => Network.rules n.name.text n.password.text) (checkNetworks l) := by
  induction l with
  | nil => exact decidedBy_nil
  | cons n rest ih => exact (Network.check_decidedBy n.name.text n.password.text).bind ih

theorem validate_decidedBy (s : Settings) : DecidedBy s.rules s.validate := by
  have hconfirm : s.confirm.iterations = 0 ∨ s.confirm.halfPeriodMs = 0 ↔
      ¬ (s.confirm.iterations ≠ 0 ∧ s.confirm.halfPeriodMs ≠ 0) := by
    simp only [not_and_or, Classical.not_not]
  have hnonzero {p : Prop} : p ↔ ¬ ¬ p := Classical.not_not.symm
  refine DecidedBy.cons (DecidedBy.bind (checkNetworks_decidedBy s.networks.toList) ?_) hnonzero
  refine DecidedBy.cons (DecidedBy.cons ?_ hconfirm) hnonzero
  exact DecidedBy.cons (DecidedBy.cons (DecidedBy.cons decidedBy_nil hnonzero) hnonzero) hnonzero

theorem validate_eq_ok : s.validate = .ok () ↔ s.networks.toList ≠ [] ∧ (∀ n ∈ s.networks.toList, n.validate = .ok ()) ∧
    s.peerPort ≠ 0 ∧ ¬ (s.confirm.iterations = 0 ∨ s.confirm.halfPeriodMs = 0) ∧ s.connectBackoffMs ≠ 0 ∧
    s.resetPollMs ≠ 0 ∧ s.linkBlinkMs ≠ 0 := by
  have hnetwork (n : Network) : (∀ r ∈ Network.rules n.name.text n.password.text, r.holds) ↔ n.validate = .ok () :=
    (Network.check_decidedBy _ _).eq_ok_iff.symm
  rw [s.validate_decidedBy.eq_ok_iff]
  simp only [rules, List.cons_append, List.forall_mem_cons, List.forall_mem_append, List.forall_mem_flatMap, hnetwork,
    List.not_mem_nil, false_imp_iff, implies_true, and_true, not_or, ne_eq]

theorem validated_eq_ok : s.validated = .ok s' ↔ s' = s ∧ s.validate = .ok () := by
  unfold validated
  cases s.validate with
  | error rule => exact ⟨nofun, nofun⟩
  | ok _ => exact ⟨fun h => ⟨(Except.ok.inj h).symm, rfl⟩, fun h => congrArg Except.ok h.1.symm⟩

theorem validated_eq_error {e : ConfigError} : s.validated = .error e ↔
    ∃ rule, s.validate = .error rule ∧ e = .validationFailed rule := by
  unfold validated
  rcases s.validate with rule | _
  · simp [eq_comm]
  · simp

/-- What comes of judging settings. -/
structure Held (s : Settings) : Prop where
  accepted_iff : s.validate = .ok () ↔ s.networks.toList ≠ [] ∧
    (∀ n ∈ s.networks.toList, Network.new n.name.text n.password.text n.peer = .ok n) ∧ s.peerPort ≠ 0 ∧
    s.confirm.iterations ≠ 0 ∧ s.confirm.halfPeriodMs ≠ 0 ∧ s.connectBackoffMs ≠ 0 ∧ s.resetPollMs ≠ 0 ∧ s.linkBlinkMs ≠ 0
  refused_iff (v : Violation) : s.validate = .error v ↔ FirstBroken s.rules v

theorem held (s : Settings) : Held s where
  accepted_iff := by
    simp only [validate_eq_ok, Network.validate, Network.check_eq_ok_iff, Network.new_again_iff, not_or, and_assoc, ne_eq]
  refused_iff _ := s.validate_decidedBy.eq_error_iff

/-- New networks and the networks of settings are held to the same rules, and the first that is broken is named. -/
theorem networks_old_and_new_are_held_to_the_same_rules :
    (∀ name password peer, Network.Made name password peer) ∧ ∀ s : Settings, s.Held :=
  ⟨Network.made, held⟩

end Settings

end KeyFob.Config
