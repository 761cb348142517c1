import KeyFob.Proofs.Config.Rules
import KeyFob.Proofs.Config.Writing
import Mathlib

/-!
What a document of settings comes to. One that writes settings gives them if they break no rule, whichever fields it shows,
in whichever order, and whatever else stands in between. What is wrong with a document itself is said before any rule is
looked at.
-/

namespace KeyFob.Config

open Json (Value)

variable {v : Value}

/-- What keeps a tree from writing a network. -/
inductive Network.Faulty : Value → Prop
  | misnamed {v : Value} (h : Misnamed Field.key v) : Faulty v
  | lacking {v : Value} {f : Field} (h : ∀ w, ¬ Gives Field.all Field.key v f w) : Faulty v
  | longName {v w : Value} {s : String} (hg : Gives Field.all Field.key v .name w) (hw : w.IsText s)
    (h : 32 < s.utf8ByteSize) : Faulty v
  | longPassword {v w : Value} {s : String} (hg : Gives Field.all Field.key v .password w) (hw : w.IsText s)
    (h : 64 < s.utf8ByteSize) : Faulty v
  | peer {v w : Value} {items : List Value} (hg : Gives Field.all Field.key v .peer (.array items)) (hw : w ∈ items)
    (h : w.Outside UInt8.size) : Faulty v

inductive ConfirmPolicy.Faulty : Value → Prop
  | misnamed {v : Value} (h : Misnamed Field.key v) : Faulty v
  | lacking {v : Value} {f : Field} (h : ∀ w, ¬ Gives Field.all Field.key v f w) : Faulty v
  | outside {v w : Value} {f : Field} (hg : Gives Field.all Field.key v f w) (h : w.Outside UInt32.size) : Faulty v

def Settings.Field.bound? : Field → Option Nat
  | peerPort => some UInt16.size
  | lockoutWarnThreshold | connectBackoffMs | resetPollMs | linkBlinkMs | restartCountdownSecs => some UInt32.size
  | networks | confirm | reinitOnRestoreFailure => none

/-- What keeps a tree from writing settings. -/
inductive Settings.Faulty : Value → Prop
  | misnamed {v : Value} (h : Misnamed Field.key v) : Faulty v
  | network {v w : Value} {items : List Value} (hg : Gives Field.all Field.key v .networks (.array items)) (hw : w ∈ items)
    (h : Network.Faulty w) : Faulty v
  | tooMany {v : Value} {items : List Value} (hg : Gives Field.all Field.key v .networks (.array items))
    (h : maxNetworks < items.length) : Faulty v
  | confirm {v w : Value} (hg : Gives Field.all Field.key v .confirm w) (h : ConfirmPolicy.Faulty w) : Faulty v
  | outside {v w : Value} {f : Field} {bound : Nat} (hg : Gives Field.all Field.key v f w) (hf : f.bound? = some bound)
    (h : w.Outside bound) : Faulty v

theorem Address.Written.not_outside {p : Address} {items : List Value} {w : Value} (h : p.Written (.array items))
    (hw : w ∈ items) : ¬ w.Outside UInt8.size := by
  obtain ⟨a, b, c, d, heq, ha, hb, hc, hd⟩ := h
  obtain rfl := Value.array.inj heq
  simp only [List.mem_cons, List.not_mem_nil, or_false] at hw
  rcases hw with rfl | rfl | rfl | rfl
  · exact fun hout => hout.not_isNat p.a.toNat_lt ha
  · exact fun hout => hout.not_isNat p.b.toNat_lt hb
  · exact fun hout => hout.not_isNat p.c.toNat_lt hc
  · exact fun hout => hout.not_isNat p.d.toNat_lt hd

theorem Network.Faulty.not_written (h : Faulty v) (n : Network) : ¬ n.Written v := by
  intro hn
  have hgives {f : Field} {w : Value} (hg : Gives Field.all Field.key v f w) : n.Writes f w := hn.of_gives Field.declares hg
  cases h with
  | misnamed h => exact hn.not_misnamed Field.declares h
  | lacking h => exact hn.absent_of_none h
  | longName hg hw h =>
    rw [hw.unique (hgives hg)] at h
    exact absurd n.name.fits (Nat.not_le.2 h)
  | longPassword hg hw h =>
    rw [hw.unique (hgives hg)] at h
    exact absurd n.password.fits (Nat.not_le.2 h)
  | peer hg hw h => exact Address.Written.not_outside (hgives hg) hw h

theorem ConfirmPolicy.Faulty.not_written (h : Faulty v) (p : ConfirmPolicy) : ¬ p.Written v := by
  intro hp
  have hgives {f : Field} {w : Value} (hg : Gives Field.all Field.key v f w) : p.Writes f w := hp.of_gives Field.declares hg
  cases h with
  | misnamed h => exact hp.not_misnamed Field.declares h
  | lacking h => exact hp.absent_of_none h
  | @outside _ f hg h =>
    have hw := hgives hg
    cases f with
    | iterations => exact h.not_isNat p.iterations.toNat_lt hw
    | halfPeriodMs => exact h.not_isNat p.halfPeriodMs.toNat_lt hw

theorem NetworkList.Written.length {l : NetworkList} {items : List Value} (h : l.Written (.array items)) :
    items.length ≤ maxNetworks := by
  obtain ⟨items', heq, h⟩ := h
  obtain rfl := Value.array.inj heq
  rw [h.length_eq]
  exact l.fits

theorem NetworkList.Written.exists_network {l : NetworkList} {items : List Value} (h : l.Written (.array items)) {w : Value}
    (hw : w ∈ items) : ∃ n : Network, n.Written w := by
  obtain ⟨items', heq, h⟩ := h
  obtain rfl := Value.array.inj heq
  obtain ⟨i, hi, rfl⟩ := List.mem_iff_getElem.1 hw
  exact ⟨_, h.get hi (h.length_eq ▸ hi)⟩

/-- A field with a bound is written as a number below it. -/
theorem Settings.Writes.isNat {s : Settings} {f : Field} {bound : Nat} (h : s.Writes f v) (hf : f.bound? = some bound) :
    ∃ n < bound, v.IsNat n := by
  cases f with
  | networks | confirm | reinitOnRestoreFailure => cases hf
  | peerPort =>
    obtain rfl := Option.some.inj hf
    exact ⟨_, UInt16.toNat_lt _, h⟩
  | lockoutWarnThreshold | connectBackoffMs | resetPollMs | linkBlinkMs | restartCountdownSecs =>
    obtain rfl := Option.some.inj hf
    exact ⟨_, UInt32.toNat_lt _, h⟩

theorem Settings.Faulty.not_written (h : Faulty v) (s : Settings) : ¬ s.Written v := by
  intro hs
  have hgives {f : Field} {w : Value} (hg : Gives Field.all Field.key v f w) : s.Writes f w := hs.of_gives Field.declares hg
  cases h with
  | misnamed h => exact hs.not_misnamed Field.declares h
  | network hg hw h =>
    obtain ⟨n, hn⟩ := NetworkList.Written.exists_network (hgives hg) hw
    exact h.not_written n hn
  | tooMany hg h => exact absurd (NetworkList.Written.length (hgives hg)) (Nat.not_le.2 h)
  | confirm hg h => exact h.not_written s.confirm (hgives hg)
  | outside hg hf h =>
    obtain ⟨n, hn, hw⟩ := Writes.isNat (hgives hg) hf
    exact h.not_isNat hn hw

namespace Settings

variable {text : String} {s : Settings}

theorem ofJson_of_written (ht : Json.Writes text v) (hs : s.Written v) : ofJson text = s.validated := by
  rw [ofJson, Json.parse?_eq_some.2 ht, Option.bind_some, ofValue?_eq_some.2 hs]

theorem ofJson_of_not_written (h : ∀ v s, Json.Writes text v → ¬ Written s v) : ofJson text = .error .corrupted := by
  have hnone : (Json.parse? text).bind ofValue? = none := by
    refine Option.eq_none_iff_forall_ne_some.2 fun s hs => ?_
    obtain ⟨v, hv, hs⟩ := Option.bind_eq_some_iff.1 hs
    exact h v s (Json.parse?_eq_some.1 hv) (ofValue?_eq_some.1 hs)
  rw [ofJson, hnone]

theorem ofJson_eq_ok : ofJson text = .ok s ↔ s.validate = .ok () ∧ ∃ v, Json.Writes text v ∧ s.Written v := by
  constructor
  · intro h
    by_cases hw : ∃ v s, Json.Writes text v ∧ Written s v
    · obtain ⟨v, s', ht, hs'⟩ := hw
      rw [ofJson_of_written ht hs'] at h
      obtain ⟨rfl, hvalid⟩ := validated_eq_ok.1 h
      exact ⟨hvalid, v, ht, hs'⟩
    · rw [ofJson_of_not_written fun v s ht hs => hw ⟨v, s, ht, hs⟩] at h
      cases h
  · rintro ⟨hvalid, v, ht, hs⟩
    rw [ofJson_of_written ht hs]
    exact validated_eq_ok.2 ⟨rfl, hvalid⟩

/-- Any of the fields can be shown, in any order, as long as those that are left out have their defaults; what stands between
them makes no difference. Then it is up to the rules. A faulty document, or a text that is none, is refused before they are
looked at, and whatever is accepted was written. -/
theorem documents_say_what_they_write :
    (∀ (s : Settings) (shown : List Field), shown.Nodup →
      ∃ members text, Json.Writes text (.object members) ∧ Lists Field.key s.Writes shown members) ∧
    (∀ (s : Settings) (shown : List Field) (members : List Member) (text : String), Json.Writes text (.object members) →
      Lists Field.key s.Writes shown members → (∀ f, f ∉ shown → s.Agrees default f) →
      (s.validate = .ok () → ofJson text = .ok s) ∧
        ∀ rule, s.validate = .error rule → ofJson text = .error (.validationFailed rule)) ∧
    (∀ (text : String) (v : Value), Json.Writes text v → Faulty v → ofJson text = .error .corrupted) ∧
    (∀ text : String, (∀ v, ¬ Json.Writes text v) → ofJson text = .error .corrupted) ∧
    ∀ (text : String) (s : Settings), ofJson text = .ok s ↔ s.validate = .ok () ∧ ∃ v, Json.Writes text v ∧ s.Written v := by
  refine ⟨fun s shown hshown => s.exists_document hshown, fun s shown members text ht hlists hrest => ?_,
    fun text v ht hv => ?_, fun text hnone => ?_, fun text s => ofJson_eq_ok⟩
  · have hs : s.Written (.object members) := ⟨shown, .object hlists, hrest⟩
    rw [ofJson_of_written ht hs]
    exact ⟨fun hvalid => validated_eq_ok.2 ⟨rfl, hvalid⟩, fun rule hrule => validated_eq_error.2 ⟨rule, hrule, rfl⟩⟩
  · refine ofJson_of_not_written fun v' s ht' hs => ?_
    rw [ht'.unique ht] at hs
    exact hv.not_written s hs
  · exact ofJson_of_not_written fun v _ ht => absurd ht (hnone v)

section lab

def lab : Network := ⟨⟨"lab", by decide⟩, ⟨"labpassword", by decide⟩, ⟨10, 1, 2, 3⟩⟩

def atLab : Settings := { default with networks := ⟨[lab], by decide⟩, peerPort := 9 }

def plain (name : String) : List Json.Unit16 := name.toList.map .char

def natural (n : Nat) : Value := .number ⟨false, Nat.toDigits 10 n, none, none⟩

def labValue : Value := .object [(plain "peer", .array [natural 10, natural 1, natural 2, natural 3]),
  (plain "ssid", .string (.hex 0x6c :: plain "ab")), (plain "password", .string (plain "labpassword"))]

def atLabMembers : List Member :=
  [(plain "note", .array [.null, .bool true]), (plain "peer_port", natural 9), (plain "networks", .array [labValue])]

def atLabText : String := "\x7b \"note\": [null, true], \"peer_port\": 9,\n \"networks\": [" ++
  "\x7b\"peer\": [10, 1, 2, 3], \"ssid\": \"\\u006cab\", \"password\": \"labpassword\"\x7d]\x7d"

theorem atLabText_writes : Json.Writes atLabText (.object atLabMembers) := Json.parse?_eq_some.1 (by cbv)

theorem isNat_natural (n : Nat) : (natural n).IsNat n := ⟨_, rfl, Nat.ofDigitChars_ten_toDigits⟩

theorem lab_written : lab.Written labValue := by
  refine ⟨[.peer, .name, .password], .object ?_, fun f hf => ?_⟩
  · exact .known rfl ⟨_, _, _, _, rfl, isNat_natural _, isNat_natural _, isNat_natural _, isNat_natural _⟩ (by decide)
      (.known rfl ⟨_, rfl, rfl⟩ (by decide) (.known rfl ⟨_, rfl, rfl⟩ (by decide) .nil))
  · cases f <;> simp at hf

theorem atLab_lists : Lists Field.key atLab.Writes [.peerPort, .networks] atLabMembers :=
  .unknown (show Named _ "note" from rfl) (fun f => by cases f <;> decide)
    (.known rfl (isNat_natural 9) (by decide) (.known rfl ⟨_, rfl, .cons lab_written .nil⟩ (by decide) .nil))

def portless : Settings := { default with peerPort := 0 }

def portlessText : String := "\x7b\"peer_port\": 0\x7d"

theorem portlessText_writes : Json.Writes portlessText (.object [(plain "peer_port", natural 0)]) :=
  Json.parse?_eq_some.1 (by cbv)

theorem portless_lists : Lists Field.key portless.Writes [.peerPort] [(plain "peer_port", natural 0)] :=
  .known rfl (isNat_natural 0) (by decide) .nil

/-- The port twice, the second time behind an escape. -/
def twiceMembers : List Member := [(plain "peer_port", natural 9), (.hex 0x70 :: plain "eer_port", natural 10)]

def twiceText : String := "\x7b\"peer_port\": 9, \"\\u0070eer_port\": 10\x7d"

theorem twiceText_writes : Json.Writes twiceText (.object twiceMembers) := Json.parse?_eq_some.1 (by cbv)

theorem twice_faulty : Faulty (.object twiceMembers) :=
  .misnamed (.repeated (f := .peerPort) ⟨_, _, .refl _, rfl, rfl⟩)

theorem document_says_atLab :
    (∃ members text, Json.Writes text (.object members) ∧ Lists Field.key atLab.Writes Field.all members) ∧
      Json.Writes atLabText (.object atLabMembers) ∧ Lists Field.key atLab.Writes [.peerPort, .networks] atLabMembers ∧
      atLab.validate = .ok () ∧ ofJson atLabText = .ok atLab ∧ ofJson portlessText = .error (.validationFailed .zeroPort) ∧
      ofJson twiceText = .error .corrupted ∧ ofJson "[1,]" = .error .corrupted := by
  obtain ⟨hexists, hwritten, hfaulty, hrefused, -⟩ := documents_say_what_they_write
  have hnodup : Field.all.Nodup := by decide
  have hvalid : atLab.validate = .ok () := by decide
  have hbroken : portless.validate = .error .zeroPort := by decide
  have hatLab : ∀ f, f ∉ [Field.peerPort, .networks] → atLab.Agrees default f := by
    intro f hf
    cases f <;> first | rfl | simp at hf
  have hportless : ∀ f, f ∉ [Field.peerPort] → portless.Agrees default f := by
    intro f hf
    cases f <;> first | rfl | simp at hf
  have hnone : ∀ v, ¬ Json.Writes "[1,]" v := by
    intro v hv
    cases (show Json.parse? "[1,]" = none by cbv).symm.trans (Json.parse?_eq_some.2 hv)
  exact ⟨hexists _ _ hnodup, atLabText_writes, atLab_lists, hvalid,
    (hwritten _ _ _ _ atLabText_writes atLab_lists hatLab).1 hvalid,
    (hwritten _ _ _ _ portlessText_writes portless_lists hportless).2 _ hbroken, hfaulty _ _ twiceText_writes twice_faulty,
    hrefused _ hnone⟩

end lab

end Settings

end KeyFob.Config
