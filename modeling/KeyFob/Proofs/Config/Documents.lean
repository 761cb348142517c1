import KeyFob.Proofs.Config.Records
import KeyFob.Proofs.Json.Reading

/-!
Settings as a document. `Settings.Written` says that a tree writes these settings: fields that are left out have their
defaults, and a network or a wait is written whole. Reading is exact for it: whatever a document writes is read, and
nothing else. So each fault, a repeated name or a number out of range, makes the document unreadable.
-/

namespace KeyFob

namespace Json.Value

/-- A number without sign, fraction and exponent. -/
def IsNat (v : Value) (n : Nat) : Prop := ∃ ds, v = .number ⟨false, ds, none, none⟩ ∧ Nat.ofDigitChars 10 ds 0 = n

inductive IsInt : Value → Int → Prop
  | plain (ds : List Char) : IsInt (.number ⟨false, ds, none, none⟩) (Nat.ofDigitChars 10 ds 0)
  | minus (ds : List Char) : IsInt (.number ⟨true, ds, none, none⟩) (-Nat.ofDigitChars 10 ds 0)

/-- An integer that is not a natural number below the bound. -/
def Outside (bound : Nat) (v : Value) : Prop := ∃ z : Int, v.IsInt z ∧ ¬ (0 ≤ z ∧ z < bound)

def IsText (v : Value) (s : String) : Prop := ∃ us, v = .string us ∧ Json.text? us = some s.toList

variable {v : Value} {n bound : Nat} {s : String}

theorem IsText.unique {s' : String} (h : v.IsText s) (h' : v.IsText s') : s = s' := by
  obtain ⟨us, rfl, hs⟩ := h
  obtain ⟨us', heq, hs'⟩ := h'
  simp at heq
  rw [← heq, hs] at hs'
  exact String.toList_inj.1 (Option.some.inj hs')

theorem Outside.not_isNat (h : v.Outside bound) (hn : n < bound) : ¬ v.IsNat n := by
  rintro ⟨ds, rfl, rfl⟩
  obtain ⟨z, hz, hout⟩ := h
  cases hz with
  | plain => exact hout ⟨Int.natCast_nonneg _, Int.ofNat_lt.2 hn⟩

theorem nat?_eq_some : v.nat? bound = some n ↔ v.IsNat n ∧ n < bound := by
  have hvalue (ds : List Char) : digitsValue ds = Nat.ofDigitChars 10 ds 0 := rfl
  constructor
  · intro h
    unfold nat? at h
    split at h
    · next ds =>
      obtain ⟨hlt, h⟩ := Option.ite_none_right_eq_some.1 h
      obtain rfl := Option.some.inj h
      exact ⟨⟨ds, rfl, rfl⟩, hlt⟩
    · cases h
  · rintro ⟨⟨ds, rfl, rfl⟩, hlt⟩
    simp [nat?, hvalue, hlt]

theorem text?_eq_some : v.text? = some s ↔ v.IsText s := by
  constructor
  · intro h
    unfold text? at h
    split at h
    · next us =>
      obtain ⟨cs, hcs, rfl⟩ := Option.map_eq_some_iff.1 h
      exact ⟨us, rfl, by simpa using hcs⟩
    · cases h
  · rintro ⟨us, rfl, hus⟩
    simp [text?, hus]

theorem items?_eq_some {items : List Value} : v.items? = some items ↔ v = .array items := by
  cases v <;> simp [items?]

end Json.Value

namespace Config

open Json (Value)

section leaves

variable {v : Value}

/-- Numbers that fit a type of words are read as such. -/
theorem sized_eq_some {α : Type} {size : Nat} {ofNat : Nat → α} {toNat : α → Nat} {a : α}
    (hread : ∀ n < size, toNat (ofNat n) = n) (hback : ∀ a, ofNat (toNat a) = a) (hlt : ∀ a, toNat a < size) :
    (v.nat? size).map ofNat = some a ↔ v.IsNat (toNat a) := by
  rw [Option.map_eq_some_iff]
  constructor
  · rintro ⟨n, hn, rfl⟩
    obtain ⟨hn, hsize⟩ := Value.nat?_eq_some.1 hn
    rwa [hread n hsize]
  · intro h
    exact ⟨toNat a, Value.nat?_eq_some.2 ⟨h, hlt a⟩, hback a⟩

theorem byte?_eq_some {b : UInt8} : byte? v = some b ↔ v.IsNat b.toNat :=
  sized_eq_some (fun _ => UInt8.toNat_ofNat_of_lt') (fun _ => UInt8.ofNat_toNat) UInt8.toNat_lt

theorem word?_eq_some {w : UInt16} : word? v = some w ↔ v.IsNat w.toNat :=
  sized_eq_some (fun _ => UInt16.toNat_ofNat_of_lt') (fun _ => UInt16.ofNat_toNat) UInt16.toNat_lt

theorem long?_eq_some {w : UInt32} : long? v = some w ↔ v.IsNat w.toNat :=
  sized_eq_some (fun _ => UInt32.toNat_ofNat_of_lt') (fun _ => UInt32.ofNat_toNat) UInt32.toNat_lt

theorem bool?_eq_some {b : Bool} : v.bool? = some b ↔ v = .bool b := by
  cases v <;> simp [Value.bool?]

/-- A text that fits is the one that was written. -/
theorem bounded_eq_some {max : Nat} {t : BoundedText max} :
    v.text?.bind BoundedText.ofString? = some t ↔ v.IsText t.text := by
  rw [Option.bind_eq_some_iff, ← Value.text?_eq_some]
  constructor
  · rintro ⟨s, hs, ht⟩
    rwa [BoundedText.text_of_ofString? ht]
  · exact fun h => ⟨t.text, h, t.ofString?_text⟩

theorem mapM_eq_some {α β : Type} {f : α → Option β} {as : List α} {bs : List β} :
    as.mapM f = some bs ↔ List.Forall₂ (fun a b => f a = some b) as bs := by
  induction as generalizing bs with
  | nil => simp [eq_comm]
  | cons a as ih =>
    simp only [List.mapM_cons, Option.bind_eq_bind, Option.bind_eq_some_iff, Option.pure_def, Option.some.injEq, ih,
      List.forall₂_cons_left_iff]
    constructor
    · rintro ⟨b, hb, bs, hbs, rfl⟩
      exact ⟨b, bs, hb, hbs, rfl⟩
    · rintro ⟨b, bs, hb, hbs, rfl⟩
      exact ⟨b, hb, bs, hbs, rfl⟩

/-- An array of four bytes. -/
def Address.Written (p : Address) (v : Value) : Prop := ∃ a b c d, v = .array [a, b, c, d] ∧ a.IsNat p.a.toNat ∧
  b.IsNat p.b.toNat ∧ c.IsNat p.c.toNat ∧ d.IsNat p.d.toNat

theorem Address.ofValue?_eq_some {p : Address} : ofValue? v = some p ↔ p.Written v := by
  simp only [ofValue?, Option.bind_eq_bind, Option.bind_eq_some_iff, Value.items?_eq_some, Written]
  constructor
  · rintro ⟨items, rfl, h⟩
    split at h
    · next a b c d =>
      simp only [Option.bind_eq_some_iff, Option.some.injEq, byte?_eq_some] at h
      obtain ⟨pa, ha, pb, hb, pc, hc, pd, hd, rfl⟩ := h
      exact ⟨a, b, c, d, rfl, ha, hb, hc, hd⟩
    · cases h
  · rintro ⟨a, b, c, d, rfl, ha, hb, hc, hd⟩
    exact ⟨_, rfl, by simp [byte?_eq_some.2 ha, byte?_eq_some.2 hb, byte?_eq_some.2 hc, byte?_eq_some.2 hd]⟩

end leaves

section fields

variable {α : Type} {a fallback : α} {named : List (String × Value)} {name : String} {read : Value → Option α}
  {p : Value → Prop}

theorem required_eq_some (h : ∀ w, read w = some a ↔ p w) :
    required named name read = some a ↔ Given p False (named.lookup name) := by
  rw [required]
  rcases named.lookup name with _ | w
  · simp [Given]
  · simp [Given, h]

theorem optional_eq_some (h : ∀ w, read w = some a ↔ p w) :
    optional named name fallback read = some a ↔ Given p (a = fallback) (named.lookup name) := by
  rw [optional]
  rcases named.lookup name with _ | w
  · simp [Given, eq_comm]
  · simp [Given, h]

end fields

namespace Network

inductive Field
  | name
  | password
  | peer
deriving DecidableEq

namespace Field

def all : List Field := [name, password, peer]

def key : Field → String
  | name => "ssid"
  | password => "password"
  | peer => "peer"

theorem declares : Declares all key := ⟨fun f => by cases f <;> decide, by decide⟩

end Field

def Writes (n : Network) : Field → Value → Prop
  | .name, v => v.IsText n.name.text
  | .password, v => v.IsText n.password.text
  | .peer, v => n.peer.Written v

def Written (n : Network) (v : Value) : Prop := Record Field.all Field.key n.Writes (fun _ => False) v

theorem ofValue?_eq_some {n : Network} {v : Value} : ofValue? v = some n ↔ n.Written v := by
  have hfields : fields = Field.all.map Field.key := rfl
  rw [Written, ← record_iff Field.declares]
  simp only [ofValue?, hfields, Option.bind_eq_bind, Option.bind_eq_some_iff, Option.some.injEq]
  constructor
  · rintro ⟨named, hnamed, name, hname, password, hpassword, peer, hpeer, rfl⟩
    refine ⟨named, hnamed, fun f => ?_⟩
    cases f with
    | name => exact (required_eq_some fun _ => bounded_eq_some).1 hname
    | password => exact (required_eq_some fun _ => bounded_eq_some).1 hpassword
    | peer => exact (required_eq_some fun _ => Address.ofValue?_eq_some).1 hpeer
  · rintro ⟨named, hnamed, h⟩
    exact ⟨named, hnamed, _, (required_eq_some fun _ => bounded_eq_some).2 (h .name),
      _, (required_eq_some fun _ => bounded_eq_some).2 (h .password),
      _, (required_eq_some fun _ => Address.ofValue?_eq_some).2 (h .peer), rfl⟩

end Network

def NetworkList.Written (l : NetworkList) (v : Value) : Prop :=
  ∃ items, v = .array items ∧ List.Forall₂ (fun item n => Network.Written n item) items l.toList

theorem NetworkList.ofList?_eq_some {networks : List Network} {l : NetworkList} :
    ofList? networks = some l ↔ networks = l.toList := by
  constructor
  · intro h
    obtain ⟨hfits, h⟩ := Option.dite_none_right_eq_some.1 h
    exact congrArg toList (Option.some.inj h)
  · rintro rfl
    exact l.ofList?_toList

theorem NetworkList.ofValue?_eq_some {l : NetworkList} {v : Value} : ofValue? v = some l ↔ l.Written v := by
  simp only [ofValue?, Option.bind_eq_bind, Option.bind_eq_some_iff, Value.items?_eq_some, mapM_eq_some, ofList?_eq_some,
    Network.ofValue?_eq_some, Written]
  constructor
  · rintro ⟨items, rfl, _, h, rfl⟩
    exact ⟨items, rfl, h⟩
  · rintro ⟨items, rfl, h⟩
    exact ⟨items, rfl, _, h, rfl⟩

namespace ConfirmPolicy

inductive Field
  | iterations
  | halfPeriodMs
deriving DecidableEq

namespace Field

def all : List Field := [iterations, halfPeriodMs]

def key : Field → String
  | iterations => "iterations"
  | halfPeriodMs => "half_period_ms"

theorem declares : Declares all key := ⟨fun f => by cases f <;> decide, by decide⟩

end Field

def Writes (p : ConfirmPolicy) : Field → Value → Prop
  | .iterations, v => v.IsNat p.iterations.toNat
  | .halfPeriodMs, v => v.IsNat p.halfPeriodMs.toNat

def Written (p : ConfirmPolicy) (v : Value) : Prop := Record Field.all Field.key p.Writes (fun _ => False) v

theorem ofValue?_eq_some {p : ConfirmPolicy} {v : Value} : ofValue? v = some p ↔ p.Written v := by
  have hfields : fields = Field.all.map Field.key := rfl
  rw [Written, ← record_iff Field.declares]
  simp only [ofValue?, hfields, Option.bind_eq_bind, Option.bind_eq_some_iff, Option.some.injEq]
  constructor
  · rintro ⟨named, hnamed, iterations, hiterations, half, hhalf, rfl⟩
    refine ⟨named, hnamed, fun f => ?_⟩
    cases f with
    | iterations => exact (required_eq_some fun _ => long?_eq_some).1 hiterations
    | halfPeriodMs => exact (required_eq_some fun _ => long?_eq_some).1 hhalf
  · rintro ⟨named, hnamed, h⟩
    exact ⟨named, hnamed, _, (required_eq_some fun _ => long?_eq_some).2 (h .iterations),
      _, (required_eq_some fun _ => long?_eq_some).2 (h .halfPeriodMs), rfl⟩

end ConfirmPolicy

namespace Settings

inductive Field
  | networks
  | peerPort
  | confirm
  | lockoutWarnThreshold
  | connectBackoffMs
  | resetPollMs
  | linkBlinkMs
  | restartCountdownSecs
  | reinitOnRestoreFailure
deriving DecidableEq

namespace Field

def all : List Field := [networks, peerPort, confirm, lockoutWarnThreshold, connectBackoffMs, resetPollMs, linkBlinkMs,
  restartCountdownSecs, reinitOnRestoreFailure]

def key : Field → String
  | networks => "networks"
  | peerPort => "peer_port"
  | confirm => "confirm"
  | lockoutWarnThreshold => "lockout_warn_threshold"
  | connectBackoffMs => "connect_backoff_ms"
  | resetPollMs => "reset_poll_ms"
  | linkBlinkMs => "link_blink_ms"
  | restartCountdownSecs => "restart_countdown_secs"
  | reinitOnRestoreFailure => "reinit_on_restore_failure"

theorem declares : Declares all key := ⟨fun f => by cases f <;> decide, by decide⟩

end Field

def Writes (s : Settings) : Field → Value → Prop
  | .networks, v => s.networks.Written v
  | .peerPort, v => v.IsNat s.peerPort.toNat
  | .confirm, v => s.confirm.Written v
  | .lockoutWarnThreshold, v => v.IsNat s.lockoutWarnThreshold.toNat
  | .connectBackoffMs, v => v.IsNat s.connectBackoffMs.toNat
  | .resetPollMs, v => v.IsNat s.resetPollMs.toNat
  | .linkBlinkMs, v => v.IsNat s.linkBlinkMs.toNat
  | .restartCountdownSecs, v => v.IsNat s.restartCountdownSecs.toNat
  | .reinitOnRestoreFailure, v => v = .bool s.reinitOnRestoreFailure

def Agrees (s t : Settings) : Field → Prop
  | .networks => s.networks = t.networks
  | .peerPort => s.peerPort = t.peerPort
  | .confirm => s.confirm = t.confirm
  | .lockoutWarnThreshold => s.lockoutWarnThreshold = t.lockoutWarnThreshold
  | .connectBackoffMs => s.connectBackoffMs = t.connectBackoffMs
  | .resetPollMs => s.resetPollMs = t.resetPollMs
  | .linkBlinkMs => s.linkBlinkMs = t.linkBlinkMs
  | .restartCountdownSecs => s.restartCountdownSecs = t.restartCountdownSecs
  | .reinitOnRestoreFailure => s.reinitOnRestoreFailure = t.reinitOnRestoreFailure

/-- A field may be left out where it has its default. -/
def Written (s : Settings) (v : Value) : Prop := Record Field.all Field.key s.Writes (s.Agrees default) v

theorem ofValue?_eq_some {s : Settings} {v : Value} : ofValue? v = some s ↔ s.Written v := by
  have hfields : fields = Field.all.map Field.key := rfl
  rw [Written, ← record_iff Field.declares]
  simp only [ofValue?, hfields, Option.bind_eq_bind, Option.bind_eq_some_iff, Option.some.injEq]
  constructor
  · rintro ⟨named, hnamed, networks, hnetworks, port, hport, confirm, hconfirm, warn, hwarn, backoff, hbackoff, poll, hpoll,
      blink, hblink, countdown, hcountdown, reinit, hreinit, rfl⟩
    refine ⟨named, hnamed, fun f => ?_⟩
    cases f with
    | networks => exact (optional_eq_some fun _ => NetworkList.ofValue?_eq_some).1 hnetworks
    | peerPort => exact (optional_eq_some fun _ => word?_eq_some).1 hport
    | confirm => exact (optional_eq_some fun _ => ConfirmPolicy.ofValue?_eq_some).1 hconfirm
    | lockoutWarnThreshold => exact (optional_eq_some fun _ => long?_eq_some).1 hwarn
    | connectBackoffMs => exact (optional_eq_some fun _ => long?_eq_some).1 hbackoff
    | resetPollMs => exact (optional_eq_some fun _ => long?_eq_some).1 hpoll
    | linkBlinkMs => exact (optional_eq_some fun _ => long?_eq_some).1 hblink
    | restartCountdownSecs => exact (optional_eq_some fun _ => long?_eq_some).1 hcountdown
    | reinitOnRestoreFailure => exact (optional_eq_some fun _ => bool?_eq_some).1 hreinit
  · rintro ⟨named, hnamed, h⟩
    exact ⟨named, hnamed, _, (optional_eq_some fun _ => NetworkList.ofValue?_eq_some).2 (h .networks),
      _, (optional_eq_some fun _ => word?_eq_some).2 (h .peerPort),
      _, (optional_eq_some fun _ => ConfirmPolicy.ofValue?_eq_some).2 (h .confirm),
      _, (optional_eq_some fun _ => long?_eq_some).2 (h .lockoutWarnThreshold),
      _, (optional_eq_some fun _ => long?_eq_some).2 (h .connectBackoffMs),
      _, (optional_eq_some fun _ => long?_eq_some).2 (h .resetPollMs),
      _, (optional_eq_some fun _ => long?_eq_some).2 (h .linkBlinkMs),
      _, (optional_eq_some fun _ => long?_eq_some).2 (h .restartCountdownSecs),
      _, (optional_eq_some fun _ => bool?_eq_some).2 (h .reinitOnRestoreFailure), rfl⟩

end Settings

end Config

end KeyFob
