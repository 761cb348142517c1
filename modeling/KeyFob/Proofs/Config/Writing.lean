import KeyFob.Proofs.Config.Documents
import KeyFob.Proofs.Json.Spelling

/-!
Writing settings. There is a document for any settings and any choice of the fields that it shows, in any order.
-/

namespace KeyFob.Config

open Json (Value Spelled)

def Writable (p : Value → Prop) : Prop := ∃ v, p v ∧ Spelled v

theorem writable_isNat (n : Nat) : Writable (·.IsNat n) :=
  ⟨_, ⟨_, rfl, Nat.ofDigitChars_ten_toDigits⟩, Json.spelled_natural n⟩

theorem writable_isText (s : String) : Writable (·.IsText s) := by
  obtain ⟨ds, us, hus, htext⟩ := Json.exists_units s.toList
  exact ⟨_, ⟨us, rfl, htext⟩, Json.spelled_string hus⟩

theorem writable_forall₂ {α : Type} {p : Value → α → Prop} (h : ∀ a, Writable (p · a)) (as : List α) :
    ∃ items, List.Forall₂ p items as ∧ ∀ v ∈ items, Spelled v := by
  induction as with
  | nil => exact ⟨[], .nil, nofun⟩
  | cons a as ih =>
    obtain ⟨v, hv, hspelled⟩ := h a
    obtain ⟨items, hitems, hrest⟩ := ih
    exact ⟨v :: items, .cons hv hitems, List.forall_mem_cons.2 ⟨hspelled, hrest⟩⟩

section records

variable {φ : Type} {order : List φ} {key : φ → String} {writes : φ → Value → Prop} {absent : φ → Prop} {shown : List φ}

/-- The fields of a record can be shown in any order. -/
theorem exists_lists (h : ∀ f, Writable (writes f)) (hshown : shown.Nodup) :
    ∃ members, Lists key writes shown members ∧ Spelled (.object members) := by
  have hmembers : ∃ members, Lists key writes shown members ∧ ∀ m ∈ members, (∃ ds, Json.Units ds m.1) ∧ Spelled m.2 := by
    induction shown with
    | nil => exact ⟨[], .nil, nofun⟩
    | cons f shown ih =>
      rw [List.nodup_cons] at hshown
      obtain ⟨members, hlists, hspelled⟩ := ih hshown.2
      obtain ⟨ds, us, hus, hname⟩ := Json.exists_units (key f).toList
      obtain ⟨w, hw, hvalue⟩ := h f
      exact ⟨(us, w) :: members, .known hname hw hshown.1 hlists, List.forall_mem_cons.2 ⟨⟨⟨ds, hus⟩, hvalue⟩, hspelled⟩⟩
  obtain ⟨members, hlists, hspelled⟩ := hmembers
  exact ⟨members, hlists, Json.spelled_object hspelled⟩

theorem writable_record (hd : Declares order key) (h : ∀ f, Writable (writes f)) : Writable (Record order key writes absent) := by
  obtain ⟨members, hlists, hspelled⟩ := exists_lists h (List.Nodup.of_map key hd.distinct)
  exact ⟨_, ⟨order, .object hlists, fun f hf => absurd (hd.all f) hf⟩, hspelled⟩

end records

theorem Address.writable (p : Address) : Writable p.Written := by
  obtain ⟨a, ha, hsa⟩ := writable_isNat p.a.toNat
  obtain ⟨b, hb, hsb⟩ := writable_isNat p.b.toNat
  obtain ⟨c, hc, hsc⟩ := writable_isNat p.c.toNat
  obtain ⟨d, hd, hsd⟩ := writable_isNat p.d.toNat
  exact ⟨_, ⟨a, b, c, d, rfl, ha, hb, hc, hd⟩, Json.spelled_array (by simp [hsa, hsb, hsc, hsd])⟩

theorem Network.writable (n : Network) : Writable n.Written := by
  refine writable_record Field.declares fun f => ?_
  cases f with
  | name => exact writable_isText _
  | password => exact writable_isText _
  | peer => exact n.peer.writable

theorem NetworkList.writable (l : NetworkList) : Writable l.Written := by
  obtain ⟨items, hitems, hspelled⟩ := writable_forall₂ Network.writable l.toList
  exact ⟨_, ⟨items, rfl, hitems⟩, Json.spelled_array hspelled⟩

theorem ConfirmPolicy.writable (p : ConfirmPolicy) : Writable p.Written := by
  refine writable_record Field.declares fun f => ?_
  cases f with
  | iterations | halfPeriodMs => exact writable_isNat _

namespace Settings

theorem writable (s : Settings) (f : Field) : Writable (s.Writes f) := by
  cases f with
  | networks => exact s.networks.writable
  | confirm => exact s.confirm.writable
  | reinitOnRestoreFailure => exact ⟨_, rfl, Json.spelled_bool _⟩
  | peerPort | lockoutWarnThreshold | connectBackoffMs | resetPollMs | linkBlinkMs | restartCountdownSecs =>
    exact writable_isNat _

/-- Whichever fields are shown, in whichever order, some text writes them. -/
theorem exists_document (s : Settings) {shown : List Field} (h : shown.Nodup) :
    ∃ members text, Json.Writes text (.object members) ∧ Lists Field.key s.Writes shown members := by
  obtain ⟨members, hlists, hspelled⟩ := exists_lists s.writable h
  obtain ⟨text, htext⟩ := hspelled.exists_text
  exact ⟨members, text, htext, hlists⟩

end Settings

end KeyFob.Config
