import KeyFob.Bench.Plan
import KeyFob.Bench.Tokens
import KeyFob.Program.Host
import KeyFob.Proofs.Config.Keeping
import KeyFob.Proofs.Config.Rules
import KeyFob.Proofs.Connectivity.Published

/-!
What accepted settings are good for. Settings come from a document or from the store, and in either case they are
passed on only if they break no rule. Then the manager has a candidate to begin with, the session has the network of
every candidate that the link can be up on, and the radio takes every one of the networks.
-/

namespace KeyFob

theorem Radio.connect_of_name {n : Config.Network} (h : n.name.text ≠ "") (r : Radio) (q : LinkQueue) :
    ((r.apply n).connect q).result = .ok () := by
  have hne : ¬ (r.apply n).name = "" := h
  rw [connect, if_neg hne]

namespace Config

theorem Network.name_ne_empty {n : Network} (h : n.validate = .ok ()) : n.name.text ≠ "" := by
  intro hempty
  rw [validate, check, hempty] at h
  cases h

namespace Settings

variable {s s' : Settings}

theorem networks_of_validate (h : s.validate = .ok ()) :
    s.networks.toList ≠ [] ∧ ∀ n ∈ s.networks.toList, n.validate = .ok () := by
  obtain ⟨hne, hnetworks, -⟩ := validate_eq_ok.1 h
  exact ⟨hne, hnetworks⟩

/-- Either decoder holds what it has made out to the rules. -/
def judged : Option Settings → Except ConfigError Settings
  | some s => s.validated
  | none => .error .corrupted

theorem ofJson_eq (text : String) : ofJson text = judged ((Json.parse? text).bind ofValue?) := by
  unfold ofJson
  cases (Json.parse? text).bind ofValue? <;> rfl

theorem decode_eq (bs : Bytes) : decode bs = judged ((reader bs).map Prod.fst) := by
  unfold decode
  cases reader bs <;> rfl

theorem validate_of_judged {o : Option Settings} (h : judged o = .ok s) : s.validate = .ok () := by
  cases o with
  | none => cases h
  | some s' =>
    obtain ⟨rfl, hvalid⟩ := validated_eq_ok.1 h
    exact hvalid

theorem judged_eq_corrupted {o : Option Settings} : judged o = .error .corrupted ↔ o = none := by
  cases o with
  | none => exact iff_of_true rfl rfl
  | some s =>
    refine iff_of_false (fun h => ?_) nofun
    obtain ⟨rule, -, hrule⟩ := validated_eq_error.1 h
    cases hrule

theorem judged_ne_ioError {o : Option Settings} : judged o ≠ .error .ioError := by
  intro h
  cases o with
  | none => cases h
  | some s =>
    obtain ⟨rule, -, hrule⟩ := validated_eq_error.1 h
    cases hrule

structure Parses (text : String) : Prop where
  valid (s : Settings) (h : ofJson text = .ok s) : s.validate = .ok ()
  corrupted_iff : ofJson text = .error .corrupted ↔ (Json.parse? text).bind ofValue? = none

theorem parses (text : String) : Parses text where
  valid _ h := validate_of_judged ((ofJson_eq text).symm.trans h)
  corrupted_iff := ofJson_eq text ▸ judged_eq_corrupted

theorem default_valid : default.validate = .ok () := by decide +kernel

section store

variable {κ : Type} [Storage κ] {r : Except StorageError Bytes}

theorem validate_of_loaded (h : loaded r = .ok s) : s.validate = .ok () := by
  cases r with
  | ok bytes =>
    rw [loaded, decode_eq] at h
    exact validate_of_judged h
  | error e =>
    cases e with
    | notFound =>
      obtain rfl := Except.ok.inj h
      exact default_valid
    | full => cases h
    | ioError => cases h

theorem loaded_eq_corrupted : loaded r = .error .corrupted ↔ ∃ bytes, r = .ok bytes ∧ reader bytes = none := by
  cases r with
  | ok bytes =>
    rw [loaded, decode_eq, judged_eq_corrupted]
    simp
  | error e => cases e <;> simp [loaded]

theorem loaded_eq_ioError : loaded r = .error .ioError ↔ ∃ e, r = .error e ∧ e ≠ .notFound := by
  cases r with
  | ok bytes =>
    rw [loaded, decode_eq]
    simp [judged_ne_ioError]
  | error e => cases e <;> simp [loaded]

/-- What becomes of stored settings, whatever the store answers. -/
structure Loads (σ : Shelf κ) : Prop where
  valid (s : Settings) (h : (load σ).1 = .ok s) : s.validate = .ok ()
  corrupted_iff : (load σ).1 = .error .corrupted ↔
    ∃ bytes, (Storage.read space key maxStored σ.store).1 = .ok bytes ∧ reader bytes = none
  ioError_iff : (load σ).1 = .error .ioError ↔
    ∃ e, (Storage.read space key maxStored σ.store).1 = .error e ∧ e ≠ .notFound

theorem loads (σ : Shelf κ) : Loads σ where
  valid _ h := validate_of_loaded ((load_eq σ).symm.trans h)
  corrupted_iff := load_eq σ ▸ loaded_eq_corrupted
  ioError_iff := load_eq σ ▸ loaded_eq_ioError

end store

/-- Settings that the parts of the program can work with. -/
structure Usable (settings : Settings) : Prop where
  managed : Connectivity.new settings.networks = .ok { networks := settings.networks }
  published (i : Nat) (h : Connectivity.Published settings.networks i) : ∃ n, settings.networks.toList[i]? = some n
  served {ε κ τ : Type} [Surroundings ε] [Token κ τ] (s : Session) (d : Device ε κ τ) (hs : s.settings = settings)
    (hstart : ∀ i, d.signals.link.current = some i → Connectivity.Published settings.networks i)
    (hup : ∀ i, .acted (.linkUp i) ∈ (s.run d).2.journal.since d.journal →
      Connectivity.Published settings.networks i) :
    (s.run d).1.1 ≠ .fatal .stationDriver
  joined (n : Network) (hn : n ∈ settings.networks.toList) (host : Program.Host) (q : LinkQueue) :
    (Surroundings.apply n host).1 = .ok () ∧ (Surroundings.connect q (Surroundings.apply n host).2).1 = .ok ()

theorem usable (h : s.validate = .ok ()) : Usable s where
  managed := if_neg (networks_of_validate h).1
  published i hi := ⟨_, List.getElem?_eq_getElem hi.lt⟩
  served session d hs hstart hup := by
    subst hs
    exact session.run_knows_candidates d (fun i hi => (hstart i hi).lt) fun i hi => (hup i hi).lt
  joined n hn host q := by
    have hname := Network.name_ne_empty ((networks_of_validate h).2 n hn)
    exact ⟨rfl, Radio.connect_of_name hname host.radio q⟩

/-- Whatever is read or stored, settings are passed on only if they break no rule, and then every part of the program can
work with them. -/
theorem accepted_settings_are_usable :
    (∀ text, Parses text) ∧ (∀ (κ : Type) [Storage κ] (σ : Shelf κ), Loads σ) ∧
      ∀ s : Settings, s.validate = .ok () → Usable s :=
  ⟨parses, fun _ _ => loads, fun _ => usable⟩

/-- A fob whose link goes down and comes up again while the session waits to dial anew. -/
def reconnecting : Device Bench.Plan MemoryStore Bench.AnyToken where
  outside := { timed := [⟨100, .act .linkDown⟩, ⟨200, .act (.linkUp 0)⟩] }
  store := {}
  token := .scripted {}
  signals := ({} : Signals).linkUp 0
  dials := [.fails .connect]

theorem default_published : Connectivity.Published default.networks 0 := by
  let c : Connectivity := { networks := default.networks }
  have hwritten : linkWrites ((c.handleAll [.gotAddress] reconnecting).2.journal.since reconnecting.journal) =
      [.bump, .linkUp 0] := by decide +kernel
  have hup := Connectivity.linkUp_mem_linkWrites.1 (hwritten ▸ List.mem_cons_of_mem _ (List.mem_singleton_self _))
  exact ⟨Bench.Plan, MemoryStore, Bench.AnyToken, inferInstance, c, [.gotAddress], reconnecting,
    Connectivity.linkUntouched_plan, rfl, hup⟩

theorem default_serves_a_reconnecting_link :
    let s : Session := { settings := default }
    ofJson "[]" = .ok default ∧ Usable default ∧ (s.run reconnecting).1.1 ≠ .fatal .stationDriver := by
  intro s
  obtain ⟨hparses, -, husable⟩ := accepted_settings_are_usable
  have hread : ofJson "[]" = .ok default := by decide +kernel
  have hdefault : Usable default := husable default ((hparses "[]").valid default hread)
  refine ⟨hread, hdefault, hdefault.served s reconnecting rfl (fun i hi => ?_) fun i hi => ?_⟩
  · obtain rfl := Option.some.inj ((Link.current_setUp (by decide)).symm.trans hi)
    exact default_published
  · have hwritten : linkWrites ((s.run reconnecting).2.journal.since reconnecting.journal) = [.linkDown, .linkUp 0] := by
      decide +kernel
    have hmem := hwritten ▸ Connectivity.linkUp_mem_linkWrites.2 hi
    obtain rfl : i = 0 := by simpa using hmem
    exact default_published

end Settings

end Config

end KeyFob
