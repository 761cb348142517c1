import KeyFob.Proofs.Token.Resuming

/-!
Chained parts. The token collects the data of a part and does nothing else with it, so by the time the last command comes
it stands where one command with all of the data would find it. What is collected never grows past the longest command
body: the part that would make it grow further is refused, and the chain with it.
-/

namespace KeyFob.SoftToken

open Card (Command Response)

variable {κ : Type} [Storage κ] {t : SoftToken} {c : Command}

theorem joinData?_of_le {chain data : Bytes} (h : (chain ++ data).length ≤ Card.maxData) :
    joinData? chain data = some (chain ++ data) :=
  if_pos (by rwa [List.length_append] at h)

theorem joinData?_of_lt {chain data : Bytes} (h : Card.maxData < (chain ++ data).length) :
    joinData? chain data = none :=
  if_neg (by rw [List.length_append] at h; omega)

theorem isChained_of_cla (h : c.cla = 0) : c.isChained = false := by
  rw [Command.isChained, h]
  rfl

/-- A part is collected, and all else stays as it is, the store and the notes included. -/
theorem process_part (hsecret : t.secret.isSome = true) (hc : c.isChained = true)
    (hfits : (t.chain ++ c.data).length ≤ Card.maxData) :
    (process c t : OnShelf κ _) = pure (.ofStatus .success, { t with chain := t.chain ++ c.data }) := by
  have hprovisioned := Option.isNone_eq_false_iff.2 hsecret
  unfold process
  simp only [hprovisioned, hc, joinData?_of_le hfits, Bool.false_eq_true, if_false, if_true]

/-- More data than a command may have is refused, in a part as in the last command, and the chain is dropped. -/
theorem process_overlong (hsecret : t.secret.isSome = true) (hc : c.isChained = true ∨ c.cla = 0)
    (hlong : Card.maxData < (t.chain ++ c.data).length) :
    (process c t : OnShelf κ _) = pure (.ofStatus .wrongLength, { t with chain := [] }) := by
  have hprovisioned := Option.isNone_eq_false_iff.2 hsecret
  unfold process
  rcases hc with hc | hc
  · simp only [hprovisioned, hc, joinData?_of_lt hlong, Bool.false_eq_true, if_false, if_true]
  · simp only [hprovisioned, isChained_of_cla hc, hc, joinData?_of_lt hlong, ne_eq, not_true_eq_false, Bool.false_eq_true,
      if_false]

/-- The last command is the one that has the collected data in front of its own. -/
theorem process_last (hsecret : t.secret.isSome = true) (hc : c.cla = 0)
    (hfits : (t.chain ++ c.data).length ≤ Card.maxData) :
    (process c t : OnShelf κ _) = process { c with data := t.chain ++ c.data } { t with chain := [] } := by
  have hprovisioned := Option.isNone_eq_false_iff.2 hsecret
  have hwhole : joinData? [] (t.chain ++ c.data) = some (t.chain ++ c.data) := joinData?_of_le hfits
  unfold process
  simp only [hprovisioned, isChained_of_cla hc, hc, joinData?_of_le hfits, hwhole, ne_eq, not_true_eq_false,
    Bool.false_eq_true, if_false]
  rfl

theorem makeAll_append (calls calls' : List Call) (t : SoftToken) :
    (makeAll (calls ++ calls') t : OnShelf κ _) = do
      let (answers, t) ← makeAll calls t
      let (answers', t) ← makeAll calls' t
      return (answers ++ answers', t) := by
  induction calls generalizing t with
  | nil => rfl
  | cons call calls ih =>
    simp only [List.cons_append, makeAll, ih]
    rfl

/-- All parts are collected one behind the other, as long as they fit. -/
theorem makeAll_parts (hsecret : t.secret.isSome = true) {parts : List Command}
    (hparts : ∀ p ∈ parts, p.isChained = true)
    (hfits : (t.chain ++ parts.flatMap Command.data).length ≤ Card.maxData) :
    (makeAll (parts.map .process) t : OnShelf κ _) =
      pure (parts.map fun _ => some (.ofStatus .success), { t with chain := t.chain ++ parts.flatMap Command.data }) := by
  induction parts generalizing t with
  | nil => simp [makeAll]
  | cons p parts ih =>
    rw [List.forall_mem_cons] at hparts
    rw [List.flatMap_cons, ← List.append_assoc] at hfits
    have hfirst : (t.chain ++ p.data).length ≤ Card.maxData := by
      rw [List.length_append] at hfits
      omega
    have hrest := ih (t := { t with chain := t.chain ++ p.data }) hsecret hparts.2 hfits
    simp only [List.map_cons, makeAll, Call.make, process_part hsecret hparts.1 hfirst, pure_bind, hrest]
    simp

/-- Data that comes in parts is answered as if it had come whole: each part is taken with `90 00`, and the command behind
them has the answer, and leaves the token, the store and the notes, that one command with all of the data would. A part
or a command behind it that makes the data too long is refused with `67 00`, and the chain is empty behind it. -/
theorem parts_stand_for_the_whole (hsecret : t.secret.isSome = true) (parts : List Command) (next : Command)
    (hparts : ∀ p ∈ parts, p.isChained = true) :
    (t.chain = [] → next.cla = 0 → (parts.flatMap Command.data ++ next.data).length ≤ Card.maxData →
      (makeAll ((parts ++ [next]).map .process) t : OnShelf κ _) = do
        let (response, t) ← process { next with data := parts.flatMap Command.data ++ next.data } t
        return (parts.map (fun _ => some ⟨[0x90, 0x00]⟩) ++ [some response], t)) ∧
    ((t.chain ++ parts.flatMap Command.data).length ≤ Card.maxData → next.isChained = true ∨ next.cla = 0 →
      Card.maxData < (t.chain ++ parts.flatMap Command.data ++ next.data).length →
      (makeAll ((parts ++ [next]).map .process) t : OnShelf κ _) =
        pure (parts.map (fun _ => some ⟨[0x90, 0x00]⟩) ++ [some ⟨[0x67, 0x00]⟩], { t with chain := [] })) := by
  constructor
  · intro hempty hlast hfits
    have hcollected : (t.chain ++ parts.flatMap Command.data).length ≤ Card.maxData := by
      rw [List.length_append] at hfits
      rw [hempty, List.nil_append]
      omega
    have hsame : { t with chain := [] } = t := by rw [← hempty]
    have hprocess : (process next { t with chain := t.chain ++ parts.flatMap Command.data } : OnShelf κ _) =
        process { next with data := parts.flatMap Command.data ++ next.data } t := by
      rw [hempty, List.nil_append,
        process_last (t := { t with chain := parts.flatMap Command.data }) hsecret hlast hfits, hsame]
    rw [List.map_append, makeAll_append, makeAll_parts hsecret hparts hcollected]
    simp only [List.map_cons, List.map_nil, makeAll, Call.make, pure_bind, bind_assoc, hprocess]
    rfl
  · intro hcollected hlast hlong
    have hprocess : (process next { t with chain := t.chain ++ parts.flatMap Command.data } : OnShelf κ _) = _ :=
      process_overlong hsecret hlast hlong
    rw [List.map_append, makeAll_append, makeAll_parts hsecret hparts hcollected]
    simp only [List.map_cons, List.map_nil, makeAll, Call.make, pure_bind, hprocess]
    rfl

/-- A token that has been given its secrets. -/
def holding (secret : Bytes) : SoftToken := { secret := some secret, pin := defaultPin, entropy := .scrambled 7 }

/-- The PIN comes in three parts, one of them empty, and then two parts that are too long together. -/
theorem pin_in_parts_stands_for_the_whole :
    let t := holding (List.replicate 32 0x55)
    let parts : List Command := [⟨0x10, 0x20, 0, 0, [0x31, 0x32, 0x33], 0⟩, ⟨0x10, 0xFF, 1, 2, [], 5⟩]
    let last : Command := ⟨0, 0x20, 0, 0x81, [0x34, 0x35, 0x36], 0⟩
    let long : Command := ⟨0, 0x88, 0, 0, List.replicate 1022 0x39, 0⟩
    t.secret.isSome = true ∧ (∀ p ∈ parts, p.isChained = true) ∧ t.chain = [] ∧ last.cla = 0 ∧
      (parts.flatMap Command.data ++ last.data).length ≤ Card.maxData ∧
      (makeAll ((parts ++ [last]).map .process) t : OnShelf MemoryStore _) =
        (do
          let (response, t) ← process { last with data := defaultPin } t
          return ([some ⟨[0x90, 0x00]⟩, some ⟨[0x90, 0x00]⟩, some response], t)) ∧
      Card.maxData < (t.chain ++ parts.flatMap Command.data ++ long.data).length ∧
      (makeAll ((parts ++ [long]).map .process) t : OnShelf MemoryStore _) =
        pure ([some ⟨[0x90, 0x00]⟩, some ⟨[0x90, 0x00]⟩, some ⟨[0x67, 0x00]⟩], { t with chain := [] }) := by
  intro t parts last long
  have hsecret : t.secret.isSome = true := rfl
  have hparts : ∀ p ∈ parts, p.isChained = true := by decide
  have hfits : (parts.flatMap Command.data ++ last.data).length ≤ Card.maxData := by decide
  have hcollected : (t.chain ++ parts.flatMap Command.data).length ≤ Card.maxData := by decide
  have hlong : Card.maxData < (t.chain ++ parts.flatMap Command.data ++ long.data).length := by
    rw [List.length_append, List.length_replicate]
    decide
  refine ⟨hsecret, hparts, rfl, rfl, hfits, ?_, hlong, ?_⟩
  · exact (parts_stand_for_the_whole hsecret parts last hparts).1 rfl rfl hfits
  · exact (parts_stand_for_the_whole hsecret parts long hparts).2 hcollected (Or.inr rfl) hlong

end KeyFob.SoftToken
