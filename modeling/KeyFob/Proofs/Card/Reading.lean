import KeyFob.Card.Layout

/-!
Reading a command undoes laying it out. `LaidOut` says that a message is a header with a well-formed body; the reader
accepts just these messages, up to the bound on the data, and tells the rest apart. The two ways of writing a command,
with short and with extended length fields, are each read back.
-/

namespace KeyFob.Card

namespace Layout

def isExtended : Layout → Bool
  | extendedLe _ _ | extendedData _ _ _ | extendedDataLe _ _ _ _ _ => true
  | _ => false

theorem take_drop {n : Nat} {data : Bytes} (h : data.length = n) (tail : Bytes) :
    (data ++ tail).take n = data ∧ (data ++ tail).drop n = tail := by
  subst h
  exact ⟨List.take_left, List.drop_left⟩

/-- A body of so many data bytes with a field behind them. -/
theorem split_at_length {n : Nat} {tail field : Bytes} (h : tail.drop n = field) (hf : field ≠ []) :
    (tail.take n).length = n ∧ tail = tail.take n ++ field := by
  have hlt : n < tail.length := Nat.lt_of_not_le fun hle => hf (h.symm.trans (List.drop_eq_nil_of_le hle))
  refine ⟨List.length_take_of_le (Nat.le_of_lt hlt), ?_⟩
  rw [← h, List.take_append_drop]

/-- What may follow the first length word of an extended body. -/
theorem ofExtended?_eq_some {hi lo : UInt8} {tail : Bytes} {l : Layout} :
    ofExtended? hi lo tail = some l ↔ l.isExtended = true ∧ l.WellFormed ∧ 0 :: hi :: lo :: tail = l.encode := by
  unfold ofExtended?
  constructor
  · intro h
    dsimp only at h
    split at h
    · next ht =>
      obtain rfl := Option.some.inj h
      exact ⟨rfl, trivial, by rw [ht]; rfl⟩
    split at h
    · cases h
    next hn =>
    split at h
    · next hlen =>
      obtain rfl := Option.some.inj h
      exact ⟨rfl, ⟨hn, hlen⟩, rfl⟩
    split at h
    · next leHi leLo hdrop =>
      obtain rfl := Option.some.inj h
      obtain ⟨hlen, htail⟩ := split_at_length hdrop (List.cons_ne_nil _ _)
      refine ⟨rfl, ⟨hn, hlen⟩, ?_⟩
      rw [encode, ← htail]
    · cases h
  · rintro ⟨hext, hwf, he⟩
    cases l with
    | extendedLe hi' lo' =>
      obtain ⟨rfl, rfl, rfl⟩ : hi = hi' ∧ lo = lo' ∧ tail = [] := by simpa [encode] using he
      rfl
    | extendedData hi' lo' d =>
      obtain ⟨rfl, rfl, rfl⟩ : hi = hi' ∧ lo = lo' ∧ tail = d := by simpa [encode] using he
      obtain ⟨hn, hlen⟩ := hwf
      have hne : tail ≠ [] := by
        rintro rfl
        exact hn hlen.symm
      simp only [hne, hn, hlen, if_false, if_true]
    | extendedDataLe hi' lo' d leHi leLo =>
      obtain ⟨rfl, rfl, rfl⟩ : hi = hi' ∧ lo = lo' ∧ tail = d ++ [leHi, leLo] := by simpa [encode] using he
      obtain ⟨hn, hlen⟩ := hwf
      obtain ⟨htake, hdrop⟩ := take_drop hlen [leHi, leLo]
      have hne : d ++ [leHi, leLo] ≠ [] := by simp
      have hlen' : (d ++ [leHi, leLo]).length ≠ beWord hi lo := by
        rw [List.length_append, hlen]
        simp
      simp only [hne, hn, hlen', hdrop, htake, if_false]
    | _ => cases hext

theorem ne_nil_of_length {b : UInt8} {data : Bytes} (hb : b ≠ 0) (h : data.length = b.toNat) : data ≠ [] := by
  rintro rfl
  exact hb (UInt8.toNat_inj.1 h.symm)

/-- What the reader finds is well-formed and is the body it was given. -/
theorem wellFormed_of_ofBytes? {body : Bytes} {l : Layout} (h : ofBytes? body = some l) :
    l.WellFormed ∧ body = l.encode := by
  match body with
  | [] =>
    obtain rfl := Option.some.inj h
    exact ⟨trivial, rfl⟩
  | [le] =>
    obtain rfl := Option.some.inj h
    exact ⟨trivial, rfl⟩
  | b :: x :: rest =>
    simp only [ofBytes?] at h
    split at h
    · next hb =>
      subst hb
      cases rest with
      | nil => cases h
      | cons lo tail => exact (ofExtended?_eq_some.1 h).2
    next hb =>
    split at h
    · next hlen =>
      obtain rfl := Option.some.inj h
      exact ⟨⟨hb, hlen⟩, rfl⟩
    split at h
    · next le hdrop =>
      obtain rfl := Option.some.inj h
      obtain ⟨hlen, hrest⟩ := split_at_length hdrop (List.cons_ne_nil _ _)
      refine ⟨⟨hb, hlen⟩, ?_⟩
      rw [encode, ← hrest]
    · cases h

/-- The reader finds every well-formed layout. -/
theorem ofBytes?_encode {l : Layout} (h : l.WellFormed) : ofBytes? l.encode = some l := by
  cases l with
  | bare => rfl
  | shortLe => rfl
  | shortData lc data =>
    obtain ⟨hlc, hlen⟩ := h
    cases data with
    | nil => exact absurd rfl (ne_nil_of_length hlc hlen)
    | cons x data => simp only [encode, ofBytes?, hlc, hlen, if_false, if_true]
  | shortDataLe lc data le =>
    obtain ⟨hlc, hlen⟩ := h
    obtain ⟨htake, hdrop⟩ := take_drop hlen [le]
    have hlen' : (data ++ [le]).length ≠ lc.toNat := by
      rw [List.length_append, hlen]
      simp
    cases data with
    | nil => exact absurd rfl (ne_nil_of_length hlc hlen)
    | cons x data =>
      rw [List.cons_append] at htake hdrop hlen'
      simp only [encode, List.cons_append, ofBytes?, hlc, hlen', hdrop, htake, if_false]
  | extendedLe hi lo => exact ofExtended?_eq_some.2 ⟨rfl, h, rfl⟩
  | extendedData hi lo data => exact ofExtended?_eq_some.2 ⟨rfl, h, rfl⟩
  | extendedDataLe hi lo data leHi leLo => exact ofExtended?_eq_some.2 ⟨rfl, h, rfl⟩

/-- Short length fields do not reach far. -/
theorem data_length_of_short {l : Layout} (h : l.WellFormed) (hshort : l.isExtended = false) : l.data.length ≤ 255 := by
  cases l with
  | shortData lc data =>
    have := lc.toNat_lt
    have := h.2
    simp only [Layout.data]
    omega
  | shortDataLe lc data le =>
    have := lc.toNat_lt
    have := h.2
    simp only [Layout.data]
    omega
  | bare => simp [Layout.data]
  | shortLe => simp [Layout.data]
  | _ => cases hshort

end Layout

/-- A message that is a header with a well-formed body, and the command that it stands for. -/
structure LaidOut (raw : Bytes) (c : Command) (l : Layout) : Prop where
  wellFormed : l.WellFormed
  raw_eq : raw = c.cla :: c.ins :: c.p1 :: c.p2 :: l.encode
  p1p2_eq : c.p1p2 = 256 * c.p1.toNat + c.p2.toNat
  data_eq : c.data = l.data
  lc_eq : c.lc = l.data.length
  le_eq : c.le = l.le

theorem laidOut_of_wellFormed {l : Layout} (cla ins p1 p2 : UInt8) (h : l.WellFormed) :
    LaidOut (cla :: ins :: p1 :: p2 :: l.encode) ⟨cla, ins, p1, p2, l.data, l.le⟩ l :=
  ⟨h, rfl, rfl, rfl, rfl, rfl⟩

namespace Command

theorem parse?_of_laidOut {raw : Bytes} {c : Command} {l : Layout} (h : LaidOut raw c l) :
    parse? raw = if c.data.length ≤ maxData then .ok c else .error .dataTooLong := by
  obtain ⟨hwf, rfl, -, hdata, -, hle⟩ := h
  simp only [parse?, Layout.ofBytes?_encode hwf, ← hdata, ← hle]

theorem parse?_of_length {raw : Bytes} (h : 1 ≤ raw.length) (h' : raw.length ≤ 3) : parse? raw = .error .tooShort := by
  match raw with
  | [_] => rfl
  | [_, _] => rfl
  | [_, _, _] => rfl

/-- What a message may be. -/
theorem message_cases (raw : Bytes) :
    raw = [] ∨ (1 ≤ raw.length ∧ raw.length ≤ 3) ∨ (∃ c l, LaidOut raw c l) ∨
      (4 ≤ raw.length ∧ (∀ c l, ¬ LaidOut raw c l) ∧ parse? raw = .error .lengthMismatch) := by
  match raw with
  | [] => exact Or.inl rfl
  | [_] => exact Or.inr (Or.inl ⟨by simp, by simp⟩)
  | [_, _] => exact Or.inr (Or.inl ⟨by simp, by simp⟩)
  | [_, _, _] => exact Or.inr (Or.inl ⟨by simp, by simp⟩)
  | cla :: ins :: p1 :: p2 :: body =>
    cases hl : Layout.ofBytes? body with
    | some l =>
      obtain ⟨hwf, rfl⟩ := Layout.wellFormed_of_ofBytes? hl
      exact Or.inr (Or.inr (Or.inl ⟨_, l, laidOut_of_wellFormed cla ins p1 p2 hwf⟩))
    | none =>
      refine Or.inr (Or.inr (Or.inr ⟨by simp, fun c l h => ?_, by simp only [parse?, hl]⟩))
      obtain ⟨hwf, hraw, -⟩ := h
      obtain rfl : body = l.encode := by simp_all
      cases hl.symm.trans (Layout.ofBytes?_encode hwf)

theorem parse?_eq_ok {raw : Bytes} {c : Command} :
    parse? raw = .ok c ↔ (raw = [] ∧ c = none) ∨ (∃ l, LaidOut raw c l) ∧ c.data.length ≤ maxData := by
  constructor
  · intro h
    rcases message_cases raw with rfl | ⟨h₁, h₃⟩ | ⟨c', l, hl⟩ | ⟨-, -, he⟩
    · exact Or.inl ⟨rfl, (Except.ok.inj h).symm⟩
    · cases h.symm.trans (parse?_of_length h₁ h₃)
    · rw [parse?_of_laidOut hl] at h
      split at h
      · next hd =>
        obtain rfl := Except.ok.inj h
        exact Or.inr ⟨⟨l, hl⟩, hd⟩
      · cases h
    · cases h.symm.trans he
  · rintro (⟨rfl, rfl⟩ | ⟨⟨l, hl⟩, hd⟩)
    · rfl
    · rw [parse?_of_laidOut hl, if_pos hd]

theorem parse?_eq_tooShort {raw : Bytes} : parse? raw = .error .tooShort ↔ 1 ≤ raw.length ∧ raw.length ≤ 3 := by
  constructor
  · intro h
    rcases message_cases raw with rfl | hlen | ⟨c, l, hl⟩ | ⟨-, -, he⟩
    · cases h
    · exact hlen
    · rw [parse?_of_laidOut hl] at h
      split at h <;> cases h
    · cases h.symm.trans he
  · exact fun h => parse?_of_length h.1 h.2

theorem parse?_eq_dataTooLong {raw : Bytes} :
    parse? raw = .error .dataTooLong ↔ ∃ c l, LaidOut raw c l ∧ l.isExtended = true ∧ maxData < l.data.length := by
  constructor
  · intro h
    rcases message_cases raw with rfl | ⟨h₁, h₃⟩ | ⟨c, l, hl⟩ | ⟨-, -, he⟩
    · cases h
    · cases h.symm.trans (parse?_of_length h₁ h₃)
    · rw [parse?_of_laidOut hl] at h
      split at h
      · cases h
      next hd =>
      rw [hl.data_eq] at hd
      refine ⟨c, l, hl, ?_, Nat.lt_of_not_le hd⟩
      cases hext : l.isExtended with
      | true => rfl
      | false => exact absurd (Nat.le_trans (Layout.data_length_of_short hl.wellFormed hext) (by decide)) hd
    · cases h.symm.trans he
  · rintro ⟨c, l, hl, -, hd⟩
    rw [parse?_of_laidOut hl, hl.data_eq, if_neg (Nat.not_le_of_lt hd)]

theorem parse?_eq_lengthMismatch {raw : Bytes} :
    parse? raw = .error .lengthMismatch ↔ 4 ≤ raw.length ∧ ∀ c l, ¬ LaidOut raw c l := by
  constructor
  · intro h
    rcases message_cases raw with rfl | ⟨h₁, h₃⟩ | ⟨c, l, hl⟩ | ⟨h₄, hnone, -⟩
    · cases h
    · cases h.symm.trans (parse?_of_length h₁ h₃)
    · rw [parse?_of_laidOut hl] at h
      split at h <;> cases h
    · exact ⟨h₄, hnone⟩
  · rintro ⟨h₄, hnone⟩
    rcases message_cases raw with rfl | ⟨-, h₃⟩ | ⟨c, l, hl⟩ | ⟨-, -, he⟩
    · cases h₄
    · omega
    · exact absurd hl (hnone c l)
    · exact he

theorem parse_of_ok {raw : Bytes} {c : Command} (h : parse? raw = .ok c) : parse raw = c := by
  rw [parse, h]

theorem parse_of_error {raw : Bytes} {e : ParseError} (h : parse? raw = .error e) : parse raw = none := by
  rw [parse, h]

theorem eq_bare_of_empty {l : Layout} (h : l.WellFormed) (hdata : l.data = []) (hle : l.le = 0) : l = .bare := by
  have hshort : ∀ b, shortLength b ≠ 0 := by
    intro b h0
    unfold shortLength at h0
    split at h0
    · cases h0
    · next hb => exact hb (UInt8.toNat_inj.1 h0)
  have hextended : ∀ hi lo, extendedLength hi lo ≠ 0 := by
    intro hi lo h0
    unfold extendedLength at h0
    split at h0
    · cases h0
    · next hn => exact hn h0
  cases l with
  | bare => rfl
  | shortLe b => exact absurd hle (hshort b)
  | extendedLe hi lo => exact absurd hle (hextended hi lo)
  | shortData lc data => exact absurd hdata (Layout.ne_nil_of_length h.1 h.2)
  | shortDataLe lc data b => exact absurd hle (hshort b)
  | extendedData hi lo data =>
    obtain rfl : data = [] := hdata
    exact absurd h.2.symm h.1
  | extendedDataLe hi lo data leHi leLo => exact absurd hle (hextended leHi leLo)

/-- The only messages that read as no command without being rejected are the empty one and a header of zeros. -/
theorem parse_eq_none {raw : Bytes} :
    parse raw = none ↔ (∃ e, parse? raw = .error e) ∨ raw = [] ∨ raw = [0, 0, 0, 0] := by
  constructor
  · intro h
    cases hp : parse? raw with
    | error e => exact Or.inl ⟨e, rfl⟩
    | ok c =>
      obtain rfl : c = none := (parse_of_ok hp).symm.trans h
      rcases parse?_eq_ok.1 hp with ⟨rfl, -⟩ | ⟨⟨l, hl⟩, -⟩
      · exact Or.inr (Or.inl rfl)
      · obtain rfl := eq_bare_of_empty hl.wellFormed hl.data_eq.symm hl.le_eq.symm
        exact Or.inr (Or.inr hl.raw_eq)
  · rintro (⟨e, he⟩ | rfl | rfl)
    · exact parse_of_error he
    · rfl
    · rfl

def write (c : Command) (l : Layout) : Bytes := c.cla :: c.ins :: c.p1 :: c.p2 :: l.encode

/-- One byte for a length. 256 is written as 0. -/
def lengthByte (n : Nat) : UInt8 := UInt8.ofNat n

def lengthHi (n : Nat) : UInt8 := UInt8.ofNat (n / 256)

/-- With short length fields, each left out where there is nothing to count. -/
def shortLayout (c : Command) : Layout :=
  match c.data, c.le with
  | [], 0 => .bare
  | [], le => .shortLe (lengthByte le)
  | data, 0 => .shortData (lengthByte data.length) data
  | data, le => .shortDataLe (lengthByte data.length) data (lengthByte le)

/-- With extended length fields. A command without either field has none to extend. -/
def extendedLayout (c : Command) : Layout :=
  match c.data, c.le with
  | [], 0 => .bare
  | [], le => .extendedLe (lengthHi le) (lengthByte le)
  | data, 0 => .extendedData (lengthHi data.length) (lengthByte data.length) data
  | data, le =>
    .extendedDataLe (lengthHi data.length) (lengthByte data.length) data (lengthHi le) (lengthByte le)

theorem lengthByte_toNat {n : Nat} (h : n < 256) : (lengthByte n).toNat = n := UInt8.toNat_ofNat_of_lt' h

theorem shortLength_lengthByte {n : Nat} (h : n ≠ 0) (h' : n ≤ 256) : shortLength (lengthByte n) = n := by
  rcases Nat.lt_or_eq_of_le h' with hlt | rfl
  · have hn : lengthByte n ≠ 0 := fun h0 => h (by rw [← lengthByte_toNat hlt, h0]; rfl)
    rw [shortLength, if_neg hn, lengthByte_toNat hlt]
  · rfl

theorem beWord_lengthBytes (n : Nat) : beWord (lengthHi n) (lengthByte n) = n % 65536 := by
  simp only [beWord, lengthHi, lengthByte, UInt8.toNat_ofNat']
  omega

theorem extendedLength_lengthBytes {n : Nat} (h : n ≠ 0) (h' : n ≤ 65536) :
    extendedLength (lengthHi n) (lengthByte n) = n := by
  rw [extendedLength, beWord_lengthBytes]
  split <;> omega

theorem laidOut_write {c : Command} {l : Layout} (hwf : l.WellFormed) (hdata : c.data = l.data) (hle : c.le = l.le) :
    LaidOut (c.write l) c l :=
  ⟨hwf, rfl, rfl, hdata, congrArg List.length hdata, hle⟩

theorem laidOut_shortLayout {c : Command} (hdata : c.data.length ≤ 255) (hle : c.le ≤ 256) :
    LaidOut (c.write c.shortLayout) c c.shortLayout := by
  have counts : ∀ {x : UInt8} {data : Bytes}, (x :: data).length ≤ 255 →
      lengthByte (x :: data).length ≠ 0 ∧ (x :: data).length = (lengthByte (x :: data).length).toNat := by
    intro x data h
    have hlen := lengthByte_toNat (Nat.lt_succ_of_le h)
    refine ⟨fun h0 => ?_, hlen.symm⟩
    rw [h0] at hlen
    cases hlen
  obtain ⟨cla, ins, p1, p2, data, le⟩ := c
  cases data with
  | nil =>
    cases le with
    | zero => exact laidOut_write trivial rfl rfl
    | succ le => exact laidOut_write trivial rfl (shortLength_lengthByte (Nat.succ_ne_zero le) hle).symm
  | cons x data =>
    cases le with
    | zero => exact laidOut_write (counts hdata) rfl rfl
    | succ le =>
      exact laidOut_write (counts hdata) rfl (shortLength_lengthByte (Nat.succ_ne_zero le) hle).symm

theorem laidOut_extendedLayout {c : Command} (hdata : c.data.length ≤ maxData) (hle : c.le ≤ 65536) :
    LaidOut (c.write c.extendedLayout) c c.extendedLayout := by
  have counts : ∀ {x : UInt8} {data : Bytes}, (x :: data).length ≤ maxData →
      beWord (lengthHi (x :: data).length) (lengthByte (x :: data).length) ≠ 0 ∧
        (x :: data).length = beWord (lengthHi (x :: data).length) (lengthByte (x :: data).length) := by
    intro x data h
    have hlt : (x :: data).length < 65536 := Nat.lt_of_le_of_lt h (by decide)
    rw [beWord_lengthBytes, Nat.mod_eq_of_lt hlt]
    exact ⟨nofun, rfl⟩
  obtain ⟨cla, ins, p1, p2, data, le⟩ := c
  cases data with
  | nil =>
    cases le with
    | zero => exact laidOut_write trivial rfl rfl
    | succ le => exact laidOut_write trivial rfl (extendedLength_lengthBytes (Nat.succ_ne_zero le) hle).symm
  | cons x data =>
    cases le with
    | zero => exact laidOut_write (counts hdata) rfl rfl
    | succ le =>
      exact laidOut_write (counts hdata) rfl (extendedLength_lengthBytes (Nat.succ_ne_zero le) hle).symm

/-- Reading a message undoes writing it: a message is read just as it was laid out, if it was, and each of three faults
has its cause. Either way of writing a command is read back. -/
theorem reading_undoes_writing :
    (∀ raw c, parse? raw = .ok c ↔ (raw = [] ∧ c = none) ∨ (∃ l, LaidOut raw c l) ∧ c.data.length ≤ maxData) ∧
    (∀ raw, parse? raw = .error .tooShort ↔ 1 ≤ raw.length ∧ raw.length ≤ 3) ∧
    (∀ raw, parse? raw = .error .dataTooLong ↔
      ∃ c l, LaidOut raw c l ∧ l.isExtended = true ∧ maxData < l.data.length) ∧
    (∀ raw, parse? raw = .error .lengthMismatch ↔ 4 ≤ raw.length ∧ ∀ c l, ¬ LaidOut raw c l) ∧
    (∀ raw c, parse? raw = .ok c → parse raw = c) ∧
    (∀ raw e, parse? raw = .error e → parse raw = none) ∧
    (∀ c : Command, c.data.length ≤ 255 → c.le ≤ 256 → parse? (c.write c.shortLayout) = .ok c) ∧
    ∀ c : Command, c.data.length ≤ maxData → c.le ≤ 65536 → parse? (c.write c.extendedLayout) = .ok c := by
  refine ⟨fun _ _ => parse?_eq_ok, fun _ => parse?_eq_tooShort, fun _ => parse?_eq_dataTooLong,
    fun _ => parse?_eq_lengthMismatch, fun _ _ => parse_of_ok, fun _ _ => parse_of_error, ?_, ?_⟩
  · intro c hdata hle
    have hfits : c.data.length ≤ maxData := Nat.le_trans hdata (by decide)
    exact parse?_eq_ok.2 (Or.inr ⟨⟨_, laidOut_shortLayout hdata hle⟩, hfits⟩)
  · intro c hdata hle
    exact parse?_eq_ok.2 (Or.inr ⟨⟨_, laidOut_extendedLayout hdata hle⟩, hdata⟩)

end Command

end KeyFob.Card
