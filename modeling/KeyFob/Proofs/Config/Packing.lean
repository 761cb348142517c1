import KeyFob.Config.Stored
import KeyFob.Proofs.Packed

/-!
Settings in their packed form. Whatever settings are packed, reading gives them back, and however large their texts and
numbers are, they take 856 bytes at most.
-/

namespace KeyFob.Config

open Packed (Reads)

theorem utf8ByteSize_lt {max : Nat} (hmax : max < 2 ^ 64) (t : BoundedText max) : t.text.utf8ByteSize < 2 ^ 64 :=
  Nat.lt_of_le_of_lt t.fits hmax

theorem Network.reads (n : Network) : Reads Network.reader n.encode n := by
  unfold encode reader
  rw [List.append_assoc]
  refine (Packed.reads_text (utf8ByteSize_lt (by decide) n.name)).bind ?_
  rw [BoundedText.ofString?_text]
  refine (Packed.reads_text (utf8ByteSize_lt (by decide) n.password)).bind ?_
  rw [BoundedText.ofString?_text]
  refine (Packed.reads_byte n.peer.a).bind <| (Packed.reads_byte n.peer.b).bind <| (Packed.reads_byte n.peer.c).bind ?_
  exact (Packed.reads_byte n.peer.d).last (.pure n)

/-- A length byte, a name, a length byte, a password and an address. -/
theorem Network.length_encode_le (n : Network) : n.encode.length ≤ 102 := by
  have hname := Packed.length_encodeText_le (by decide) n.name.fits
  have hpassword := Packed.length_encodeText_le (by decide) n.password.fits
  simp only [encode, List.length_append, List.length_cons, List.length_nil]
  omega

namespace Settings

theorem reads (s : Settings) : Reads reader s.encode s := by
  unfold encode reader
  simp only [List.append_assoc]
  rw [← List.append_assoc]
  have hlength : s.networks.toList.length < 2 ^ 64 := Nat.lt_of_le_of_lt s.networks.fits (by decide)
  refine (Packed.reads_list _ s.networks.fits hlength fun n _ => n.reads).bind ?_
  rw [NetworkList.ofList?_toList]
  refine (Packed.reads_u16 s.peerPort).bind ?_
  refine (Packed.reads_u32 s.confirm.iterations).bind <| (Packed.reads_u32 s.confirm.halfPeriodMs).bind ?_
  refine (Packed.reads_u32 s.lockoutWarnThreshold).bind <| (Packed.reads_u32 s.connectBackoffMs).bind ?_
  refine (Packed.reads_u32 s.resetPollMs).bind <| (Packed.reads_u32 s.linkBlinkMs).bind ?_
  refine (Packed.reads_u32 s.restartCountdownSecs).bind ?_
  exact (Packed.reads_bool s.reinitOnRestoreFailure).last (.pure s)

/-- Packed settings are read as they were, and then held to the rules. -/
theorem decode_encode (s : Settings) : decode s.encode = s.validated := by
  have h := s.reads []
  rw [List.append_nil] at h
  rw [decode, h]

theorem length_u32_le (w : UInt32) : (Packed.encodeNat w.toNat).length ≤ 5 :=
  Packed.length_encodeNat_le 4 _ (Nat.lt_trans w.toNat_lt (by decide))

theorem length_encode_le (s : Settings) : s.encode.length ≤ 856 := by
  have hcount := Packed.length_encodeNat_le 0 s.networks.toList.length (Nat.lt_of_le_of_lt s.networks.fits (by decide))
  have hnetworks := Packed.length_flatMap_le s.networks.toList fun n _ => n.length_encode_le
  have hfits : s.networks.toList.length ≤ 8 := s.networks.fits
  have hport := Packed.length_encodeNat_le 2 s.peerPort.toNat (Nat.lt_trans s.peerPort.toNat_lt (by decide))
  have hiterations := length_u32_le s.confirm.iterations
  have hhalf := length_u32_le s.confirm.halfPeriodMs
  have hthreshold := length_u32_le s.lockoutWarnThreshold
  have hbackoff := length_u32_le s.connectBackoffMs
  have hpoll := length_u32_le s.resetPollMs
  have hblink := length_u32_le s.linkBlinkMs
  have hcountdown := length_u32_le s.restartCountdownSecs
  simp only [encode, List.length_append, List.length_cons, List.length_nil]
  omega

end Settings

end KeyFob.Config
