import KeyFob.Bytes

/-!
The two-byte status word that ends every card response.
-/

namespace KeyFob.Card

structure StatusWord where
  word : UInt16
deriving DecidableEq, Repr

namespace StatusWord

def success : StatusWord := ⟨0x9000⟩
def wrongLength : StatusWord := ⟨0x6700⟩
def securityStatusNotSatisfied : StatusWord := ⟨0x6982⟩

/-- Authentication blocked: the PIN has no retries left, or nobody confirmed in time. -/
def authMethodBlocked : StatusWord := ⟨0x6983⟩

def incorrectP1P2 : StatusWord := ⟨0x6A86⟩
def insNotSupported : StatusWord := ⟨0x6D00⟩
def claNotSupported : StatusWord := ⟨0x6E00⟩

def verifyFailed (retries : UInt8) : StatusWord := ⟨0x63C0 ||| (retries &&& 0x0F).toUInt16⟩

def toBytes (sw : StatusWord) : Bytes := beBytes sw.word

def ofBytes (hi lo : UInt8) : StatusWord := ⟨UInt16.ofNat (beWord hi lo)⟩

def text (sw : StatusWord) : String := Hex.word sw.word

theorem length_toBytes (sw : StatusWord) : sw.toBytes.length = 2 := rfl

end StatusWord

end KeyFob.Card
