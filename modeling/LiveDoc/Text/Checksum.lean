/-!
# Checksums

The cyclic redundancy check of 32 bits with the reflected polynomial `0xEDB88320`, all bits of the
register set before and flipped after.
-/

set_option autoImplicit false
set_option relaxedAutoImplicit false

namespace LiveDoc.Text.Checksum

def shift (register : UInt32) : UInt32 :=
  if register &&& 1 = 1 then (register >>> 1) ^^^ 0xEDB88320 else register >>> 1

/-- Takes one byte into the register: its bits enter at the low end. -/
def feed (register : UInt32) (byte : UInt8) : UInt32 :=
  Nat.repeat shift 8 (register ^^^ byte.toUInt32)

def ofBytes (bytes : List UInt8) : UInt32 :=
  bytes.foldl feed 0xFFFFFFFF ^^^ 0xFFFFFFFF

def ofText (s : String) : UInt32 :=
  ofBytes s.toUTF8.toList

/-- A word in hexadecimal, lower case and without leading zeros. -/
def hex (word : UInt32) : String :=
  String.ofList (Nat.toDigits 16 word.toNat)

end LiveDoc.Text.Checksum
