/-! # Checksums

The 32-bit cyclic redundancy check of a sequence of bytes, lowest bit first.
-/
namespace Toolpath

/-- One bit of the remainder: the low bit decides whether the divisor is taken off. -/
def crcBit (remainder : UInt32) : UInt32 :=
  if remainder &&& 1 = 1 then (remainder >>> 1) ^^^ 0xEDB88320 else remainder >>> 1

/-- One byte of the message. -/
def crcByte (remainder : UInt32) (byte : UInt8) : UInt32 :=
  Nat.repeat crcBit 8 (remainder ^^^ byte.toUInt32)

def crc32 (bytes : List UInt8) : UInt32 := bytes.foldl crcByte 0xFFFFFFFF ^^^ 0xFFFFFFFF

end Toolpath
