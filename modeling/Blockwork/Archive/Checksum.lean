/-
The checksum an archive keeps of every entry: CRC-32 with the reflected polynomial, bit by bit.
-/
import Blockwork.Bytes

namespace Blockwork.Archive

/-- one bit of a checksum's remainder divided off -/
def remainderBit (crc : UInt32) : UInt32 :=
  if crc &&& 1 = 1 then (crc >>> 1) ^^^ 0xEDB88320 else crc >>> 1

/-- a checksum's remainder after one more byte -/
def remainderByte (crc : UInt32) (b : UInt8) : UInt32 :=
  remainderBit (remainderBit (remainderBit (remainderBit (remainderBit (remainderBit (remainderBit
    (remainderBit (crc ^^^ b.toUInt32))))))))

def checksum (bytes : Bytes) : UInt32 :=
  bytes.foldl remainderByte 0xFFFFFFFF ^^^ 0xFFFFFFFF

end Blockwork.Archive
