import TupleStone.Common.Bytes

/-! # CRC-32C -/

set_option autoImplicit false

namespace TupleStone

def reflectedPoly : UInt32 := 0x82F63B78

/-- An entry of the lookup table. -/
def crcTable (index : UInt32) : UInt32 :=
  (List.range 8).foldl (fun crc _ => if crc &&& 1 ≠ 0 then (crc >>> 1) ^^^ reflectedPoly else crc >>> 1) index

def crc32cExtend (priorCrc : UInt32) (data : Bytes) : UInt32 :=
  ~~~(data.foldl (fun crc byte => crcTable ((crc ^^^ byte.toUInt32) &&& 0xFF) ^^^ (crc >>> 8)) (~~~priorCrc))

def crc32c (data : Bytes) : UInt32 := crc32cExtend 0 data

example : crc32c (ascii "123456789") = 0xE3069283 := by decide +kernel

end TupleStone
