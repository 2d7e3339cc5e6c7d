/-!
# Cyclic redundancy checks

The check of 32 bits that archives keep of their files: the remainder of the bytes, read as a
polynomial over the field of two elements with the lowest bits first, with all bits inverted at
the start and at the end.
-/

set_option autoImplicit false

namespace Bytescript.Binary

/-- The generator polynomial, with the lowest bits first. -/
def checkPolynomial : UInt32 := 0xedb88320

/-- One step of the division. -/
def checkBit (remainder : UInt32) : UInt32 :=
  if remainder &&& 1 = 1 then (remainder >>> 1) ^^^ checkPolynomial else remainder >>> 1

/-- Takes a byte into the remainder, in eight steps. -/
def checkByte (remainder : UInt32) (byte : UInt8) : UInt32 :=
  let mixed := remainder ^^^ byte.toUInt32
  checkBit (checkBit (checkBit (checkBit (checkBit (checkBit (checkBit (checkBit mixed)))))))

/-- The check of some bytes. -/
def checksum (bytes : List UInt8) : UInt32 := bytes.foldl checkByte 0xffffffff ^^^ 0xffffffff

end Bytescript.Binary
