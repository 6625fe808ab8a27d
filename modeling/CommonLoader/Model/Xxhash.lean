import CommonLoader.Lib.Memory
import CommonLoader.Lib.CText

/-!
# XXH32

The hash behind the signature cache, the assembler symbol table and the name of
the store file, as `externals/xxhash.h` computes it: sixteen-byte stripes through
four lanes, then words, then bytes, then the avalanche.
-/

namespace CommonLoader

open ByteMemory CText

def xxhPrime32_1 : UInt32 := 0x9E3779B1
def xxhPrime32_2 : UInt32 := 0x85EBCA77
def xxhPrime32_3 : UInt32 := 0xC2B2AE3D
def xxhPrime32_4 : UInt32 := 0x27D4EB2F
def xxhPrime32_5 : UInt32 := 0x165667B1

def xxhRotl32 (x r : UInt32) : UInt32 := (x <<< r) ||| (x >>> (32 - r))

/-- `XXH_readLE32`: the word at the front of the input. -/
def xxhGet32bits (p : Bytes) : UInt32 := UInt32.ofNat (ofLeBytes (p.take 4))

def xxh32Round (acc input : UInt32) : UInt32 :=
  xxhRotl32 (acc + input * xxhPrime32_2) 13 * xxhPrime32_1

def xxh32Avalanche (hash : UInt32) : UInt32 :=
  let hash := (hash ^^^ (hash >>> 15)) * xxhPrime32_2
  let hash := (hash ^^^ (hash >>> 13)) * xxhPrime32_3
  hash ^^^ (hash >>> 16)

/-- `XXH_PROCESS4`, as often as a whole word is left. -/
def xxh32Process4 : Nat → UInt32 → Bytes → UInt32 × Bytes
  | 0, hash, ptr => (hash, ptr)
  | n + 1, hash, ptr =>
      xxh32Process4 n (xxhRotl32 (hash + xxhGet32bits ptr * xxhPrime32_3) 17 * xxhPrime32_4)
        (ptr.drop 4)

/-- `XXH_PROCESS1`. -/
def xxh32Process1 (hash : UInt32) (c : UInt8) : UInt32 :=
  xxhRotl32 (hash + c.toUInt32 * xxhPrime32_5) 11 * xxhPrime32_1

def xxh32Finalize (hash : UInt32) (ptr : Bytes) (len : Nat) : UInt32 :=
  let (hash, ptr) := xxh32Process4 (len / 4) hash ptr
  xxh32Avalanche ((ptr.take (len % 4)).foldl xxh32Process1 hash)

/-- The stripe loop of `XXH32_endian_align`: `n` stripes of sixteen bytes. -/
def xxh32Stripes : Nat → UInt32 → UInt32 → UInt32 → UInt32 → Bytes → UInt32 × Bytes
  | 0, v1, v2, v3, v4, input =>
      (xxhRotl32 v1 1 + xxhRotl32 v2 7 + xxhRotl32 v3 12 + xxhRotl32 v4 18, input)
  | n + 1, v1, v2, v3, v4, input =>
      xxh32Stripes n
        (xxh32Round v1 (xxhGet32bits input))
        (xxh32Round v2 (xxhGet32bits (input.drop 4)))
        (xxh32Round v3 (xxhGet32bits (input.drop 8)))
        (xxh32Round v4 (xxhGet32bits (input.drop 12)))
        (input.drop 16)

/-- `XXH32(input, input.length, seed)`. -/
def xxh32 (input : Bytes) (seed : UInt32) : UInt32 :=
  let len := input.length
  let (h32, rest) :=
    if 16 ≤ len then
      xxh32Stripes (len / 16) (seed + xxhPrime32_1 + xxhPrime32_2) (seed + xxhPrime32_2)
        seed (seed - xxhPrime32_1) input
    else (seed + xxhPrime32_5, input)
  xxh32Finalize (h32 + UInt32.ofNat len) rest (len % 16)

-- The published vectors, one below a stripe and one past two.
example : xxh32 (ascii "abc") 0 = 0x32D153FF := by decide +kernel
example : xxh32 (ascii "Nobody inspects the spammish repetition") 0 = 0xE2293B2F := by
  decide +kernel

end CommonLoader
