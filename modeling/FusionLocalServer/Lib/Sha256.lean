import Mathlib.Algebra.Group.Nat.Defs
import FusionLocalServer.Lib.Utf8

/-!
# SHA-256

The hash of FIPS 180-4 over byte strings, and its hexadecimal text. Words are 32-bit and
wrap.
-/

namespace Lib.Sha256

/-- The first 32 bits of the fractional parts of the cube roots of the first 64 primes. -/
def roundConstants : List UInt32 :=
  [0x428a2f98, 0x71374491, 0xb5c0fbcf, 0xe9b5dba5, 0x3956c25b, 0x59f111f1, 0x923f82a4, 0xab1c5ed5,
   0xd807aa98, 0x12835b01, 0x243185be, 0x550c7dc3, 0x72be5d74, 0x80deb1fe, 0x9bdc06a7, 0xc19bf174,
   0xe49b69c1, 0xefbe4786, 0x0fc19dc6, 0x240ca1cc, 0x2de92c6f, 0x4a7484aa, 0x5cb0a9dc, 0x76f988da,
   0x983e5152, 0xa831c66d, 0xb00327c8, 0xbf597fc7, 0xc6e00bf3, 0xd5a79147, 0x06ca6351, 0x14292967,
   0x27b70a85, 0x2e1b2138, 0x4d2c6dfc, 0x53380d13, 0x650a7354, 0x766a0abb, 0x81c2c92e, 0x92722c85,
   0xa2bfe8a1, 0xa81a664b, 0xc24b8b70, 0xc76c51a3, 0xd192e819, 0xd6990624, 0xf40e3585, 0x106aa070,
   0x19a4c116, 0x1e376c08, 0x2748774c, 0x34b0bcb5, 0x391c0cb3, 0x4ed8aa4a, 0x5b9cca4f, 0x682e6ff3,
   0x748f82ee, 0x78a5636f, 0x84c87814, 0x8cc70208, 0x90befffa, 0xa4506ceb, 0xbef9a3f7, 0xc67178f2]

/-- The eight words the hash goes through. -/
structure State where
  (a b c d e f g h : UInt32)

/-- The first 32 bits of the fractional parts of the square roots of the first 8 primes. -/
def initial : State :=
  ⟨0x6a09e667, 0xbb67ae85, 0x3c6ef372, 0xa54ff53a, 0x510e527f, 0x9b05688c, 0x1f83d9ab, 0x5be0cd19⟩

def rotr (x n : UInt32) : UInt32 := (x >>> n) ||| (x <<< (32 - n))

/-- One round, with its constant and its word of the message. -/
def round (s : State) (k w : UInt32) : State :=
  let s1 := rotr s.e 6 ^^^ rotr s.e 11 ^^^ rotr s.e 25
  let ch := (s.e &&& s.f) ^^^ (~~~s.e &&& s.g)
  let t1 := s.h + s1 + ch + k + w
  let s0 := rotr s.a 2 ^^^ rotr s.a 13 ^^^ rotr s.a 22
  let maj := (s.a &&& s.b) ^^^ (s.a &&& s.c) ^^^ (s.b &&& s.c)
  ⟨t1 + (s0 + maj), s.a, s.b, s.c, s.d + t1, s.e, s.f, s.g⟩

/-- The words of the message that follow sixteen of them, one for each step. -/
def extend : Nat → List UInt32 → List UInt32
  | 0, _ => []
  | n + 1, ws =>
    let w2 := ws.getD 14 0
    let w15 := ws.getD 1 0
    let s0 := rotr w15 7 ^^^ rotr w15 18 ^^^ (w15 >>> 3)
    let s1 := rotr w2 17 ^^^ rotr w2 19 ^^^ (w2 >>> 10)
    let w := ws.getD 0 0 + s0 + ws.getD 9 0 + s1
    w :: extend n (ws.drop 1 ++ [w])

def compress (s : State) (block : List UInt32) : State :=
  let out := (roundConstants.zip (block ++ extend 48 block)).foldl (fun s kw => round s kw.1 kw.2) s
  ⟨s.a + out.a, s.b + out.b, s.c + out.c, s.d + out.d,
   s.e + out.e, s.f + out.f, s.g + out.g, s.h + out.h⟩

/-- Big-endian words. -/
def words : List UInt8 → List UInt32
  | a :: b :: c :: d :: rest =>
    (a.toUInt32 <<< 24 ||| b.toUInt32 <<< 16 ||| c.toUInt32 <<< 8 ||| d.toUInt32) :: words rest
  | _ => []

/-- The message with a one bit, zeros and its length in bits behind it: whole blocks. -/
def pad (data : List UInt8) : List UInt8 :=
  let zeros := (119 - data.length % 64) % 64
  let bits := 8 * data.length
  data ++ 0x80 :: (List.replicate zeros 0 ++
    [7, 6, 5, 4, 3, 2, 1, 0].map fun i => UInt8.ofNat (bits / 256 ^ i % 256))

/-- Sixteen words at a time. -/
def blocks : Nat → List UInt32 → State → State
  | 0, _, s => s
  | n + 1, ws, s => blocks n (ws.drop 16) (compress s (ws.take 16))

/-- `sha256.Sum256`, as eight words. -/
def sum256 (data : List UInt8) : List UInt32 :=
  let padded := pad data
  let s := blocks (padded.length / 64) (words padded) initial
  [s.a, s.b, s.c, s.d, s.e, s.f, s.g, s.h]

/-- `hex.EncodeToString` of the sum. -/
def hexSum (data : List UInt8) : String :=
  String.ofList ((sum256 data).flatMap fun w =>
    [7, 6, 5, 4, 3, 2, 1, 0].map fun i => Nat.digitChar (w.toNat / 16 ^ i % 16))

example : hexSum (encodeUtf8 ['a', 'b', 'c']) =
    "ba7816bf8f01cfea414140de5dae2223b00361a396177a9cb410ff61f20015ad" := by
  decide +kernel

end Lib.Sha256
