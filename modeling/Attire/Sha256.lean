namespace Attire.Sha256

/-! The SHA-256 digest of a byte string. -/

def roundConstants : Array UInt32 := #[
  0x428a2f98, 0x71374491, 0xb5c0fbcf, 0xe9b5dba5, 0x3956c25b, 0x59f111f1, 0x923f82a4, 0xab1c5ed5,
  0xd807aa98, 0x12835b01, 0x243185be, 0x550c7dc3, 0x72be5d74, 0x80deb1fe, 0x9bdc06a7, 0xc19bf174,
  0xe49b69c1, 0xefbe4786, 0x0fc19dc6, 0x240ca1cc, 0x2de92c6f, 0x4a7484aa, 0x5cb0a9dc, 0x76f988da,
  0x983e5152, 0xa831c66d, 0xb00327c8, 0xbf597fc7, 0xc6e00bf3, 0xd5a79147, 0x06ca6351, 0x14292967,
  0x27b70a85, 0x2e1b2138, 0x4d2c6dfc, 0x53380d13, 0x650a7354, 0x766a0abb, 0x81c2c92e, 0x92722c85,
  0xa2bfe8a1, 0xa81a664b, 0xc24b8b70, 0xc76c51a3, 0xd192e819, 0xd6990624, 0xf40e3585, 0x106aa070,
  0x19a4c116, 0x1e376c08, 0x2748774c, 0x34b0bcb5, 0x391c0cb3, 0x4ed8aa4a, 0x5b9cca4f, 0x682e6ff3,
  0x748f82ee, 0x78a5636f, 0x84c87814, 0x8cc70208, 0x90befffa, 0xa4506ceb, 0xbef9a3f7, 0xc67178f2]

structure Words where
  a : UInt32
  b : UInt32
  c : UInt32
  d : UInt32
  e : UInt32
  f : UInt32
  g : UInt32
  h : UInt32
deriving DecidableEq

def initial : Words where
  a := 0x6a09e667
  b := 0xbb67ae85
  c := 0x3c6ef372
  d := 0xa54ff53a
  e := 0x510e527f
  f := 0x9b05688c
  g := 0x1f83d9ab
  h := 0x5be0cd19

namespace Words

def add (x y : Words) : Words :=
  ⟨x.a + y.a, x.b + y.b, x.c + y.c, x.d + y.d, x.e + y.e, x.f + y.f, x.g + y.g, x.h + y.h⟩

def toList (x : Words) : List UInt32 := [x.a, x.b, x.c, x.d, x.e, x.f, x.g, x.h]

end Words

def rotateRight (x : UInt32) (places : UInt32) : UInt32 :=
  (x >>> places) ||| (x <<< (32 - places))

def round (state : Words) (constant word : UInt32) : Words :=
  let s1 := rotateRight state.e 6 ^^^ rotateRight state.e 11 ^^^ rotateRight state.e 25
  let choice := (state.e &&& state.f) ^^^ (~~~state.e &&& state.g)
  let t1 := state.h + s1 + choice + constant + word
  let s0 := rotateRight state.a 2 ^^^ rotateRight state.a 13 ^^^ rotateRight state.a 22
  let majority := (state.a &&& state.b) ^^^ (state.a &&& state.c) ^^^ (state.b &&& state.c)
  ⟨t1 + (s0 + majority), state.a, state.b, state.c, state.d + t1, state.e, state.f, state.g⟩

/-- The next word of a message schedule that holds at least sixteen. -/
def nextWord (schedule : Array UInt32) : UInt32 :=
  let back (places : Nat) := schedule.getD (schedule.size - places) 0
  let x := back 15
  let y := back 2
  let s0 := rotateRight x 7 ^^^ rotateRight x 18 ^^^ (x >>> 3)
  let s1 := rotateRight y 17 ^^^ rotateRight y 19 ^^^ (y >>> 10)
  back 16 + s0 + back 7 + s1

def extendSchedule : Nat → Array UInt32 → Array UInt32
  | 0, schedule => schedule
  | count + 1, schedule => extendSchedule count (schedule.push (nextWord schedule))

def bigEndian (bytes : List UInt8) : UInt32 :=
  bytes.foldl (fun word byte => word <<< 8 ||| byte.toUInt32) 0

def wordsOf : Nat → List UInt8 → List UInt32
  | 0, _ => []
  | count + 1, bytes => bigEndian (bytes.take 4) :: wordsOf count (bytes.drop 4)

def compressBlock (state : Words) (block : List UInt8) : Words :=
  let schedule := extendSchedule 48 (wordsOf 16 block).toArray
  let rounds := roundConstants.toList.zip schedule.toList
  state.add (rounds.foldl (fun inner pair => round inner pair.1 pair.2) state)

def compress : Nat → Words → List UInt8 → Words
  | 0, state, _ => state
  | blocks + 1, state, bytes => compress blocks (compressBlock state (bytes.take 64)) (bytes.drop 64)

def bytesOf (width : Nat) (number : Nat) : List UInt8 :=
  (List.range width).reverse.map fun place => UInt8.ofNat (number >>> (8 * place))

/-- A one bit, zeros up to eight bytes short of a block, and the length in bits. -/
def pad (message : List UInt8) : List UInt8 :=
  let zeros := (119 - message.length % 64) % 64
  message ++ 0x80 :: List.replicate zeros 0 ++ bytesOf 8 (8 * message.length)

def digest (message : List UInt8) : List UInt8 :=
  let padded := pad message
  (compress (padded.length / 64) initial padded).toList.flatMap fun word => bytesOf 4 word.toNat

def hex (bytes : List UInt8) : String :=
  String.ofList (bytes.flatMap fun byte =>
    [Nat.digitChar (byte.toNat / 16), Nat.digitChar (byte.toNat % 16)])

/-- The digest of a text, in hexadecimal. -/
def hexOfText (text : String) : String := hex (digest text.toUTF8.toList)

end Attire.Sha256
