/-! The SHA-256 digest of a text. -/

namespace Bindable

namespace Digest

def roundConstants : List UInt32 :=
  [0x428a2f98, 0x71374491, 0xb5c0fbcf, 0xe9b5dba5, 0x3956c25b, 0x59f111f1, 0x923f82a4, 0xab1c5ed5,
    0xd807aa98, 0x12835b01, 0x243185be, 0x550c7dc3, 0x72be5d74, 0x80deb1fe, 0x9bdc06a7, 0xc19bf174,
    0xe49b69c1, 0xefbe4786, 0x0fc19dc6, 0x240ca1cc, 0x2de92c6f, 0x4a7484aa, 0x5cb0a9dc, 0x76f988da,
    0x983e5152, 0xa831c66d, 0xb00327c8, 0xbf597fc7, 0xc6e00bf3, 0xd5a79147, 0x06ca6351, 0x14292967,
    0x27b70a85, 0x2e1b2138, 0x4d2c6dfc, 0x53380d13, 0x650a7354, 0x766a0abb, 0x81c2c92e, 0x92722c85,
    0xa2bfe8a1, 0xa81a664b, 0xc24b8b70, 0xc76c51a3, 0xd192e819, 0xd6990624, 0xf40e3585, 0x106aa070,
    0x19a4c116, 0x1e376c08, 0x2748774c, 0x34b0bcb5, 0x391c0cb3, 0x4ed8aa4a, 0x5b9cca4f, 0x682e6ff3,
    0x748f82ee, 0x78a5636f, 0x84c87814, 0x8cc70208, 0x90befffa, 0xa4506ceb, 0xbef9a3f7, 0xc67178f2]

/-- The eight chaining words. -/
structure State where
  a : UInt32
  b : UInt32
  c : UInt32
  d : UInt32
  e : UInt32
  f : UInt32
  g : UInt32
  h : UInt32
  deriving DecidableEq, Repr

def initial : State :=
  { a := 0x6a09e667, b := 0xbb67ae85, c := 0x3c6ef372, d := 0xa54ff53a, e := 0x510e527f,
    f := 0x9b05688c, g := 0x1f83d9ab, h := 0x5be0cd19 }

def rotate (x n : UInt32) : UInt32 := (x >>> n) ||| (x <<< (32 - n))

/-- Each new schedule word comes from the words 2, 7, 15 and 16 places back. The newest stands
first. -/
def extendSchedule : Nat → List UInt32 → List UInt32
  | 0, w => w
  | n + 1, w =>
    let back (k : Nat) : UInt32 := w.getD (k - 1) 0
    let x := back 15
    let y := back 2
    let s := (rotate x 7) ^^^ (rotate x 18) ^^^ (x >>> 3)
    let t := (rotate y 17) ^^^ (rotate y 19) ^^^ (y >>> 10)
    extendSchedule n ((back 16 + s + back 7 + t) :: w)

def round (st : State) (k w : UInt32) : State :=
  let s := (rotate st.e 6) ^^^ (rotate st.e 11) ^^^ (rotate st.e 25)
  let choice := (st.e &&& st.f) ^^^ (~~~st.e &&& st.g)
  let t := st.h + s + choice + k + w
  let u := (rotate st.a 2) ^^^ (rotate st.a 13) ^^^ (rotate st.a 22)
  let majority := (st.a &&& st.b) ^^^ (st.a &&& st.c) ^^^ (st.b &&& st.c)
  { a := t + (u + majority), b := st.a, c := st.b, d := st.c, e := st.d + t, f := st.e, g := st.f,
    h := st.g }

def compress (st : State) (block : List UInt32) : State :=
  let schedule := (extendSchedule 48 block.reverse).reverse
  let r := (roundConstants.zip schedule).foldl (fun s kw => round s kw.1 kw.2) st
  { a := st.a + r.a, b := st.b + r.b, c := st.c + r.c, d := st.d + r.d, e := st.e + r.e,
    f := st.f + r.f, g := st.g + r.g, h := st.h + r.h }

/-- A one bit, zeros up to eight bytes short of a whole block, and the length in bits. -/
def padding (length : Nat) : List UInt8 :=
  0x80 :: List.replicate ((119 - length % 64) % 64) 0 ++
    (List.range 8).map fun i => UInt8.ofNat (8 * length / Nat.pow 256 (7 - i))

def word (a b c d : UInt8) : UInt32 :=
  (a.toUInt32 <<< 24) ||| (b.toUInt32 <<< 16) ||| (c.toUInt32 <<< 8) ||| d.toUInt32

def wordsOf : List UInt8 → List UInt32
  | a :: b :: c :: d :: rest => word a b c d :: wordsOf rest
  | _ => []

/-- Sixteen words a block. -/
def compressAll : Nat → State → List UInt32 → State
  | 0, st, _ => st
  | blocks + 1, st, ws => compressAll blocks (compress st (ws.take 16)) (ws.drop 16)

def hexDigits (x : UInt32) : List Char :=
  [28, 24, 20, 16, 12, 8, 4, (0 : UInt32)].map fun shift =>
    let n := ((x >>> shift) &&& 15).toNat
    Char.ofNat (if n < 10 then n + 48 else n + 87)

def State.hex (st : State) : String :=
  String.ofList ([st.a, st.b, st.c, st.d, st.e, st.f, st.g, st.h].flatMap hexDigits)

def ofBytes (bytes : List UInt8) : String :=
  let ws := wordsOf (bytes ++ padding bytes.length)
  (compressAll (ws.length / 16) initial ws).hex

end Digest

/-- The digest of the bytes of a text, in lower-case hexadecimal digits. -/
def digest (text : String) : String := Digest.ofBytes text.toUTF8.data.toList

end Bindable
