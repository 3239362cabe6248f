import Elyra.Python.Text

set_option autoImplicit false

/-! # SHA-256

`hashlib.sha256(data).hexdigest()` of FIPS 180-4, on natural numbers below `2 ^ 32`. -/

namespace Elyra.Python

/-! ## Words -/

/-- The round constants. -/
def shaConstants : List Nat :=
  [ 0x428a2f98, 0x71374491, 0xb5c0fbcf, 0xe9b5dba5, 0x3956c25b, 0x59f111f1, 0x923f82a4, 0xab1c5ed5,
    0xd807aa98, 0x12835b01, 0x243185be, 0x550c7dc3, 0x72be5d74, 0x80deb1fe, 0x9bdc06a7, 0xc19bf174,
    0xe49b69c1, 0xefbe4786, 0x0fc19dc6, 0x240ca1cc, 0x2de92c6f, 0x4a7484aa, 0x5cb0a9dc, 0x76f988da,
    0x983e5152, 0xa831c66d, 0xb00327c8, 0xbf597fc7, 0xc6e00bf3, 0xd5a79147, 0x06ca6351, 0x14292967,
    0x27b70a85, 0x2e1b2138, 0x4d2c6dfc, 0x53380d13, 0x650a7354, 0x766a0abb, 0x81c2c92e, 0x92722c85,
    0xa2bfe8a1, 0xa81a664b, 0xc24b8b70, 0xc76c51a3, 0xd192e819, 0xd6990624, 0xf40e3585, 0x106aa070,
    0x19a4c116, 0x1e376c08, 0x2748774c, 0x34b0bcb5, 0x391c0cb3, 0x4ed8aa4a, 0x5b9cca4f, 0x682e6ff3,
    0x748f82ee, 0x78a5636f, 0x84c87814, 0x8cc70208, 0x90befffa, 0xa4506ceb, 0xbef9a3f7, 0xc67178f2 ]

/-- The eight working variables. -/
structure ShaState where
  a : Nat
  b : Nat
  c : Nat
  d : Nat
  e : Nat
  f : Nat
  g : Nat
  h : Nat

def shaInitial : ShaState where
  a := 0x6a09e667
  b := 0xbb67ae85
  c := 0x3c6ef372
  d := 0xa54ff53a
  e := 0x510e527f
  f := 0x9b05688c
  g := 0x1f83d9ab
  h := 0x5be0cd19

/-- Rotation to the right by `n` places. -/
def rotr (n x : Nat) : Nat := x / 2 ^ n ||| x % 2 ^ n * 2 ^ (32 - n)

def bigSigma0 (x : Nat) : Nat := rotr 2 x ^^^ rotr 13 x ^^^ rotr 22 x
def bigSigma1 (x : Nat) : Nat := rotr 6 x ^^^ rotr 11 x ^^^ rotr 25 x
def smallSigma0 (x : Nat) : Nat := rotr 7 x ^^^ rotr 18 x ^^^ x / 2 ^ 3
def smallSigma1 (x : Nat) : Nat := rotr 17 x ^^^ rotr 19 x ^^^ x / 2 ^ 10

/-- `(e ∧ f) ⊕ (¬e ∧ g)`. -/
def shaChoose (e f g : Nat) : Nat := (e &&& f) ^^^ ((0xffffffff ^^^ e) &&& g)

def shaMajority (a b c : Nat) : Nat := (a &&& b) ^^^ (a &&& c) ^^^ (b &&& c)

/-! ## Compression -/

/-- One round, with its constant and its message word. -/
def shaRound (s : ShaState) (kw : Nat × Nat) : ShaState :=
  let t₁ := s.h + bigSigma1 s.e + shaChoose s.e s.f s.g + kw.1 + kw.2
  let t₂ := bigSigma0 s.a + shaMajority s.a s.b s.c
  { a := (t₁ + t₂) % 2 ^ 32, b := s.a, c := s.b, d := s.c
    e := (s.d + t₁) % 2 ^ 32, f := s.e, g := s.f, h := s.g }

/-- The message words, the newest first: `n` more of them. -/
def shaSchedule : Nat → List Nat → List Nat
  | 0, ws => ws
  | n + 1, ws =>
      shaSchedule n ((smallSigma1 (ws.getD 1 0) + ws.getD 6 0 + smallSigma0 (ws.getD 14 0) +
        ws.getD 15 0) % 2 ^ 32 :: ws)

/-- One block of sixteen words. -/
def shaBlock (s : ShaState) (words : List Nat) : ShaState :=
  let r := (shaConstants.zip (shaSchedule 48 words.reverse).reverse).foldl shaRound s
  { a := (s.a + r.a) % 2 ^ 32, b := (s.b + r.b) % 2 ^ 32, c := (s.c + r.c) % 2 ^ 32
    d := (s.d + r.d) % 2 ^ 32, e := (s.e + r.e) % 2 ^ 32, f := (s.f + r.f) % 2 ^ 32
    g := (s.g + r.g) % 2 ^ 32, h := (s.h + r.h) % 2 ^ 32 }

/-! ## The message -/

/-- The length of the message in bits, as eight bytes. -/
def shaLength (n : Nat) : List Nat :=
  [56, 48, 40, 32, 24, 16, 8, 0].map (fun k => 8 * n / 2 ^ k % 256)

/-- The padded message. -/
def shaPad (data : List Nat) : List Nat :=
  data ++ 128 :: List.replicate ((119 - data.length % 64) % 64) 0 ++ shaLength data.length

/-- Four bytes a word. -/
def shaWords : List Nat → List Nat
  | a :: b :: c :: d :: rest =>
      (((a * 256 + b) * 256 + c) * 256 + d) :: shaWords rest
  | _ => []

/-- Sixteen words a block. -/
def shaBlocks : Nat → List Nat → List (List Nat)
  | 0, _ => []
  | n + 1, words => words.take 16 :: shaBlocks n (words.drop 16)

/-! ## The digest -/

def hexChar (n : Nat) : Nat := if n < 10 then 48 + n else 87 + n

/-- A word as eight hexadecimal digits. -/
def hexWord (x : Nat) : PyStr :=
  [28, 24, 20, 16, 12, 8, 4, 0].map (fun k => hexChar (x / 2 ^ k % 16))

def ShaState.hex (s : ShaState) : PyStr :=
  hexWord s.a ++ hexWord s.b ++ hexWord s.c ++ hexWord s.d ++ hexWord s.e ++ hexWord s.f ++
    hexWord s.g ++ hexWord s.h

/-- `hashlib.sha256(data).hexdigest()`. -/
def sha256 (data : Bytes) : PyStr :=
  let words := shaWords (shaPad (data.map UInt8.toNat))
  ((shaBlocks (words.length / 16) words).foldl shaBlock shaInitial).hex

example : sha256 [97, 98, 99] =
    py "ba7816bf8f01cfea414140de5dae2223b00361a396177a9cb410ff61f20015ad" := by decide +kernel

/-! ## The form of the digest -/

theorem hexWord_length (x : Nat) : (hexWord x).length = 8 := rfl

theorem hexChar_hex (n : Nat) (h : n < 16) :
    (48 ≤ hexChar n ∧ hexChar n ≤ 57) ∨ (97 ≤ hexChar n ∧ hexChar n ≤ 102) := by
  unfold hexChar
  split <;> omega

theorem hexWord_hex {x c : Nat} (h : c ∈ hexWord x) : (48 ≤ c ∧ c ≤ 57) ∨ (97 ≤ c ∧ c ≤ 102) := by
  obtain ⟨k, -, rfl⟩ := List.mem_map.1 h
  exact hexChar_hex _ (Nat.mod_lt _ (by decide))

/-- A digest is 64 lower-case hexadecimal digits. -/
theorem sha256_length (data : Bytes) : (sha256 data).length = 64 := by
  simp [sha256, ShaState.hex, hexWord_length]

theorem sha256_hex {data : Bytes} {c : Nat} (h : c ∈ sha256 data) :
    (48 ≤ c ∧ c ≤ 57) ∨ (97 ≤ c ∧ c ≤ 102) := by
  simp only [sha256, ShaState.hex, List.mem_append] at h
  rcases h with ((((((h | h) | h) | h) | h) | h) | h) | h <;> exact hexWord_hex h

end Elyra.Python
