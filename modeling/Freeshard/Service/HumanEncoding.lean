import Freeshard.Bits.Words
import Freeshard.Util.Dict
import Mathlib.Data.List.Dedup

/-! # `service/human_encoding.py`

Bytes as texts over a small alphabet, `bits_per_char` bits to a character. -/

namespace Freeshard.HumanEncoding
set_option autoImplicit false

/-! ## Bit strings -/

/-- What the module needs of `bitstring.BitArray`; an error is the text of an exception of that package. Texts of zeros
and ones are lists of bits. -/
structure BitArray where
  /-- `BitArray(uint=number, length=length).bin`. -/
  uint : ℕ → ℕ → Except String (List Bool)
  /-- `BitArray(bytes=b).bin`. -/
  bin : List UInt8 → List Bool
  /-- `BitArray("0b" + bits).bytes`. -/
  bytes : List Bool → Except String (List UInt8)
  uint_exact : ∀ number length, 0 < length → number < 2 ^ length →
    uint number length = .ok (Bits.ofNat length number)
  bin_exact : ∀ b, bin b = Bits.ofBytes b
  bytes_exact : ∀ b, b ≠ [] → bytes (Bits.ofBytes b) = .ok b

/-- The conversions, carried out. -/
def BitArray.standard : BitArray where
  uint number length :=
    if 0 < length ∧ number < 2 ^ length then .ok (Bits.ofNat length number)
    else .error "uint cannot be contained in the given length"
  bin := Bits.ofBytes
  bytes bits := .ok (Bits.toBytes bits)
  uint_exact _ _ hlength hnumber := if_pos ⟨hlength, hnumber⟩
  bin_exact _ := rfl
  bytes_exact b _ := congrArg Except.ok (Bits.toBytes_ofBytes b)

inductive Exn where
  | notInitialized
  | initializationError (text : String)
  | decodingError (text : String)
  -- `bits_to_char[bits]`, `char_to_bits[char]`
  | bitsKeyError (bits : List Bool)
  | charKeyError (char : Char)
  | valueError (text : String)
  | bitstringError (text : String)
  deriving DecidableEq, Repr

/-- `isinstance(e, HumanEncodingError)`. -/
def Exn.isHumanEncodingError : Exn → Bool
  | .notInitialized | .initializationError _ | .decodingError _ => true
  | _ => false

variable (bitArray : BitArray)

/-! ## The tables -/

/-- The module's globals. -/
structure Codec where
  bitsToChar : Dict (List Bool) Char := ∅
  charToBits : Dict Char (List Bool) := ∅
  bitsPerChar : ℕ := 0

/-- `reset`. -/
def Codec.reset : Codec := {}

/-- The loop of `init` over `enumerate(usable_chars)`. -/
def setChars (bitsPerChar : ℕ) : List (Char × ℕ) → Codec → Except Exn Unit × Codec
  | [], codec => (.ok (), codec)
  | (char, number) :: rest, codec =>
    match bitArray.uint number bitsPerChar with
    | .error text => (.error (.bitstringError text), codec)
    | .ok bits => setChars bitsPerChar rest { codec with
        bitsToChar := codec.bitsToChar.insert bits char
        charToBits := codec.charToBits.insert char bits }

/-- `init`, with the globals it leaves. -/
def init (characters : String) (codec : Codec) : Except Exn Unit × Codec :=
  let chars := characters.toList
  if chars.length ≠ chars.dedup.length then
    (.error (.initializationError "characters must be unique"), codec)
  -- `log2(0)`
  else if chars.length = 0 then (.error (.valueError "math domain error"), .reset)
  else
    let bitsPerChar := Nat.log2 chars.length
    let usableChars := chars.take (2 ^ bitsPerChar)
    setChars bitArray bitsPerChar usableChars.zipIdx { Codec.reset with bitsPerChar }

/-! ## Coding -/

/-- `_grouper`: `n` copies of one iterator, zipped to the longest. -/
def grouper {α : Type} (l : List α) (n : ℕ) (fillvalue : α) : List (List α) :=
  Bits.words n fillvalue ((l.length + n - 1) / n) l

/-- `d[key]`. -/
def subscript {α β : Type} [DecidableEq α] (d : Dict α β) (e : α → Exn) (key : α) : Except Exn β :=
  match d.lookup key with
  | some value => .ok value
  | none => .error (e key)

def encode (codec : Codec) (b : List UInt8) : Except Exn String :=
  if codec.bitsPerChar = 0 then .error .notInitialized
  else do
    let out ← (grouper (bitArray.bin b) codec.bitsPerChar false).mapM
      (subscript codec.bitsToChar .bitsKeyError)
    return String.ofList out

/-- A text of zeros and ones. -/
def bitText (bits : List Bool) : String := String.ofList (bits.map fun bit => if bit then '1' else '0')

/-- `BitArray("0b" + bits).bytes`. -/
def toBytes (bits : List Bool) : Except Exn (List UInt8) :=
  match bitArray.bytes bits with
  | .ok b => .ok b
  | .error text => .error (.bitstringError text)

def decode (codec : Codec) (s : String) : Except Exn (List UInt8) :=
  if codec.bitsPerChar = 0 then .error .notInitialized
  else do
    let chars ← s.toList.mapM (subscript codec.charToBits .charKeyError)
    let bits := chars.flatten
    let overhang := bits.length % 8
    if 0 < overhang then
      let rest := bits.take (bits.length - overhang)
      let tail := bits.drop (bits.length - overhang)
      if !tail.all (· == false) then
        .error (.decodingError ("overhang is " ++ bitText tail ++ ", expected " ++
          bitText (List.replicate overhang false)))
      else toBytes bitArray rest
    else toBytes bitArray bits

/-- The characters of the module's own `init` call. -/
def defaultCharacters : String := "abcdefghjklnpqrstvwxyz0123456789"

/-- The module once it is imported. -/
def Codec.default : Codec := (init bitArray defaultCharacters .reset).2

end Freeshard.HumanEncoding
