/-
Queue records as bytes.

Integers are little-endian with the bytes of their width.  A word that counts them
stands before the bytes of a text and before the elements of a list, a dictionary or a
record.  A truth value and the presence of an optional value take one byte, a character
takes the bytes of its encoding, a pair is its parts, and what has no content takes no
bytes.  A record counts its capacity as its first element.
-/
import BlockingSync.Record.Shape
import BlockingSync.Text.Utf8

namespace BlockingSync

namespace Binary

/-! ### Writing -/

/-- The bytes of a number, least significant first. -/
def littleEndian : Nat → Nat → List UInt8
  | 0, _ => []
  | count + 1, n => UInt8.ofNat (n % 256) :: littleEndian count (n / 256)

/-- The bytes of a word. -/
def writeWord (n : Nat) : List UInt8 :=
  littleEndian 8 n

/-- The number that stands for a signed integer in two's complement. -/
def twosComplement {w : Width} (n : Signed w) : Nat :=
  (n.val % (w.limit : Int)).toNat

/-- A count and the given parts behind it. -/
def writeCounted (count : Nat) (parts : List (List UInt8)) : List UInt8 :=
  writeWord count ++ parts.flatten

/-- The byte of a truth value. -/
def writeBoolean (b : Bool) : List UInt8 :=
  [if b then 1 else 0]

/-- A text with the count of its bytes. -/
def writeText (s : String) : List UInt8 :=
  let bytes := Text.Utf8.encode s.toList
  writeWord bytes.length ++ bytes

/-! ### Reading -/

/-- Why bytes cannot be read. -/
inductive Fault where
  | endOfBytes
  /-- A text is longer than what is left. -/
  | textTooLong
  | notText (fault : Text.Utf8.Fault)
  | notCharacter
  | badBoolean (found : Nat)
  | badPresence (found : Nat)
  | missingCapacity
  deriving DecidableEq

/-- The sentence that explains the fault. -/
def Fault.message : Fault → String
  | .endOfBytes => "io error: unexpected end of file"
  | .textTooLong => "io error: "
  | .notText fault => "string is not valid utf8: " ++ fault.message
  | .notCharacter => "char is not valid"
  | .badBoolean found => s!"invalid u8 while decoding bool, expected 0 or 1, found {found}"
  | .badPresence found => s!"tag for enum is not valid, found {found}"
  | .missingCapacity => "missing capacity value"

/-- Reads a value from the front of the bytes. -/
def Reader (α : Type) : Type :=
  List UInt8 → Except Fault (α × List UInt8)

/-- The first number that takes more than the given count of bytes. -/
def byteLimit : Nat → Nat
  | 0 => 1
  | count + 1 => 256 * byteLimit count

theorem byteLimit_bytes (w : Width) : byteLimit w.bytes = w.limit := by
  cases w <;> rfl

/-- Reads a number of the given count of bytes. -/
def readLittleEndian : (count : Nat) → Reader (Fin (byteLimit count))
  | 0, bytes => .ok (⟨0, Nat.one_pos⟩, bytes)
  | _ + 1, [] => .error .endOfBytes
  | count + 1, b :: bytes => do
    let (n, rest) ← readLittleEndian count bytes
    return (⟨b.toNat + 256 * n.val, by
      have hb := b.toNat_lt
      have hn := n.isLt
      unfold byteLimit
      omega⟩, rest)

/-- Reads an unsigned integer. -/
def readUnsigned (w : Width) : Reader (Unsigned w) := fun bytes => do
  let (n, rest) ← readLittleEndian w.bytes bytes
  return (n.cast (byteLimit_bytes w), rest)

/-- The signed integer that a number stands for in two's complement. -/
def ofTwosComplement {w : Width} (n : Unsigned w) : Signed w :=
  ⟨if n.val < w.half then (n.val : Int) else (n.val : Int) - (w.limit : Int), by
    have hn := n.isLt
    have hlimit := w.limit_eq
    split <;> omega⟩

/-- Reads a signed integer. -/
def readSigned (w : Width) : Reader (Signed w) := fun bytes => do
  let (n, rest) ← readUnsigned w bytes
  return (ofTwosComplement n, rest)

/-- Reads the next byte. -/
def readByte : Reader Nat
  | [] => .error .endOfBytes
  | b :: rest => .ok (b.toNat, rest)

/-- Reads a truth value. -/
def readBoolean : Reader Bool := fun bytes => do
  let (b, rest) ← readByte bytes
  match b with
  | 0 => return (false, rest)
  | 1 => return (true, rest)
  | b => .error (.badBoolean b)

/-- Reads a character. -/
def readCharacter : Reader Char
  | [] => .error .endOfBytes
  | b :: bytes =>
    match Text.Utf8.readChar b bytes with
    | .char c rest => .ok (c, rest)
    | _ => .error .notCharacter

/-- Reads a text of the given count of bytes. -/
def readLetters (count : Nat) : Reader String := fun bytes =>
  if bytes.length < count then .error .textTooLong
  else
    match Text.Utf8.decode (bytes.take count) with
    | .ok cs => return (String.ofList cs, bytes.drop count)
    | .error fault => .error (.notText fault)

/-- Reads a text. -/
def readText : Reader String := fun bytes => do
  let (count, rest) ← readUnsigned .w64 bytes
  readLetters count.val rest

/-- Reads a value that may be absent. -/
def readOption {α : Type} (value : Reader α) : Reader (Option α) := fun bytes => do
  let (b, rest) ← readByte bytes
  match b with
  | 0 => return (none, rest)
  | 1 =>
    let (v, rest) ← value rest
    return (some v, rest)
  | b => .error (.badPresence b)

/-- Reads a number of values one after another. -/
def readMany {α : Type} (value : Reader α) : Nat → Reader (List α)
  | 0, bytes => .ok ([], bytes)
  | count + 1, bytes => do
    let (v, rest) ← value bytes
    let (vs, rest) ← readMany value count rest
    return (v :: vs, rest)

/-- Reads values with their count before them. -/
def readCounted {α : Type} (value : Reader α) : Reader (List α) := fun bytes => do
  let (count, rest) ← readUnsigned .w64 bytes
  readMany value count.val rest

/-- Reads two values one after the other. -/
def readPair {α β : Type} (first : Reader α) (second : Reader β) : Reader (α × β) := fun bytes => do
  let (v, rest) ← first bytes
  let (w, rest) ← second rest
  return ((v, w), rest)

/-- Reads a queue record of the given count of elements. -/
def readElements {α : Type} (value : Reader α) : Nat → Reader (Record α)
  | 0, _ => .error .missingCapacity
  | count + 1, bytes => do
    let (capacity, rest) ← readUnsigned .w64 bytes
    let (values, rest) ← readMany value count rest
    return (⟨capacity, values⟩, rest)

/-- Reads a queue record. -/
def readRecord {α : Type} (value : Reader α) : Reader (Record α) := fun bytes => do
  let (count, rest) ← readUnsigned .w64 bytes
  readElements value count.val rest

end Binary

namespace Shape

/-- Writes a value as bytes. -/
def toBytes : (s : Shape) → s.Value → Except Refusal (List UInt8)
  | .unsigned w, n => .ok (Binary.littleEndian w.bytes (Fin.val n))
  | .signed w, n => .ok (Binary.littleEndian w.bytes (Binary.twosComplement n))
  | .boolean, b => .ok (Binary.writeBoolean b)
  | .character, c => .ok (Text.Utf8.encodeChar c)
  | .text, s => .ok (Binary.writeText s)
  | .unit, _ | .primitive _, _ => .ok []
  | .option _, none => .ok [0]
  | .option s, some v => do return 1 :: (← s.toBytes v)
  | .list s, vs => do return Binary.writeCounted vs.length (← vs.mapM s.toBytes)
  | .pair first second, (v, w) => do return (← first.toBytes v) ++ (← second.toBytes w)
  | .dict s, d => do
    let parts ← d.entries.mapM fun (key, v) => do return Binary.writeText key ++ (← s.toBytes v)
    return Binary.writeCounted d.entries.length parts
  | .queue s, r => do
    let parts ← r.values.mapM s.toBytes
    return Binary.writeCounted (r.values.length + 1) (Binary.writeWord r.capacity.val :: parts)
  | .reluctant, n =>
    if Subtype.val n < 0 then .error .negative
    else .ok (Binary.littleEndian 8 (Binary.twosComplement n))

/-- Reads a value of the given shape. -/
def binaryReader : (s : Shape) → Binary.Reader s.Value
  | .unsigned w => Binary.readUnsigned w
  | .signed w => Binary.readSigned w
  | .boolean => Binary.readBoolean
  | .character => Binary.readCharacter
  | .text => Binary.readText
  | .unit | .primitive _ => fun bytes => .ok ((), bytes)
  | .option s => Binary.readOption s.binaryReader
  | .list s => Binary.readCounted s.binaryReader
  | .pair first second => Binary.readPair first.binaryReader second.binaryReader
  | .dict s => fun bytes => do
    let (entries, rest) ← Binary.readCounted (Binary.readPair Binary.readText s.binaryReader) bytes
    return (Dict.ofList entries, rest)
  | .queue s => Binary.readRecord s.binaryReader
  | .reluctant => Binary.readSigned .w64

/-- The bytes of a value, or why it has none, as the codec tells it. -/
def encode (s : Shape) (v : s.Value) : Except String (List UInt8) :=
  match s.toBytes v with
  | .ok bytes => .ok bytes
  | .error refusal => .error ("Serialization error: " ++ refusal.message)

/-- The value at the front of the bytes, or why there is none, as the codec tells it.  What
follows the value is ignored. -/
def decode (s : Shape) (bytes : List UInt8) : Except String s.Value :=
  match s.binaryReader bytes with
  | .ok (v, _) => .ok v
  | .error fault => .error ("Deserialization error: " ++ fault.message)

end Shape

namespace Record

/-- The bytes of a record. -/
def binary {s : Shape} (r : Record s.Value) : Except SyncError (List UInt8) :=
  match (Shape.queue s).encode r with
  | .ok bytes => .ok bytes
  | .error reason => .error (.format reason)

/-- The record at the front of the bytes. -/
def ofBinary (s : Shape) (bytes : List UInt8) : Except SyncError (Record s.Value) :=
  match (Shape.queue s).decode bytes with
  | .ok r => .ok r
  | .error reason => .error (.format reason)

end Record

end BlockingSync
