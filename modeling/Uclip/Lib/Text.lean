/-!
# Decoding bytes and cutting lines

`fromUtf8Lossy` is the standard library's lossy UTF-8 decoder: every longest
prefix of a character that the next byte rules out becomes one U+FFFD, and that
byte is looked at again. It is a machine over the bytes, whose state is what is
still owed to the character being read.
-/

namespace Text

abbrev Bytes := List UInt8

/-- Where the decoder stands inside a character: how many continuation bytes
are owed, the range the next one must be in, and the bits read so far. -/
structure Partial where
  owed : Nat
  low : Nat
  high : Nat
  bits : Nat

def replacement : Char := Char.ofNat 0xFFFD

inductive Lead
  | char (c : Char)
  | more (p : Partial)
  | invalid

def lead (b : Nat) : Lead :=
  if b < 0x80 then .char (Char.ofNat b)
  else if b < 0xC2 then .invalid
  else if b < 0xE0 then .more ⟨1, 0x80, 0xBF, b - 0xC0⟩
  else if b = 0xE0 then .more ⟨2, 0xA0, 0xBF, 0⟩
  else if b = 0xED then .more ⟨2, 0x80, 0x9F, 0xD⟩
  else if b < 0xF0 then .more ⟨2, 0x80, 0xBF, b - 0xE0⟩
  else if b = 0xF0 then .more ⟨3, 0x90, 0xBF, 0⟩
  else if b < 0xF4 then .more ⟨3, 0x80, 0xBF, b - 0xF0⟩
  else if b = 0xF4 then .more ⟨3, 0x80, 0x8F, 4⟩
  else .invalid

def restart (b : Nat) : Option Partial × List Char :=
  match lead b with
  | .char c => (none, [c])
  | .more p => (some p, [])
  | .invalid => (none, [replacement])

def decodeByte : Option Partial → Nat → Option Partial × List Char
  | none, b => restart b
  | some p, b =>
    if p.low ≤ b ∧ b ≤ p.high then
      let bits := p.bits * 0x40 + (b - 0x80)
      if p.owed = 1 then (none, [Char.ofNat bits])
      else (some ⟨p.owed - 1, 0x80, 0xBF, bits⟩, [])
    else
      -- The byte is not part of the broken character: it is read afresh.
      let (state, out) := restart b
      (state, replacement :: out)

def decodeFrom : Option Partial → Bytes → List Char
  | none, [] => []
  | some _, [] => [replacement]
  | state, b :: rest =>
    let (state, out) := decodeByte state b.toNat
    out ++ decodeFrom state rest

/-- `String::from_utf8_lossy(bytes).to_string()` -/
def fromUtf8Lossy (bytes : Bytes) : String := String.ofList (decodeFrom none bytes)

def validFrom : Option Partial → Bytes → Bool
  | none, [] => true
  | some _, [] => false
  | none, b :: rest =>
    match lead b.toNat with
    | .char _ => validFrom none rest
    | .more p => validFrom (some p) rest
    | .invalid => false
  | some p, b :: rest =>
    p.low ≤ b.toNat && b.toNat ≤ p.high &&
      validFrom (if p.owed = 1 then none else some ⟨p.owed - 1, 0x80, 0xBF, 0⟩) rest

/-- `str::from_utf8(bytes).is_ok()` -/
def validUtf8 (bytes : Bytes) : Bool := validFrom none bytes

def stripCr (line : List Char) : List Char :=
  if line.getLast? = some '\r' then line.dropLast else line

/-- `text.lines().next().unwrap_or("")`. A trailing `\r` belongs to the line
unless a `\n` follows it. -/
def firstLine (text : String) : String :=
  let line := text.toList.takeWhile (· ≠ '\n')
  String.ofList (if text.toList.contains '\n' then stripCr line else line)

example : fromUtf8Lossy [0x68, 0xC3, 0xA9, 0xF0, 0x9F, 0x8C, 0x8D] = "hé🌍" := by decide
example : fromUtf8Lossy [0xE2, 0x82, 0x41, 0xC0, 0xAF] = "\uFFFDA\uFFFD\uFFFD" := by decide
example : validUtf8 [0x68, 0xC3, 0xA9, 0xF0, 0x9F, 0x8C, 0x8D] ∧ ¬ validUtf8 [0xC3, 0x0A] := by
  decide
example : firstLine "one\r\ntwo" = "one" ∧ firstLine "one\r" = "one\r" := by decide

-- ---------------------------------------------------------------------------
-- Strings as bytes
-- ---------------------------------------------------------------------------

/-- `s.as_bytes()` -/
def utf8 (s : String) : Bytes := s.toList.flatMap String.utf8EncodeChar

/-- `str::from_utf8(bytes)` -/
def fromUtf8 (bytes : Bytes) : Option String := String.fromUTF8? bytes.toByteArray

theorem fromUtf8_utf8 (s : String) : fromUtf8 (utf8 s) = some s := by
  have hbytes : (utf8 s).toByteArray = s.toByteArray := by
    rw [utf8, ← List.utf8Encode]
    simp
  rw [fromUtf8, hbytes, String.fromUTF8?, dif_pos s.isValidUTF8]
  rfl

theorem utf8_push (s : String) (c : Char) :
    utf8 (s.push c) = utf8 s ++ String.utf8EncodeChar c := by
  simp [utf8]

theorem or_ne_lineBreak (x : UInt8) {y : UInt8} (h : y.toBitVec[7] = true) : x ||| y ≠ 0x0A := by
  intro heq
  have hbit := congrArg (·.toBitVec[7]) heq
  simp [h] at hbit

theorem lineBreak_mem_utf8EncodeChar {c : Char} (h : (0x0A : UInt8) ∈ String.utf8EncodeChar c) :
    c = '\n' := by
  have hhigh (x : UInt8) {y : UInt8} (hy : y.toBitVec[7] = true) : (0x0A : UInt8) ≠ x ||| y :=
    (or_ne_lineBreak x hy).symm
  rcases c.utf8Size_eq with hsize | hsize | hsize | hsize
  · rw [String.utf8EncodeChar_eq_singleton hsize, List.mem_singleton] at h
    have hle : c.val.toNat ≤ 127 := Char.utf8Size_eq_one_iff.mp hsize
    have hten : 10 = c.val.toNat % 256 := congrArg UInt8.toNat h
    exact Char.ext (UInt32.toNat_inj.mp (show c.val.toNat = 10 by omega))
  · rw [String.utf8EncodeChar_eq_cons_cons hsize] at h
    simp [hhigh] at h
  · rw [String.utf8EncodeChar_eq_cons_cons_cons hsize] at h
    simp [hhigh] at h
  · rw [String.utf8EncodeChar_eq_cons_cons_cons_cons hsize] at h
    simp [hhigh] at h

theorem lineBreak_not_mem_utf8 {s : String} (h : '\n' ∉ s.toList) : 0x0A ∉ utf8 s := by
  intro hmem
  obtain ⟨c, hc, hbyte⟩ := List.mem_flatMap.mp hmem
  exact h (lineBreak_mem_utf8EncodeChar hbyte ▸ hc)

end Text
