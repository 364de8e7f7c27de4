/-!
# Reading UTF-8

Bytes are read into characters or refused at the first sequence that is not well formed. A refusal
tells how many bytes before it are well formed and, unless the bytes end too early, how long the
longest start of a sequence is that could have become well formed.
-/

namespace JassSyntax.Text

/-- Where bytes stop being UTF-8. `length` is that of the faulty sequence, absent when the bytes end
inside a sequence that is sound so far. -/
structure Malformed where
  validUpTo : Nat
  length : Option Nat
  deriving DecidableEq, Repr

namespace Malformed

/-- The fault in words. -/
def message (m : Malformed) : String :=
  match m.length with
  | some n => s!"invalid utf-8 sequence of {n} bytes from index {m.validUpTo}"
  | none => s!"incomplete utf-8 byte sequence from index {m.validUpTo}"

end Malformed

/-- The bytes that may follow the lead byte `b` of a sequence of two or more. The narrowed ranges
keep out overlong forms, surrogates and numbers above `10FFFF`. -/
def mayFollow (b : Nat) : Nat × Nat :=
  if b = 0xe0 then (0xa0, 0xbf)
  else if b = 0xed then (0x80, 0x9f)
  else if b = 0xf0 then (0x90, 0xbf)
  else if b = 0xf4 then (0x80, 0x8f)
  else (0x80, 0xbf)

/-- How many bytes the sequence led by `b` has, if `b` can lead one. -/
def sequenceLength (b : Nat) : Option Nat :=
  if b < 0x80 then some 1
  else if b < 0xc2 then none
  else if b < 0xe0 then some 2
  else if b < 0xf0 then some 3
  else if b < 0xf5 then some 4
  else none

/-- The payload of the lead byte of a sequence of `n` bytes. -/
def leadPayload (n b : Nat) : Nat :=
  match n with
  | 1 => b
  | 2 => b - 0xc0
  | 3 => b - 0xe0
  | _ => b - 0xf0

/-- Reads the remaining `n` bytes of a sequence, whose next byte must lie in `range`. `seen` bytes
have been read, and they stand for the number `code`. -/
def readTail (bytes : List UInt8) (range : Nat × Nat) (seen code : Nat) :
    Nat → Except (Option Nat) (Nat × List UInt8)
  | 0 => .ok (code, bytes)
  | n + 1 =>
    match bytes with
    | [] => .error none
    | b :: rest =>
      if range.1 ≤ b.toNat ∧ b.toNat ≤ range.2 then
        readTail rest (0x80, 0xbf) (seen + 1) (code * 64 + (b.toNat - 0x80)) n
      else .error (some seen)

theorem readTail_length {bytes rest : List UInt8} {range seen code n k}
    (h : readTail bytes range seen code n = .ok (k, rest)) : rest.length ≤ bytes.length := by
  induction n generalizing bytes range seen code with
  | zero => simp only [readTail, Except.ok.injEq, Prod.mk.injEq] at h; simp [h.2]
  | succ n ih =>
    cases bytes with
    | nil => simp [readTail] at h
    | cons b bytes =>
      simp only [readTail] at h
      split at h
      · exact Nat.le_succ_of_le (ih h)
      · cases h

/-- Reads one character: its code point and what follows it. -/
def readCharacter (b : UInt8) (rest : List UInt8) : Except (Option Nat) (Nat × List UInt8) :=
  match sequenceLength b.toNat with
  | none => .error (some 1)
  | some n => readTail rest (mayFollow b.toNat) 1 (leadPayload n b.toNat) (n - 1)

theorem readCharacter_length {b : UInt8} {bytes rest : List UInt8} {k}
    (h : readCharacter b bytes = .ok (k, rest)) : rest.length ≤ bytes.length := by
  unfold readCharacter at h
  split at h
  · cases h
  · exact readTail_length h

/-- Adds the characters of `bytes` to `text`. The first of the bytes stands at `offset`. -/
def readFrom (offset : Nat) (text : String) (bytes : List UInt8) : Except Malformed String :=
  match bytes with
  | [] => .ok text
  | b :: rest =>
    match _h : readCharacter b rest with
    | .error length => .error ⟨offset, length⟩
    | .ok (code, rest') =>
      let c := Char.ofNat code
      readFrom (offset + c.utf8Size) (text.push c) rest'
  termination_by bytes.length
  decreasing_by exact Nat.lt_succ_of_le (readCharacter_length _h)

/-- The text that the bytes stand for. -/
def ofBytes (bytes : List UInt8) : Except Malformed String :=
  readFrom 0 "" bytes

end JassSyntax.Text
