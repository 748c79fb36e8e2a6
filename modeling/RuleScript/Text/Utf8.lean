/-!
# Decoding UTF-8

Bytes are read as UTF-8 one unit at a time. A unit is a well-formed sequence, which
stands for one character, or a maximal part of an ill-formed one: the longest start
of a well-formed sequence that the bytes hold, or one byte when not even that. The
lossy reading writes each ill-formed part as U+FFFD; the strict reading refuses any.

The well-formed sequences are those of the Unicode standard: ASCII bytes; a lead byte
C2 to DF and one continuation; E0 to EF and two; F0 to F4 and three, where the second
byte after E0 lies in A0 to BF, after ED in 80 to 9F, after F0 in 90 to BF and after F4
in 80 to 8F, so that no sequence is overlong, a surrogate, or beyond U+10FFFF.
-/

namespace RuleScript

namespace Text

namespace Utf8

/-- The number of bytes of a sequence with lead byte `b`, and the range of its second
byte; `none` for a byte that leads no sequence. -/
def lead (b : Nat) : Option (Nat × Nat × Nat) :=
  if b < 0x80 then some (1, 0, 0)
  else if 0xC2 ≤ b && b ≤ 0xDF then some (2, 0x80, 0xBF)
  else if b = 0xE0 then some (3, 0xA0, 0xBF)
  else if b = 0xED then some (3, 0x80, 0x9F)
  else if 0xE1 ≤ b && b ≤ 0xEF then some (3, 0x80, 0xBF)
  else if b = 0xF0 then some (4, 0x90, 0xBF)
  else if 0xF1 ≤ b && b ≤ 0xF3 then some (4, 0x80, 0xBF)
  else if b = 0xF4 then some (4, 0x80, 0x8F)
  else none

def leadBits (n b : Nat) : Nat :=
  if n = 2 then b % 0x20 else if n = 3 then b % 0x10 else b % 0x08

def continuation : Nat → Nat → List UInt8 → Nat × Nat
  | 0, acc, _ => (0, acc)
  | _ + 1, acc, [] => (0, acc)
  | k + 1, acc, c :: rest =>
    if 0x80 ≤ c.toNat && c.toNat ≤ 0xBF then
      let (n, v) := continuation k (acc * 64 + c.toNat % 64) rest
      (n + 1, v)
    else (0, acc)

/-- The first unit of a non-empty byte list: the character, or `none` for an ill-formed
part, and the number of bytes it takes, which is at least one. -/
def unit (b : UInt8) (rest : List UInt8) : Option Char × Nat :=
  match lead b.toNat with
  | none => (none, 1)
  | some (1, _, _) => (some (Char.ofNat b.toNat), 1)
  | some (n, lo, hi) =>
    match rest with
    | [] => (none, 1)
    | c :: more =>
      if lo ≤ c.toNat && c.toNat ≤ hi then
        let (k, v) := continuation (n - 2) (leadBits n b.toNat * 64 + c.toNat % 64) more
        (if k = n - 2 then some (Char.ofNat v) else none, k + 2)
      else (none, 1)

theorem unit_pos (b : UInt8) (rest : List UInt8) : 0 < (unit b rest).2 := by
  unfold unit
  split
  · exact Nat.one_pos
  · exact Nat.one_pos
  · split
    · exact Nat.one_pos
    · split
      · exact Nat.succ_pos _
      · exact Nat.one_pos

def units : List UInt8 → List (Option Char)
  | [] => []
  | b :: rest =>
    let (u, n) := unit b rest
    have : (rest.drop (n - 1)).length < rest.length + 1 := by
      simp only [List.length_drop]; omega
    u :: units (rest.drop (n - 1))
termination_by bs => bs.length
decreasing_by simp only [List.length_cons]; omega

/-- The text of a byte list, with U+FFFD for each ill-formed part. -/
def lossy (bs : List UInt8) : String :=
  String.ofList ((units bs).map fun u => u.getD '�')

def strict? (bs : List UInt8) : Option String :=
  (units bs).mapM id |>.map String.ofList

example : lossy [0x64, 0x20, 0xFF, 0xE2, 0x82, 0x41] = "d ��A" := by decide +kernel
example : strict? [0xC3, 0xA9] = some "é" := by decide +kernel
example : strict? [0xED, 0xA0, 0x80] = none := by decide +kernel

end Utf8

end Text

end RuleScript
