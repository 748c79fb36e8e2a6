/-! # Positions and spans in source text

A `Position` is where the scanner stands: a byte offset into the UTF-8 text and a
1-based line and column counted in characters. Only a line feed starts a new line;
a carriage return is an ordinary column. A `Span` is the region a token covers:
its first and one-past-last byte and the line and column of its first character.

Main statements: walking over characters adds their UTF-8 widths to the offset
(`offset_walk`), and walking over two texts is walking over their concatenation
(`walk_append`).
-/

namespace RuleScript

/-- Where the scanner stands in the source text. -/
structure Position where
  offset : Nat
  line : Nat
  column : Nat
deriving Repr, DecidableEq, Inhabited

namespace Position

def start : Position := ⟨0, 1, 1⟩

def next (p : Position) (c : Char) : Position :=
  if c = '\n' then ⟨p.offset + c.utf8Size, p.line + 1, 1⟩
  else ⟨p.offset + c.utf8Size, p.line, p.column + 1⟩

def walk (p : Position) (cs : List Char) : Position := cs.foldl next p

/-- The number of bytes of a run of characters in UTF-8. -/
def width : List Char → Nat
  | [] => 0
  | c :: cs => c.utf8Size + width cs

@[simp] theorem walk_nil (p : Position) : p.walk [] = p := rfl

@[simp] theorem walk_cons (p : Position) (c : Char) (cs : List Char) :
    p.walk (c :: cs) = (p.next c).walk cs := rfl

theorem walk_append (p : Position) (as bs : List Char) :
    p.walk (as ++ bs) = (p.walk as).walk bs := by
  simp [walk, List.foldl_append]

@[simp] theorem offset_next (p : Position) (c : Char) :
    (p.next c).offset = p.offset + c.utf8Size := by
  unfold next; split <;> rfl

@[simp] theorem width_nil : width [] = 0 := rfl

@[simp] theorem width_cons (c : Char) (cs : List Char) :
    width (c :: cs) = c.utf8Size + width cs := rfl

theorem width_append (as bs : List Char) : width (as ++ bs) = width as + width bs := by
  induction as with
  | nil => simp
  | cons c cs ih => simp [ih, Nat.add_assoc]

theorem offset_walk (p : Position) (cs : List Char) :
    (p.walk cs).offset = p.offset + width cs := by
  induction cs generalizing p with
  | nil => rfl
  | cons c cs ih => simp [ih]; omega

end Position

/-- The region of source a token covers: bytes `start` up to `stop` (exclusive), and
the line and column of its first character. -/
structure Span where
  start : Nat
  stop : Nat
  line : Nat
  column : Nat
deriving Repr, DecidableEq, Inhabited

namespace Span

def zero : Span := ⟨0, 0, 0, 0⟩

def covering (p : Position) (cs : List Char) : Span :=
  ⟨p.offset, (p.walk cs).offset, p.line, p.column⟩

theorem stop_covering (p : Position) (cs : List Char) :
    (covering p cs).stop = p.offset + Position.width cs :=
  Position.offset_walk p cs

end Span

end RuleScript
