import Chiptune.Command.Basic

/-!
# Commands from a stream of bytes

The stream is cut into lines at line feeds; a carriage return before one belongs
to it. Reading ends at the first line that is not UTF-8 and after the command to
quit. Lines that are no commands are skipped.
-/
namespace Chiptune.Command

/-- Drops one carriage return from the end of a line. -/
def dropReturn (line : List UInt8) : List UInt8 :=
  match line.reverse with
  | 0x0D :: rest => rest.reverse
  | _ => line

/-- The lines of a stream, after the bytes already read of the current one, last byte first. A last
line without a line feed counts, if it holds anything. -/
def linesFrom (current : List UInt8) : List UInt8 → List (List UInt8)
  | [] => if current.isEmpty then [] else [current.reverse]
  | byte :: rest =>
    if byte == 0x0A then dropReturn current.reverse :: linesFrom [] rest
    else linesFrom (byte :: current) rest

def lines (stream : List UInt8) : List (List UInt8) := linesFrom [] stream

def decodeLine? (line : List UInt8) : Option String := String.fromUTF8? line.toByteArray

/-- The commands among lines, up to the first line without a text or the first quit. -/
def ofLines : List (List UInt8) → List Command
  | [] => []
  | line :: rest =>
    match decodeLine? line with
    | none => []
    | some text =>
      match parse? text with
      | none => ofLines rest
      | some .quit => [.quit]
      | some command => command :: ofLines rest

def ofStream (stream : List UInt8) : List Command := ofLines (lines stream)

end Chiptune.Command
