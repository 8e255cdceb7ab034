/-!
Byte ranges within source files.
-/

namespace NetSynth

structure FileId where
  index : Nat
  deriving DecidableEq

def FileId.text (file : FileId) : String := s!"file#{file.index}"

/-- The bytes from `start` up to `stop` of one file. An object that no source text made has no
file. -/
structure Span where
  file : Option FileId := none
  start : Nat := 0
  stop : Nat := 0
  deriving DecidableEq

namespace Span

def nowhere : Span := {}

def isNowhere (span : Span) : Bool := span.file.isNone

/-- The smallest span that covers both. Where only one has a file it is that one, and of spans in
two files it is the first. -/
def cover (first second : Span) : Span :=
  if first.isNowhere then
    second
  else if second.isNowhere || second.file != first.file then
    first
  else
    { first with start := min first.start second.start, stop := max first.stop second.stop }

end Span

end NetSynth
