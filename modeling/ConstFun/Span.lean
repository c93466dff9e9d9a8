namespace ConstFun

/-- From a line and column up to a line and an excluded column; both count from one. -/
structure Span where
  startLine : Int
  startColumn : Int
  endLine : Int
  endColumn : Int
  deriving DecidableEq, Repr

namespace Span

/-- `line:column` of the start. -/
def startText (s : Span) : String := s!"{s.startLine}:{s.startColumn}"

def render (s : Span) : String := s!"@{s.startText}-{s.endLine}:{s.endColumn}"

end Span

end ConstFun
