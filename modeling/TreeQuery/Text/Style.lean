/-! Terminal colours and weights. Each is switched on by one code before the text and off by
another one after it, whatever the output is connected to. -/
namespace TreeQuery.Text

structure Style where
  on : Nat
  off : Nat
  deriving Repr,DecidableEq

namespace Style

def bold : Style := ⟨1,0⟩
def red : Style := ⟨31,39⟩
def green : Style := ⟨32,39⟩
def yellow : Style := ⟨33,39⟩
def cyan : Style := ⟨36,39⟩

def code (n : Nat) : String := "\x1b[" ++ toString n ++ "m"

def paint (style : Style) (text : String) : String := code style.on ++ text ++ code style.off

end Style
end TreeQuery.Text
