import Sharp.Source.Position

/-!
The chain of calls a runtime error was raised in, innermost first. A frame keeps the place from
which its caller entered it, so the place shown for a frame is kept by the frame it called; the
innermost frame is shown at the error itself. A frame without a known place is left out.
-/
namespace Sharp

structure Frame where
  name : String
  entry : Option Position
deriving DecidableEq

structure Context where
  innermost : Frame
  callers : List Frame
deriving DecidableEq

namespace Context

def top (name : String) : Context := ⟨⟨name, none⟩, []⟩

/-- A call of `name` out of `caller`, made at `entry`. -/
def enter (name : String) (caller : Context) (entry : Position) : Context :=
  ⟨⟨name, some entry⟩, caller.innermost :: caller.callers⟩

def frames (c : Context) : List Frame := c.innermost :: c.callers

def frameLine (name : String) (place : Position) : String :=
  s!"  File {place.file}, line {place.line + 1}, in {name}\n"

/-- The lines of the frames, innermost first, where the first frame stands at `place`. -/
def frameLines : Option Position → List Frame → List String
  | _, [] => []
  | none, f :: rest => frameLines f.entry rest
  | some place, f :: rest => frameLine f.name place :: frameLines f.entry rest

def traceback (c : Context) (raised : Position) : String :=
  "Traceback (most recent call last):\n"
    ++ String.join (frameLines (some raised) c.frames).reverse

end Context

end Sharp
