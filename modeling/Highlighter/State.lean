namespace Highlighter

inductive Mode
  | start
  /-- Inside a block comment that spans lines. -/
  | comment
  | functionName
  deriving DecidableEq, Repr

namespace Mode

def all : List Mode :=
  [start, comment, functionName]

def name : Mode → String
  | start => "start"
  | comment => "comment"
  | functionName => "function-name"

def ofName? (name : String) : Option Mode :=
  all.find? (·.name == name)

theorem ofName?_name (m : Mode) : ofName? m.name = some m := by
  cases m <;> rfl

end Mode

inductive Transition
  | push (mode : Mode)
  /-- Returns to the mode remembered last. -/
  | pop
  /-- Replaces the present mode and remembers nothing. -/
  | goto (mode : Mode)
  deriving DecidableEq, Repr

/-- What a scanner carries between lexemes. The mode remembered last is the head of `stack`. -/
structure ScanState where
  mode : Mode := .start
  stack : List Mode := []
  depth : Nat := 0
  deriving DecidableEq, Repr

namespace ScanState

def inMode (mode : Mode) : ScanState :=
  ⟨mode, [], 0⟩

/-- Takes a transition. With nothing remembered, `pop` returns to the mode `start`. -/
def follow (s : ScanState) : Transition → ScanState
  | .push mode => ⟨mode, s.mode :: s.stack, s.depth⟩
  | .pop =>
    match s.stack with
    | [] => ⟨.start, [], s.depth⟩
    | mode :: stack => ⟨mode, stack, s.depth⟩
  | .goto mode => ⟨mode, s.stack, s.depth⟩

def follow? (s : ScanState) : Option Transition → ScanState
  | none => s
  | some t => s.follow t

/-- Moves the bracket depth by the sign of `delta`. The depth stays at zero or above. -/
def nest (s : ScanState) (delta : Int) : ScanState :=
  if 0 < delta then
    ⟨s.mode, s.stack, s.depth + 1⟩
  else if delta < 0 then
    ⟨s.mode, s.stack, s.depth - 1⟩
  else
    s

@[simp]
theorem mode_nest (s : ScanState) (delta : Int) : (s.nest delta).mode = s.mode := by
  unfold nest
  split
  · rfl
  split <;> rfl

@[simp]
theorem depth_follow (s : ScanState) (t : Transition) : (s.follow t).depth = s.depth := by
  cases t with
  | push mode => rfl
  | pop => unfold follow; cases s.stack <;> rfl
  | goto mode => rfl

end ScanState

end Highlighter
