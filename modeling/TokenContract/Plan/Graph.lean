namespace TokenContract

/-- A graph on the numbers below `size`. -/
structure Graph where
  size : Nat
  edge : Nat → Nat → Bool

namespace Graph

def nodes (g : Graph) : List Nat :=
  List.range g.size

def successors (g : Graph) (p : Nat) : List Nat :=
  g.nodes.filter fun c ↦ g.edge p c

def inDegree (g : Graph) (c : Nat) : Nat :=
  g.nodes.countP fun p ↦ g.edge p c

/-- The nodes that can be taken out, and for how many others each node still waits. -/
structure State where
  ready : List Nat
  waits : Nat → Nat

def start (g : Graph) : State :=
  ⟨g.nodes.filter fun c ↦ g.inDegree c = 0, g.inDegree⟩

def State.release (s : State) (c : Nat) : State :=
  let left := s.waits c - 1
  { ready := if left = 0 then c :: s.ready else s.ready
    waits := fun i ↦ if i = c then left else s.waits i }

def takeOut (g : Graph) (s : State) (p : Nat) : State :=
  (g.successors p).foldl State.release { s with ready := s.ready.erase p }

def run (g : Graph) : Nat → State → State
  | 0, s => s
  | n + 1, s =>
    match s.ready with
    | [] => s
    | p :: _ => g.run n (g.takeOut s p)

def waiting (g : Graph) (s : State) : List Nat :=
  g.nodes.filter fun c ↦ 0 < s.waits c

/-- The nodes on a cycle and those behind one. A node is taken out at most once, so as many steps as
there are nodes are enough. -/
def tangled (g : Graph) : List Nat :=
  g.waiting (g.run g.size g.start)

end Graph

end TokenContract
