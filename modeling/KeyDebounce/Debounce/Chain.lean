import KeyDebounce.Row
import KeyDebounce.Timing
import KeyDebounce.Scan
/-!
# Chained in-flight keys

Only keys with a running countdown are visited: they form a chain through their `next` links,
each link being the index `row * cols + col` of the next key, and `null` ends the chain. A pass
first advances the chain, committing and unlinking the keys that run out, then pushes the keys of
every new edge at the head. A countdown is never restarted: when a scan reports a change and a key
already in flight still differs from cooked, its countdown is extended by the elapsed time, so the
key takes whatever raw shows when it finally runs out.
-/

set_option autoImplicit false

namespace KeyDebounce.Chain

-- Indices stay below the end of the chain only while `rows * cols < 255`.
def null : Nat := 255

def countdownCap : Nat := 255

structure Node where
  remaining : Nat
  next : Nat
  deriving DecidableEq, Repr

def Node.idle : Node := ⟨0, null⟩

/-- Every key of every initialised row, and the first key in flight. -/
structure State where
  nodes : List (List Node) := []
  head : Nat := null
  deriving DecidableEq, Repr

def State.empty : State := {}

def State.init (L : Layout) (n : Nat) : Except DebounceError State :=
  if n ≤ L.capacity then .ok ⟨List.replicate n (List.replicate L.cols Node.idle), null⟩
  else .error (.outOfMemory n L.capacity)

namespace State

def node? (s : State) (L : Layout) (i : Nat) : Option Node :=
  (s.nodes[i / L.cols]?).bind (·[i % L.cols]?)

def setNode (s : State) (L : Layout) (i : Nat) (n : Node) : State :=
  { s with nodes := s.nodes.modify (i / L.cols) (·.set (i % L.cols) n) }

-- `Zero.ofOfNat0` is the core library's `Zero ℕ`: the sum is one term under every import.
def size (s : State) : Nat := @List.sum Nat _ Zero.ofOfNat0 (s.nodes.map List.length)

def chainFrom (s : State) (L : Layout) : Nat → Nat → List Nat
  | 0, _ => []
  | fuel + 1, i =>
    if i = null then []
    else
      match s.node? L i with
      | some n => i :: chainFrom s L fuel n.next
      | none => [i]

def pending (s : State) (L : Layout) : List Nat := s.chainFrom L (s.size + 1) s.head

def inFlight (s : State) (L : Layout) : Nat := (s.pending L).length

end State

variable {w : Nat}

def commitAt (raw cooked : List (BitVec w)) (row col : Nat) : List (BitVec w) :=
  match raw[row]?, cooked[row]? with
  | some r, some c => cooked.set row (Row.commitKey c r col)
  | _, _ => cooked

/-- Advance the chain from `current` by `e` ticks; `prev` is the key linking to it. A key that
runs out becomes idle, is unlinked and commits its raw bit. -/
def expire (L : Layout) (e : Nat) (raw : List (BitVec w)) :
    Nat → Nat → Nat → State → List (BitVec w) → State × List (BitVec w)
  | 0, _, _, s, cooked => (s, cooked)
  | fuel + 1, prev, current, s, cooked =>
    if current = null then (s, cooked)
    else
      match s.node? L current with
      | none => (s, cooked)
      | some node =>
        if e < node.remaining then
          let s := s.setNode L current { node with remaining := node.remaining - e }
          expire L e raw fuel current node.next s cooked
        else
          let s := s.setNode L current Node.idle
          let cooked := commitAt raw cooked (current / L.cols) (current % L.cols)
          let s :=
            if prev = null then { s with head := node.next }
            else
              match s.node? L prev with
              | some p => s.setNode L prev { p with next := node.next }
              | none => s
          expire L e raw fuel prev node.next s cooked

/-- Visit the keys of row `row` from column `col` where raw and cooked differ: an idle key is
armed and pushed at the head, a key in flight is extended by `e` when the scan changed. -/
def armKeys (L : Layout) (t : Timing) (e : Nat) (changed : Bool) (row : Nat) (raw delta : BitVec w) :
    Nat → List Node → Nat → List Node × Nat
  | _, [], head => ([], head)
  | col, node :: rest, head =>
    let (node', head') :=
      if Row.bit delta col then
        if node.remaining = 0 then
          (⟨t.threshold (Row.bit raw col), head⟩, row * L.cols + col)
        else if changed then
          ({ node with remaining := min countdownCap (node.remaining + e) }, head)
        else (node, head)
      else (node, head)
    let (rest', head'') := armKeys L t e changed row raw delta (col + 1) rest head'
    (node' :: rest', head'')

def armRows (L : Layout) (t : Timing) (e : Nat) (changed : Bool) :
    Nat → Nat → List (List Node) → List (BitVec w) → List (BitVec w) → Nat → List (List Node) × Nat
  | n + 1, row, keys :: rows, x :: raw, c :: cooked, head =>
    let delta := c ^^^ x
    let (keys', head') :=
      if delta = 0 then (keys, head) else armKeys L t e changed row x delta 0 keys head
    let (rows', head'') := armRows L t e changed n (row + 1) rows raw cooked head'
    (keys' :: rows', head'')
  | _, _, rows, _, _, head => (rows, head)

/-- One debounce pass, `e` ticks after the previous one. -/
def State.step (s : State) (L : Layout) (t : Timing) (e : Nat) (raw cooked : List (BitVec w))
    (numRows : Nat) (changed : Bool) : State × List (BitVec w) :=
  let (s, cooked) :=
    if s.head = null then (s, cooked) else expire L e raw (s.size + 1) null s.head s cooked
  let n := rowsToScan numRows s.nodes.length raw.length cooked.length
  let (nodes, head) := armRows L t e changed n 0 s.nodes raw cooked s.head
  (⟨nodes, head⟩, cooked)

end KeyDebounce.Chain
