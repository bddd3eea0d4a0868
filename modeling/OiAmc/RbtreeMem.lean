import OiAmc.GotoLoop
import OiAmc.RedBlack

namespace OiAmc.Rbtree

open GotoLoop RbTree RedBlack

/-- A node. The parent and the colour share a word of the source; nodes are aligned, so that neither
touches the other. -/
structure RbNode (ι : Type) where
  parent : Option ι
  color : Color
  right : Option ι
  left : Option ι
  deriving DecidableEq

variable {ι : Type}

def RbNode.child (n : RbNode ι) : Side → Option ι
  | .left => n.left
  | .right => n.right

def RbNode.setChild (n : RbNode ι) (d : Side) (p : Option ι) : RbNode ι :=
  match d with
  | .left => { n with left := p }
  | .right => { n with right := p }

structure Mem (ι : Type) where
  nodes : ι → Option (RbNode ι)
  root : Option ι

variable [DecidableEq ι]

def Mem.modify (m : Mem ι) (i : ι) (f : RbNode ι → RbNode ι) : Option (Mem ι) :=
  (m.nodes i).map fun n => { m with nodes := Function.update m.nodes i (some (f n)) }

def rbSetParent (m : Mem ι) (i : ι) (p : Option ι) : Option (Mem ι) := m.modify i fun n => { n with parent := p }

def rbSetColor (m : Mem ι) (i : ι) (c : Color) : Option (Mem ι) := m.modify i fun n => { n with color := c }

def rbSetBlack (m : Mem ι) (i : ι) : Option (Mem ι) := rbSetColor m i .black

def rbSetRed (m : Mem ι) (i : ι) : Option (Mem ι) := rbSetColor m i .red

def setChild (m : Mem ι) (i : ι) (d : Side) (p : Option ι) : Option (Mem ι) := m.modify i fun n => n.setChild d p

def onNode (p : Option ι) (f : ι → Mem ι → Option (Mem ι)) (m : Mem ι) : Option (Mem ι) :=
  match p with
  | none => some m
  | some i => f i m

def redAt (m : Mem ι) : Option ι → Option Bool
  | none => some false
  | some i => (m.nodes i).map fun n => decide (n.color = .red)

/-- The link to a node is turned to another one. The node above is asked about the given side first. -/
def relink (d : Side) (m : Mem ι) (parent : Option ι) (node : ι) (new : Option ι) : Option (Mem ι) :=
  match parent with
  | none => some { m with root := new }
  | some i => (m.nodes i).bind fun n => setChild m i (if n.child d = some node then d else d.other) new

def rotate (d : Side) (m : Mem ι) (node : ι) : Option (Mem ι) := do
  let n ← m.nodes node
  let right ← n.child d.other
  let r ← m.nodes right
  let m ← setChild m node d.other (r.child d)
  let m ← onNode (r.child d) (fun i m => rbSetParent m i (some node)) m
  let m ← setChild m right d (some node)
  let m ← rbSetParent m right n.parent
  let m ← relink d m n.parent node (some right)
  rbSetParent m node (some right)

def rbRotateLeft (m : Mem ι) (node : ι) : Option (Mem ι) := rotate .left m node

def rbRotateRight (m : Mem ι) (node : ι) : Option (Mem ι) := rotate .right m node

def rbLinkNode (m : Mem ι) (node : ι) (parent : Option ι) (link : Option (ι × Side)) : Option (Mem ι) := do
  let m ← m.modify node fun _ => ⟨parent, .red, none, none⟩
  match link with
  | none => some { m with root := some node }
  | some (i, d) => setChild m i d (some node)

/-- The walk to the place of a new node: the link that is looked at, the node above, and what is noted
on the way. -/
structure Walk (ι : Type) where
  link : Option (ι × Side)
  parent : Option ι
  leftmost : Bool
  rightmost : Bool
  compares : Nat

/-- What a link holds, the root or the link on a side of a node. -/
def Mem.follow (m : Mem ι) : Option (ι × Side) → Option (Option ι)
  | none => some m.root
  | some (i, d) => (m.nodes i).map fun n => n.child d

def walkRound (before : ι → Option Bool) (m : Mem ι) (w : Walk ι) : Option (Walk ι ⊕ Walk ι) := do
  let next ← m.follow w.link
  match next with
  | none => some (.inr w)
  | some i =>
      let b ← before i
      let d := if b then Side.left else Side.right
      some (.inl ⟨some (i, d), some i, w.leftmost && b, w.rightmost && !b, w.compares + 1⟩)

def walk (rounds : Nat) (before : ι → Option Bool) (m : Mem ι) : Option (Walk ι) :=
  loop (walkRound before m) rounds ⟨none, none, true, true, 0⟩

-- rb_insert_color.

/-- A red uncle: the colours of two generations are changed. -/
def recolorFamily (m : Mem ι) (uncle : Option ι) (parent gparent : ι) : Option (Mem ι) := do
  let uncle ← uncle
  let m ← rbSetBlack m uncle
  let m ← rbSetBlack m parent
  rbSetRed m gparent

/-- A node on the inner side changes places with its parent first. -/
def straighten (d : Side) (m : Mem ι) (parent node : ι) : Option (Mem ι × ι × ι) := do
  let p ← m.nodes parent
  if p.child d.other = some node then
    let m ← rotate d m parent
    some (m, node, parent)
  else some (m, parent, node)

def turnOver (d : Side) (m : Mem ι) (parent gparent node : ι) : Option (Mem ι × ι) := do
  let (m, parent, node) ← straighten d m parent node
  let m ← rbSetBlack m parent
  let m ← rbSetRed m gparent
  let m ← rotate d.other m gparent
  some (m, node)

def redParent (m : Mem ι) (parent node : ι) (p : RbNode ι) : Option (Mem ι × ι) := do
  let gparent ← p.parent
  let g ← m.nodes gparent
  let d := if g.left = some parent then Side.left else Side.right
  let red ← redAt m (g.child d.other)
  if red then
    let m ← recolorFamily m (g.child d.other) parent gparent
    some (m, gparent)
  else turnOver d m parent gparent node

def insertRound (s : Mem ι × ι) : Option ((Mem ι × ι) ⊕ Mem ι) := do
  let n ← s.1.nodes s.2
  match n.parent with
  | none => some (.inr s.1)
  | some parent =>
      let p ← s.1.nodes parent
      if p.color = .black then some (.inr s.1)
      else
        let s ← redParent s.1 parent s.2 p
        some (.inl s)

def rbInsertColor (rounds : Nat) (m : Mem ι) (node : ι) : Option (Mem ι) := do
  let m ← loop insertRound rounds (m, node)
  let root ← m.root
  rbSetBlack m root

def addNode (rounds : Nat) (before : ι → Option Bool) (m : Mem ι) (node : ι) : Option (Mem ι × Walk ι) := do
  let w ← walk rounds before m
  let m ← rbLinkNode m node w.parent w.link
  let m ← rbInsertColor rounds m node
  some (m, w)

-- rb_erase.

def blackSibling (d : Side) (m : Mem ι) (parent : ι) : Option (Mem ι × ι) := do
  let p ← m.nodes parent
  let other ← p.child d.other
  let o ← m.nodes other
  if o.color = .red then
    let m ← rbSetBlack m other
    let m ← rbSetRed m parent
    let m ← rotate d m parent
    let p ← m.nodes parent
    let other ← p.child d.other
    some (m, other)
  else some (m, other)

def redFarChild (d : Side) (m : Mem ι) (parent other : ι) : Option (Mem ι × ι) := do
  let o ← m.nodes other
  let red ← redAt m (o.child d.other)
  if red then some (m, other)
  else
    let m ← onNode (o.child d) (fun i m => rbSetBlack m i) m
    let m ← rbSetRed m other
    let m ← rotate d.other m other
    let p ← m.nodes parent
    let other ← p.child d.other
    some (m, other)

def lastTurn (d : Side) (m : Mem ι) (parent other : ι) : Option (Mem ι) := do
  let (m, other) ← redFarChild d m parent other
  let p ← m.nodes parent
  let m ← rbSetColor m other p.color
  let m ← rbSetBlack m parent
  let o ← m.nodes other
  let m ← onNode (o.child d.other) (fun i m => rbSetBlack m i) m
  rotate d m parent

/-- Where __rb_erase_color is: the node that is one short, and its parent. -/
structure Shortage (ι : Type) where
  mem : Mem ι
  node : Option ι
  parent : Option ι

def besideBlack (d : Side) (m : Mem ι) (parent other : ι) : Option (Shortage ι ⊕ (Mem ι × Option ι)) := do
  let o ← m.nodes other
  let redLeft ← redAt m o.left
  let redRight ← redAt m o.right
  if !redLeft && !redRight then
    let m ← rbSetRed m other
    let p ← m.nodes parent
    some (.inl ⟨m, some parent, p.parent⟩)
  else
    let m ← lastTurn d m parent other
    some (.inr (m, m.root))

def eraseStep (m : Mem ι) (node : Option ι) (parent : ι) : Option (Shortage ι ⊕ (Mem ι × Option ι)) := do
  let p ← m.nodes parent
  let d := if p.left = node then Side.left else Side.right
  let (m, other) ← blackSibling d m parent
  besideBlack d m parent other

def eraseRound (s : Shortage ι) : Option (Shortage ι ⊕ (Mem ι × Option ι)) := do
  let red ← redAt s.mem s.node
  if red || decide (s.node = s.mem.root) then some (.inr (s.mem, s.node))
  else
    let parent ← s.parent
    eraseStep s.mem s.node parent

def rbEraseColor (rounds : Nat) (m : Mem ι) (node parent : Option ι) : Option (Mem ι) := do
  let (m, node) ← loop eraseRound rounds ⟨m, node, parent⟩
  onNode node (fun i m => rbSetBlack m i) m

def downRound (d : Side) (m : Mem ι) (i : ι) : Option (ι ⊕ ι) :=
  (m.nodes i).map fun n =>
    match n.child d with
    | none => .inr i
    | some j => .inl j

/-- The node behind the one to be erased gives way to its child. Its parent may be the erased node. -/
def cutNext (m : Mem ι) (old node : ι) (n : RbNode ι) : Option (Mem ι × Option ι) := do
  let m ← onNode n.right (fun i m => rbSetParent m i n.parent) m
  let above ← n.parent
  if above = old then (setChild m above .right n.right).map fun m => (m, some node)
  else (setChild m above .left n.right).map fun m => (m, n.parent)

def takePlace (m : Mem ι) (old node : ι) : Option (Mem ι × Color × Option ι × Option ι) := do
  let n ← m.nodes node
  let (m, parent) ← cutNext m old node n
  let o ← m.nodes old
  let m ← m.modify node fun _ => o
  let m ← relink .left m o.parent old (some node)
  let left ← o.left
  let m ← rbSetParent m left (some node)
  let m ← onNode o.right (fun i m => rbSetParent m i (some node)) m
  some (m, n.color, n.right, parent)

def bypass (m : Mem ι) (node : ι) (n : RbNode ι) (child : Option ι) :
    Option (Mem ι × Color × Option ι × Option ι) := do
  let m ← onNode child (fun i m => rbSetParent m i n.parent) m
  let m ← relink .left m n.parent node child
  some (m, n.color, child, n.parent)

/-- rb_erase up to its colours: the colour that is gone, what stands there now, and its parent. -/
def detach (rounds : Nat) (m : Mem ι) (node : ι) : Option (Mem ι × Color × Option ι × Option ι) := do
  let n ← m.nodes node
  match n.left, n.right with
  | none, right => bypass m node n right
  | left, none => bypass m node n left
  | some _, some right =>
      let next ← loop (downRound .left m) rounds right
      takePlace m node next

def rbErase (rounds : Nat) (m : Mem ι) (node : ι) : Option (Mem ι) := do
  let (m, color, child, parent) ← detach rounds m node
  if color = .black then rbEraseColor rounds m child parent else some m

-- The walks over a tree.

def endOf (d : Side) (rounds : Nat) (m : Mem ι) : Option (Option ι) :=
  match m.root with
  | none => some none
  | some n => (loop (downRound d m) rounds n).map some

def rbFirst (rounds : Nat) (m : Mem ι) : Option (Option ι) := endOf .left rounds m

def rbLast (rounds : Nat) (m : Mem ι) : Option (Option ι) := endOf .right rounds m

def upRound (d : Side) (m : Mem ι) (i : ι) : Option (ι ⊕ Option ι) := do
  let n ← m.nodes i
  match n.parent with
  | none => some (.inr none)
  | some parent =>
      let p ← m.nodes parent
      if p.child d = some i then some (.inl parent) else some (.inr (some parent))

def neighbour (d : Side) (rounds : Nat) (m : Mem ι) (i : ι) : Option (Option ι) := do
  let n ← m.nodes i
  if n.parent = some i then some none
  else
    match n.child d with
    | some j => (loop (downRound d.other m) rounds j).map some
    | none => loop (upRound d m) rounds i

def rbNext (rounds : Nat) (m : Mem ι) (i : ι) : Option (Option ι) := neighbour .right rounds m i

def rbPrev (rounds : Nat) (m : Mem ι) (i : ι) : Option (Option ι) := neighbour .left rounds m i

def rbReplaceNode (m : Mem ι) (victim new : ι) : Option (Mem ι) := do
  let v ← m.nodes victim
  let m ← relink .left m v.parent victim (some new)
  let m ← onNode v.left (fun i m => rbSetParent m i (some new)) m
  let m ← onNode v.right (fun i m => rbSetParent m i (some new)) m
  let v ← m.nodes victim
  m.modify new fun _ => v

end OiAmc.Rbtree
