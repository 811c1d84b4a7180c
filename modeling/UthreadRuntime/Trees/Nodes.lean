import UthreadRuntime.Support.RedBlack
import Mathlib.Logic.Function.Basic

/-! The red-black trees of `tree.h`, as the macros run them.

A node is the `RB_ENTRY` of a structure: two children, a parent, a colour. `Memory` is one
tree's head and that field of every structure. A null pointer that is followed gives no
result, and neither does a loop that runs out of `fuel` turns. Where an arm of the source
is the mirror image of the one before, the side is a parameter. `RB_AUGMENT` is empty. -/
namespace UthreadRuntime.Rb
open RedBlack

/-- `RB_ENTRY` -/
structure Node (α : Type) where
  rbeLeft : Option α
  rbeRight : Option α
  rbeParent : Option α
  rbeColor : Color
  deriving DecidableEq, Repr

/-- `RB_LEFT`, `RB_RIGHT` -/
def Node.child {α : Type} (n : Node α) : Side → Option α
  | .left => n.rbeLeft
  | .right => n.rbeRight

def Node.setChild {α : Type} (n : Node α) : Side → Option α → Node α
  | .left, p => {n with rbeLeft := p}
  | .right, p => {n with rbeRight := p}

structure Memory (α : Type) where
  rbhRoot : Option α
  field : α → Node α

namespace Memory
variable {α : Type} [DecidableEq α]

def update (m : Memory α) (a : α) (n : Node α) : Memory α :=
  {m with field := Function.update m.field a n}

def setRoot (m : Memory α) (p : Option α) : Memory α := {m with rbhRoot := p}

def setChild (m : Memory α) (a : α) (s : Side) (p : Option α) : Memory α :=
  m.update a ((m.field a).setChild s p)

def setParent (m : Memory α) (a : α) (p : Option α) : Memory α :=
  m.update a {m.field a with rbeParent := p}

def setColor (m : Memory α) (a : α) (c : Color) : Memory α :=
  m.update a {m.field a with rbeColor := c}

/-- `if (p) RB_PARENT(p) = parent` -/
def adopt (m : Memory α) (p parent : Option α) : Memory α :=
  match p with
  | some a => m.setParent a parent
  | none => m

/-- `if (p) RB_COLOR(p) = c` -/
def paint (m : Memory α) (p : Option α) (c : Color) : Memory α :=
  match p with
  | some a => m.setColor a c
  | none => m

/-- `p && RB_COLOR(p) == RB_RED` -/
def isRed (m : Memory α) (p : Option α) : Bool :=
  match p with
  | some a => decide ((m.field a).rbeColor = .red)
  | none => false

/-- `RB_INIT` -/
def rbInit (m : Memory α) : Memory α := m.setRoot none

/-- `RB_EMPTY` -/
def rbEmpty (m : Memory α) : Bool := m.rbhRoot.isNone

/-- `RB_SET` -/
def rbSet (m : Memory α) (elm : α) (parent : Option α) : Memory α :=
  m.update elm ⟨none, none, parent, .red⟩

/-- `RB_SET_BLACKRED` -/
def rbSetBlackRed (m : Memory α) (black red : α) : Memory α :=
  (m.setColor black .black).setColor red .red

/-- The pointer to `old` in its parent, or in the head, is set to `new`. -/
def relink (m : Memory α) (parent : Option α) (old : α) (new : Option α) : Memory α :=
  match parent with
  | some p =>
    if (m.field p).rbeLeft = some old then m.setChild p .left new
    else m.setChild p .right new
  | none => m.setRoot new

/-- The child `tmp` of `elm` on the side other than `s` takes its place, and `elm` becomes
the child of `tmp` on side `s`. -/
def rotate (s : Side) (m : Memory α) (elm : α) : Option (Memory α) := do
  let tmp ← (m.field elm).child s.other
  let inner := (m.field tmp).child s
  let m := (m.setChild elm s.other inner).adopt inner (some elm)
  let parent := (m.field elm).rbeParent
  let m := (m.setParent tmp parent).relink parent elm (some tmp)
  some ((m.setChild tmp s (some elm)).setParent elm (some tmp))

/-- `RB_ROTATE_LEFT` -/
def rbRotateLeft (m : Memory α) (elm : α) : Option (Memory α) := m.rotate .left elm

/-- `RB_ROTATE_RIGHT` -/
def rbRotateRight (m : Memory α) (elm : α) : Option (Memory α) := m.rotate .right elm

/-- A turn of the loop of `RB_INSERT_COLOR`, `parent` being the child of `gparent` on side
`s`: the memory, and `elm` for the next turn. -/
def insertColorTurn (s : Side) (m : Memory α) (gparent parent elm : α) :
    Option (Memory α × α) := do
  let tmp := (m.field gparent).child s.other
  if m.isRed tmp then
    some ((m.paint tmp .black).rbSetBlackRed parent gparent, gparent)
  else
    let (m, parent, elm) ←
      if (m.field parent).child s.other = some elm then do
        let m ← m.rotate s parent
        some (m, elm, parent)
      else some (m, parent, elm)
    let m ← (m.rbSetBlackRed parent gparent).rotate s.other gparent
    some (m, elm)

def rbInsertColor : Nat → Memory α → α → Option (Memory α)
  | 0, _, _ => none
  | fuel + 1, m, elm =>
    if m.isRed (m.field elm).rbeParent then do
      let parent ← (m.field elm).rbeParent
      let gparent ← (m.field parent).rbeParent
      let s := if (m.field gparent).rbeLeft = some parent then Side.left else .right
      let (m, elm) ← m.insertColorTurn s gparent parent elm
      rbInsertColor fuel m elm
    else do
      let root ← m.rbhRoot
      some (m.setColor root .black)

/-- The last lines of a turn of `RB_REMOVE_COLOR`: the child of `tmp` away from `elm` is red. -/
def borrow (s : Side) (m : Memory α) (parent tmp : α) : Option (Memory α) :=
  let m := (m.setColor tmp (m.field parent).rbeColor).setColor parent .black
  (m.paint ((m.field tmp).child s.other) .black).rotate s parent

/-- What a turn does once `tmp`, the node across from `elm`, is black. The flag is set when
the loop is left. -/
def acrossBlack (s : Side) (m : Memory α) (parent tmp : α) : Option (Memory α × Bool) :=
  if !m.isRed (m.field tmp).rbeLeft && !m.isRed (m.field tmp).rbeRight then
    some (m.setColor tmp .red, false)
  else do
    let (m, tmp) ←
      if !m.isRed ((m.field tmp).child s.other) then do
        let m ← ((m.paint ((m.field tmp).child s) .black).setColor tmp .red).rotate s.other tmp
        let tmp ← (m.field parent).child s.other
        some (m, tmp)
      else some (m, tmp)
    let m ← m.borrow s parent tmp
    some (m, true)

/-- A turn of the loop of `RB_REMOVE_COLOR`, `elm` being the child of `parent` on side `s`. -/
def removeColorTurn (s : Side) (m : Memory α) (parent : α) : Option (Memory α × Bool) := do
  let tmp ← (m.field parent).child s.other
  let (m, tmp) ←
    if (m.field tmp).rbeColor = .red then do
      let m ← (m.rbSetBlackRed tmp parent).rotate s parent
      let tmp ← (m.field parent).child s.other
      some (m, tmp)
    else some (m, tmp)
  m.acrossBlack s parent tmp

def rbRemoveColor : Nat → Memory α → Option α → Option α → Option (Memory α)
  | 0, _, _, _ => none
  | fuel + 1, m, parent, elm =>
    if m.isRed elm = false ∧ elm ≠ m.rbhRoot then do
      let parent ← parent
      let s := if (m.field parent).rbeLeft = elm then Side.left else .right
      let (m, left) ← m.removeColorTurn s parent
      if left then some (m.paint m.rbhRoot .black)
      else rbRemoveColor fuel m (m.field parent).rbeParent (some parent)
    else some (m.paint elm .black)

/-- Down one side from `a` to the last node. -/
def farthest (s : Side) : Nat → Memory α → α → Option α
  | 0, _, _ => none
  | fuel + 1, m, a =>
    match (m.field a).child s with
    | some b => farthest s fuel m b
    | none => some a

/-- The walk that `RB_REMOVE` makes up to the root for `RB_AUGMENT`. -/
def augmentUp : Nat → Memory α → α → Option Unit
  | 0, _, _ => none
  | fuel + 1, m, a =>
    match (m.field a).rbeParent with
    | some b => augmentUp fuel m b
    | none => some ()

/-- `elm` takes over the field of `old`, and what pointed at `old` now points at `elm`. -/
def supplant (m : Memory α) (old elm : α) : Option (Memory α) := do
  let m := m.update elm (m.field old)
  let m := m.relink (m.field old).rbeParent old (some elm)
  let m := m.setParent (← (m.field old).rbeLeft) (some elm)
  some (m.adopt (m.field old).rbeRight (some elm))

/-- `RB_REMOVE` -/
def rbRemove (fuel : Nat) (m : Memory α) (elm : α) : Option (Memory α × α) :=
  match (m.field elm).rbeLeft, (m.field elm).rbeRight with
  | none, child => unlink elm child
  | some left, none => unlink elm (some left)
  | some _, some right => do
    let old := elm
    let elm ← m.farthest .left fuel right
    let child := (m.field elm).rbeRight
    let parent := (m.field elm).rbeParent
    let color := (m.field elm).rbeColor
    let m := (m.adopt child parent).relink parent elm child
    let parent := if (m.field elm).rbeParent = some old then some elm else parent
    let m ← m.supplant old elm
    if let some p := parent then m.augmentUp fuel p
    finish m color parent child old
where
  /-- From `color:` on. -/
  finish (m : Memory α) (color : Color) (parent child : Option α) (old : α) :
      Option (Memory α × α) := do
    let m ← if color = .black then m.rbRemoveColor fuel parent child else some m
    some (m, old)
  /-- A node without one of its children is cut out. -/
  unlink (elm : α) (child : Option α) : Option (Memory α × α) :=
    let parent := (m.field elm).rbeParent
    let color := (m.field elm).rbeColor
    finish ((m.adopt child parent).relink parent elm child) color parent child elm

section Insert
variable (cmp : α → α → Int)

/-- The way down of `RB_INSERT`: the node that compares equal, or the last node passed and
how `elm` compares to it. -/
def insertPoint : Nat → Memory α → α → Option α → Option α → Int →
    Option (α ⊕ Option α × Int)
  | 0, _, _, _, _, _ => none
  | fuel + 1, m, elm, tmp, parent, comp =>
    match tmp with
    | none => some (.inr (parent, comp))
    | some a =>
      let comp := cmp elm a
      if comp < 0 then insertPoint fuel m elm (m.field a).rbeLeft (some a) comp
      else if comp > 0 then insertPoint fuel m elm (m.field a).rbeRight (some a) comp
      else some (.inl a)

/-- `RB_INSERT`: null when `elm` was linked, else the node in the way. -/
def rbInsert (fuel : Nat) (m : Memory α) (elm : α) : Option (Memory α × Option α) := do
  match ← m.insertPoint cmp fuel elm m.rbhRoot none 0 with
  | .inl tmp => some (m, some tmp)
  | .inr (parent, comp) =>
    let m := m.rbSet elm parent
    let m := match parent with
      | some p => if comp < 0 then m.setChild p .left (some elm) else m.setChild p .right (some elm)
      | none => m.setRoot (some elm)
    let m ← m.rbInsertColor fuel elm
    some (m, none)

end Insert

/-- The loop of `RB_FIND`. What is searched for is only compared, and need not be a node. -/
def findFrom {β : Type} (cmp : β → α → Int) : Nat → Memory α → β → Option α → Option (Option α)
  | 0, _, _, _ => none
  | _ + 1, _, _, none => some none
  | fuel + 1, m, elm, some tmp =>
    let comp := cmp elm tmp
    if comp < 0 then findFrom cmp fuel m elm (m.field tmp).rbeLeft
    else if comp > 0 then findFrom cmp fuel m elm (m.field tmp).rbeRight
    else some (some tmp)

/-- `RB_FIND` -/
def rbFind {β : Type} (cmp : β → α → Int) (fuel : Nat) (m : Memory α) (elm : β) :
    Option (Option α) :=
  m.findFrom cmp fuel elm m.rbhRoot

/-- The loop of `RB_NFIND`. -/
def nfindFrom {β : Type} (cmp : β → α → Int) :
    Nat → Memory α → β → Option α → Option α → Option (Option α)
  | 0, _, _, _, _ => none
  | _ + 1, _, _, none, res => some res
  | fuel + 1, m, elm, some tmp, res =>
    let comp := cmp elm tmp
    if comp < 0 then nfindFrom cmp fuel m elm (m.field tmp).rbeLeft (some tmp)
    else if comp > 0 then nfindFrom cmp fuel m elm (m.field tmp).rbeRight res
    else some (some tmp)

/-- `RB_NFIND` -/
def rbNfind {β : Type} (cmp : β → α → Int) (fuel : Nat) (m : Memory α) (elm : β) :
    Option (Option α) :=
  m.nfindFrom cmp fuel elm m.rbhRoot none

/-- The loop of `RB_MINMAX`. -/
def minMaxFrom (val : Int) : Nat → Memory α → Option α → Option α → Option (Option α)
  | 0, _, _, _ => none
  | _ + 1, _, none, parent => some parent
  | fuel + 1, m, some tmp, _ =>
    if val < 0 then minMaxFrom val fuel m (m.field tmp).rbeLeft (some tmp)
    else minMaxFrom val fuel m (m.field tmp).rbeRight (some tmp)

/-- `RB_MINMAX` -/
def rbMinMax (fuel : Nat) (m : Memory α) (val : Int) : Option (Option α) :=
  m.minMaxFrom val fuel m.rbhRoot none

def rbNegInf : Int := -1
def rbInf : Int := 1

/-- `RB_MIN` -/
def rbMin (fuel : Nat) (m : Memory α) : Option (Option α) := m.rbMinMax fuel rbNegInf

/-- `RB_MAX` -/
def rbMax (fuel : Nat) (m : Memory α) : Option (Option α) := m.rbMinMax fuel rbInf

/-- Up while the node is its parent's child on side `s`, then once more. -/
def climb (s : Side) : Nat → Memory α → α → Option (Option α)
  | 0, _, _ => none
  | fuel + 1, m, a =>
    match (m.field a).rbeParent with
    | some p => if (m.field p).child s = some a then climb s fuel m p else some (some p)
    | none => some none

/-- The node beside `elm` on side `s`, in the order of the tree. -/
def neighbour (s : Side) (fuel : Nat) (m : Memory α) (elm : α) : Option (Option α) :=
  match (m.field elm).child s with
  | some a => (m.farthest s.other fuel a).map some
  | none =>
    match (m.field elm).rbeParent with
    | some p => if (m.field p).child s.other = some elm then some (some p) else m.climb s fuel elm
    | none => m.climb s fuel elm

/-- `RB_NEXT` -/
def rbNext (fuel : Nat) (m : Memory α) (elm : α) : Option (Option α) := m.neighbour .right fuel elm

/-- `RB_PREV` -/
def rbPrev (fuel : Nat) (m : Memory α) (elm : α) : Option (Option α) := m.neighbour .left fuel elm

end Memory

end UthreadRuntime.Rb
