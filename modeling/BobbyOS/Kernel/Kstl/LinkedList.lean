import BobbyOS.Kernel.ASMInterface
import BobbyOS.Lib.DoublyLinked
import BobbyOS.Lib.Effects

/-!
# `ministl::list`

A list object has two ends and a count; its nodes are in a memory that the
objects share.  Reading a null link or a node that was deleted is an error, and so
is a failed assertion.  Creating a node always succeeds.

-/

namespace Kernel

open DoublyLinked Effects

/-- A program over the nodes. -/
abbrev ListM (α β : Type) := EStateM Panic (Memory α) β

/-- `ministl::list`. -/
structure LinkedList where
  head : Option Nat := none
  tail : Option Nat := none
  size : Nat := 0
deriving DecidableEq

namespace LinkedList

variable {α : Type}

/-! ### Nodes -/

/-- `new Node(value)`. -/
def new (value : α) : ListM α (Option Nat) := fun m => .ok (some m.fresh) (m.alloc value)

/-- `*p`. -/
def deref (p : Option Nat) : ListM α (Node α) := fun m =>
  match p with
  | none => .error .nullPointer m
  | some a =>
      match m.cell a with
      | none => .error .outOfBounds m
      | some node => .ok node m

/-- An assignment to a field of `*p`. -/
def store (p : Option Nat) (f : Node α → Node α) : ListM α Unit := fun m =>
  match p with
  | none => .error .nullPointer m
  | some a =>
      match m.cell a with
      | none => .error .outOfBounds m
      | some node => .ok () (m.set a (some (f node)))

/-- `delete p`. -/
def delete (p : Option Nat) : ListM α Unit := fun m =>
  match p with
  | none => .ok () m
  | some a =>
      match m.cell a with
      | none => .error .outOfBounds m
      | some _ => .ok () (m.set a none)

/-- `p->next = q`. -/
def setNext (p q : Option Nat) : ListM α Unit := store p fun node => { node with next := q }

/-- `p->prev = q`. -/
def setPrev (p q : Option Nat) : ListM α Unit := store p fun node => { node with prev := q }

/-- `assert(condition)`. -/
def assert (condition : Bool) (text : String) : ListM α Unit :=
  if condition then pure () else throw (.assertFailed text)

/-! ### Ends -/

/-- `front`. -/
def front (l : LinkedList) : ListM α α := do
  assert l.head.isSome "head"
  return (← deref l.head).value

/-- `back`. -/
def back (l : LinkedList) : ListM α α := do
  assert l.tail.isSome "tail"
  return (← deref l.tail).value

/-- `empty`. -/
def empty (l : LinkedList) : Bool := l.size == 0

/-- `emplace_back`. -/
def emplaceBack (l : LinkedList) (value : α) : ListM α LinkedList := do
  if l.size = 0 then
    let node ← new value
    return { head := node, tail := node, size := l.size + 1 }
  else
    let node ← new value
    setNext l.tail node
    setPrev (← deref l.tail).next l.tail
    return { l with tail := (← deref l.tail).next, size := l.size + 1 }

/-- `emplace_front`. -/
def emplaceFront (l : LinkedList) (value : α) : ListM α LinkedList := do
  if l.size = 0 then
    let node ← new value
    return { head := node, tail := node, size := l.size + 1 }
  else
    let node ← new value
    setPrev l.head node
    setNext (← deref l.head).prev l.head
    return { l with head := (← deref l.head).prev, size := l.size + 1 }

/-- `pop_back`. -/
def popBack (l : LinkedList) : ListM α LinkedList := do
  assert (0 < l.size) "_size > 0"
  if l.size = 1 then
    delete l.tail
    return { head := none, tail := none, size := l.size - 1 }
  else
    let tail := (← deref l.tail).prev
    delete (← deref tail).next
    setNext tail none
    return { l with tail, size := l.size - 1 }

/-- `pop_front`. -/
def popFront (l : LinkedList) : ListM α LinkedList := do
  assert (0 < l.size) "_size > 0"
  if l.size = 1 then
    delete l.head
    return { head := none, tail := none, size := l.size - 1 }
  else
    let head := (← deref l.head).next
    delete (← deref head).prev
    setPrev head none
    return { l with head, size := l.size - 1 }

/-- `erase(pos)`: the iterator it returns, and the list. -/
def erase (l : LinkedList) (pos : Option Nat) : ListM α (Option Nat × LinkedList) := do
  if pos = none then return (none, l)
  else if l.size = 1 then
    delete pos
    return (none, { head := none, tail := none, size := 0 })
  else if pos = l.head then
    let l ← popFront l
    return (l.head, l)
  else if pos = l.tail then
    let l ← popBack l
    return (none, l)
  else
    setNext (← deref pos).prev (← deref pos).next
    setPrev (← deref pos).next (← deref pos).prev
    let ret := (← deref pos).next
    delete pos
    return (ret, l)

/-- `++it`. -/
def increment (pos : Option Nat) : ListM α (Option Nat) := do return (← deref pos).next

/-! ### Whole lists

Each loop gets as many rounds as addresses were handed out, or as its count asks
for.
-/

/-- The loop of `clear`. -/
def clearFrom : Nat → Option Nat → ListM α Unit
  | 0, it => if it = none then pure () else throw .halt
  | fuel + 1, it => do
      if it = none then return ()
      else
        let temp := (← deref it).next
        delete it
        clearFrom fuel temp

/-- `clear`. -/
def clear (l : LinkedList) : ListM α LinkedList := do
  clearFrom (← get).fresh l.head
  return { head := none, tail := none, size := 0 }

/-- The loop that links new nodes behind `it`; the last of them. -/
def extend : List α → Option Nat → ListM α (Option Nat)
  | [], it => pure it
  | value :: values, it => do
      let node ← new value
      setNext it node
      setPrev (← deref it).next it
      extend values (← deref it).next

/-- The constructors from values: `list(count, value)` and the one from an
initializer list. -/
def ofValues : List α → ListM α LinkedList
  | [] => pure {}
  | value :: values => do
      let head ← new value
      let tail ← extend values head
      return { head, tail, size := values.length + 1 }

/-- `list(count, value)`, and `list(count)` with `value = T()`. -/
def ofCount (count : Nat) (value : α) : ListM α LinkedList := ofValues (List.replicate count value)

/-- The loop that copies the nodes from `otherit` on behind `it`. -/
def copyFrom : Nat → Option Nat → Option Nat → ListM α (Option Nat)
  | 0, it, otherit => if otherit = none then pure it else throw .halt
  | fuel + 1, it, otherit => do
      if otherit = none then return it
      else
        let n ← new (← deref otherit).value
        setNext it n
        setPrev n it
        copyFrom fuel n (← deref otherit).next

/-- `list(const list&)`. -/
def copy (other : LinkedList) : ListM α LinkedList := do
  if other.head = none then return {}
  else
    let fuel := (← get).fresh
    let head ← new (← deref other.head).value
    let tail ← copyFrom fuel head (← deref other.head).next
    return { head, tail, size := other.size }

/-- `operator=(const list&)` from another list: a copy, swapped in. -/
def assign (l other : LinkedList) : ListM α LinkedList := do
  if other.head = none then clear l
  else
    let tmp ← copy other
    let _ ← clear l
    return tmp

/-- `operator=(list&&)` from another list, which is left empty. -/
def assignMove (l other : LinkedList) : ListM α (LinkedList × LinkedList) := do
  let _ ← clear l
  return (other, {})

/-- `while (_size > count) pop_back();` -/
def shrink (count : Nat) : Nat → LinkedList → ListM α LinkedList
  | 0, l => pure l
  | fuel + 1, l => do
      if l.size > count then shrink count fuel (← popBack l)
      else return l

/-- `while (_size < count) emplace_back(value);` -/
def grow (count : Nat) (value : α) : Nat → LinkedList → ListM α LinkedList
  | 0, l => pure l
  | fuel + 1, l => do
      if l.size < count then grow count value fuel (← emplaceBack l value)
      else return l

/-- `resize(count, value)`, and `resize(count)` with `value = T()`. -/
def resize (l : LinkedList) (count : Nat) (value : α) : ListM α LinkedList := do
  grow count value count (← shrink count l.size l)

end LinkedList

end Kernel
