/-
Linked storage for a first-in first-out list.

Nodes live in one array and point at one another by index.  Two chains run
through the array: the live chain, from `head` to `tail`, holds the entries in
order, and the free chain, from `pool`, holds the nodes that await reuse.  A push
takes its node from the free chain and grows the array only when that chain is
empty, so a list that has once been long keeps room for that many entries.

An arena without pooling forgets its nodes whenever the last entry leaves.

The operations here follow the pointers and trust them.  That the pointers deserve
it is the subject of `WaitList/Sound.lean`.
-/

namespace BlockingSync

/-- One cell: an entry while it is live, nothing while it is free, and the next cell. -/
structure Node (α : Type) where
  value : Option α
  next : Option Nat

/-- The array of cells with the ends of its two chains. -/
structure Arena (α : Type) where
  nodes : Array (Node α)
  /-- The cell of the earliest entry. -/
  head : Option Nat
  /-- The cell of the latest entry. -/
  tail : Option Nat
  /-- The first free cell. -/
  pool : Option Nat
  /-- How many entries there are. -/
  size : Nat
  /-- Whether free cells are kept once the list is empty. -/
  pooling : Bool

namespace Arena

variable {α : Type}

/-- An arena without cells. -/
def empty (pooling : Bool) : Arena α :=
  ⟨#[], none, none, none, 0, pooling⟩

/-- The entry held by cell `i`. -/
def valueAt (nodes : Array (Node α)) (i : Nat) : Option α :=
  nodes[i]?.bind Node.value

/-- The cell that follows cell `i`. -/
def nextOf (nodes : Array (Node α)) (i : Nat) : Option Nat :=
  nodes[i]?.bind Node.next

/-- Makes `target` the successor of cell `i`. -/
def relink (nodes : Array (Node α)) (i : Nat) (target : Option Nat) : Array (Node α) :=
  nodes.modify i fun node => ⟨node.value, target⟩

/-- Empties the array of an arena that keeps no free cells, once no entry is left. -/
def releaseIfDrained (a : Arena α) : Arena α :=
  if a.pooling || a.size != 0 then a else { a with nodes := #[], pool := none }

/-- Takes a cell for a new last entry: a free one if there is any, else a fresh one. -/
def allocate (a : Arena α) (v : α) : Nat × Arena α :=
  match a.pool with
  | some i =>
    (i, { a with nodes := a.nodes.modify i fun _ => ⟨some v, none⟩, pool := nextOf a.nodes i })
  | none => (a.nodes.size, { a with nodes := a.nodes.push ⟨some v, none⟩ })

/-- Appends an entry. -/
def push (a : Arena α) (v : α) : Arena α :=
  let (i, a) := a.allocate v
  match a.tail with
  | some t => { a with nodes := relink a.nodes t (some i), tail := some i, size := a.size + 1 }
  | none => { a with head := some i, tail := some i, size := a.size + 1 }

/-- Takes the earliest entry out; its cell becomes the first free one. -/
def shift (a : Arena α) : Option α × Arena α :=
  match a.head with
  | none => (none, a)
  | some i =>
    let next := nextOf a.nodes i
    (valueAt a.nodes i,
      releaseIfDrained
        { a with
          nodes := a.nodes.modify i fun _ => ⟨none, a.pool⟩
          head := next
          tail := if next.isSome then a.tail else none
          pool := some i
          size := a.size - 1 })

/-- The cells met by following successors from `start`, at most `fuel` of them. -/
def follow (nodes : Array (Node α)) : Nat → Option Nat → List Nat
  | _, none => []
  | 0, some _ => []
  | fuel + 1, some i => i :: follow nodes fuel (nextOf nodes i)

/-- The cells of the live chain, earliest entry first. -/
def liveCells (a : Arena α) : List Nat :=
  follow a.nodes a.nodes.size a.head

/-- The cells of the free chain, next to be reused first. -/
def freeCells (a : Arena α) : List Nat :=
  follow a.nodes a.nodes.size a.pool

/-- What an iterator yields that stands at a cell or beyond the end, and where it stands then. -/
def next (a : Arena α) : Option Nat → Option α × Option Nat
  | none => (none, none)
  | some i => (valueAt a.nodes i, nextOf a.nodes i)

/-- Where an iterator stands after `count` steps, at the latest beyond the end. -/
def skip (a : Arena α) : Nat → Option Nat → Option Nat
  | 0, cursor => cursor
  | _ + 1, none => none
  | count + 1, some i => a.skip count (a.next (some i)).2

/-- What an iterator yields until it yields nothing, at most `fuel` entries, and where it stands
then. -/
def collect (a : Arena α) : Nat → Option Nat → List α × Option Nat
  | 0, cursor => ([], cursor)
  | fuel + 1, cursor =>
    match a.next cursor with
    | (none, cursor) => ([], cursor)
    | (some v, cursor) =>
      let (vs, cursor) := a.collect fuel cursor
      (v :: vs, cursor)

/-- Drops the entries of the given cells. -/
def vacate (nodes : Array (Node α)) (cells : List Nat) : Array (Node α) :=
  cells.foldl (fun nodes i => nodes.modify i fun node => ⟨none, node.next⟩) nodes

/-- Drops every entry; the live chain goes as a whole to the front of the free chain. -/
def clear (a : Arena α) : Arena α :=
  match a.tail with
  | none => a
  | some t =>
    releaseIfDrained
      { a with
        nodes := relink (vacate a.nodes a.liveCells) t a.pool
        head := none
        tail := none
        pool := a.head
        size := 0 }

/-- The entries, earliest first. -/
def toList (a : Arena α) : List α :=
  a.liveCells.filterMap (valueAt a.nodes)

end Arena

end BlockingSync
