/-!
# Channels

A channel connects a stage of a pipeline to the next.  It holds a bounded number of items, so a writer
may have to wait for room and a reader for an item.  When the writer has finished, the reader takes what
is left and is then told that no more will come; when the reader has finished, whatever the writer sends
is refused.
-/

set_option autoImplicit false

namespace ValueShell

/-- A channel of items of one type. -/
structure Channel (α : Type) where
  /-- The items sent and not yet taken, the next one first -/
  items : List α
  /-- How many items there is room for; without a bound there is always room -/
  capacity : Option Nat
  /-- Has the writer not finished? -/
  writing : Bool
  /-- Has the reader not finished? -/
  reading : Bool

namespace Channel

variable {α : Type}

/-- An empty channel with its writer and its reader still to come. -/
def empty (capacity : Option Nat) : Channel α :=
  ⟨[], capacity, true, true⟩

/-- A channel that holds all there will ever be to read. -/
def filled (items : List α) : Channel α :=
  ⟨items, none, false, true⟩

/-- A channel nobody reads. -/
def abandoned : Channel α :=
  ⟨[], some 1, true, false⟩

/-- Is there room for one more item? -/
def hasRoom (c : Channel α) : Bool :=
  c.capacity.all (c.items.length < ·)

/-- Would sending be answered at once, by room or by a refusal? -/
def sendReady (c : Channel α) : Bool :=
  !c.reading || c.hasRoom

/-- Sends an item, if there is a reader; the second part says whether there is. -/
def send (c : Channel α) (x : α) : Channel α × Bool :=
  if c.reading then ({ c with items := c.items ++ [x] }, true) else (c, false)

/-- Would receiving be answered at once, by an item or by the news that there are no more? -/
def receiveReady (c : Channel α) : Bool :=
  !c.items.isEmpty || !c.writing

/-- Takes the next item; nothing is left when there is none and the writer has finished. -/
def receive (c : Channel α) : Option α × Channel α :=
  match c.items with
  | x :: items => (some x, { c with items })
  | [] => (none, c)

/-- The writer has finished. -/
def closeWriter (c : Channel α) : Channel α :=
  { c with writing := false }

/-- The reader has finished; nobody will take what is still there. -/
def closeReader (c : Channel α) : Channel α :=
  { c with reading := false, items := [] }

end Channel

end ValueShell
