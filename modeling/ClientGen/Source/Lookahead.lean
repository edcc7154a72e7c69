/-! # Reading ahead

A stream of values, with a filter in front of it, and a window over the next ones.
The window is filled by whichever request comes first: the first `next` on a fresh
stream shows the first value and every later one moves on by one, so a peek before
the first `next` makes that `next` show the second value.
-/

namespace ClientGen
namespace Source

/-- The next value that passes the filter, and what the stream holds behind it. -/
def pull {α : Type} (keep : α → Bool) : List α → Option α × List α
  | [] => (none, [])
  | value :: rest => if keep value then (some value, rest) else pull keep rest

/-- As many requests to the stream, one after the other. -/
def pulls {α : Type} (keep : α → Bool) : Nat → List α → List (Option α) × List α
  | 0, values => ([], values)
  | n + 1, values =>
    let (value, rest) := pull keep values
    let (more, rest) := pulls keep n rest
    (value :: more, rest)

/-- A stream with a window of `size` values beyond the current one. -/
structure Lookahead (α : Type) where
  size : Nat
  /-- What the stream has not given to the window yet. -/
  values : List α
  /-- The values of the stream that are shown. -/
  keep : α → Bool := fun _ => true
  /-- The current value and those beyond it, once the window is filled. -/
  window : Option (List (Option α)) := none

namespace Lookahead

variable {α : Type}

/-- The slots of a window, which also holds the current value: sizes are one byte
wide, and so is their sum. -/
def slots (l : Lookahead α) : Nat := (l.size + 1) % 256

/-- Filling the window writes one slot for each place up to `size`, which must exist. -/
def fits (l : Lookahead α) : Bool := l.size < l.slots

/-- The window, filled if this is the first request, and the stream behind it. -/
def filled (l : Lookahead α) : List (Option α) × Lookahead α :=
  match l.window with
  | some window => (window, l)
  | none =>
    let (window, rest) := pulls l.keep (l.size + 1) l.values
    (window, { l with values := rest, window := some window })

def next (l : Lookahead α) : Option α × Lookahead α :=
  match l.window with
  | none =>
    let (window, l) := l.filled
    (window[0]?.join, l)
  | some window =>
    let (value, rest) := pull l.keep l.values
    let window := window.tail ++ [value]
    (window[0]?.join, { l with values := rest, window := some window })

/-- The value `n` places after the current one, when the window reaches it. -/
def peek (l : Lookahead α) (n : Nat) : Option α × Lookahead α :=
  let (window, l) := l.filled
  (if n ≤ l.size then window[n]?.join else none, l)

/-- All values from the next one on, up to the first request that gets none. -/
def collect (l : Lookahead α) : List α × Lookahead α :=
  let pending := match l.window with
    | some window => window.tail.filterMap id
    | none => []
  (pending ++ l.values.filter l.keep,
    { l with values := [], window := some (List.replicate (l.size + 1) none) })

/-- A request to a stream with a window. -/
inductive Call where
  | next
  | ahead (k : Nat)
deriving Repr, DecidableEq

/-- One request. None if the window does not fit, where the program stops. -/
def call (l : Lookahead α) : Call → Option (Option α × Lookahead α)
  | .next => if l.fits then some l.next else none
  | .ahead k => if l.fits then some (l.peek k) else none

def run (l : Lookahead α) : List Call → Option (List (Option α))
  | [] => some []
  | c :: calls => do
    let (answer, l) ← l.call c
    let answers ← l.run calls
    return answer :: answers

end Lookahead
end Source
end ClientGen
