import ConfigScript.Decode.Cause
import ConfigScript.Item

set_option autoImplicit false

/-!
# Decoders

A decoder holds a stream of items and takes events from its front, looking at most one event
ahead. Readers are the computations on it. A reader that fails keeps what it has consumed, and an
error of the stream is handed on as it is.
-/

namespace ConfigScript

structure Decoder (ε : Type) where
  pending : List (Item ε)
  /-- An event that has been pulled and not consumed. -/
  peeked : Option (Event × Path)
  consumed : Path

/-- Why a reader fails: by an error of the stream, or since the events do not fit. -/
inductive Failure (ε : Type) where
  | stream (error : ε)
  | cause (cause : Cause)
  deriving Repr

namespace Decoder

def ofItems {ε : Type} (items : List (Item ε)) : Decoder ε :=
  ⟨items, none, Path.root ""⟩

def path {ε : Type} (decoder : Decoder ε) : Path :=
  match decoder.peeked with
  | some (_, path) => path
  | none => decoder.consumed

def remaining {ε : Type} (decoder : Decoder ε) : Nat :=
  decoder.pending.length + (if decoder.peeked.isSome then 1 else 0)

end Decoder

def Reader (ε α : Type) : Type :=
  Decoder ε → Except (Failure ε) α × Decoder ε

namespace Reader

variable {ε α β σ : Type}

def pure (value : α) : Reader ε α := fun decoder => (.ok value, decoder)

def bind (first : Reader ε α) (next : α → Reader ε β) : Reader ε β := fun decoder =>
  match first decoder with
  | (.ok value, rest) => next value rest
  | (.error failure, rest) => (.error failure, rest)

instance : Monad (Reader ε) where
  pure := Reader.pure
  bind := Reader.bind

def fail (cause : Cause) : Reader ε α := fun decoder => (.error (.cause cause), decoder)

def ofExcept : Except Cause α → Reader ε α
  | .ok value => Reader.pure value
  | .error cause => fail cause

/-- Looks at the next event without consuming it; `none` at the end of the stream. -/
def fetch : Reader ε (Option Event) := fun decoder =>
  match decoder.peeked with
  | some (event, _) => (.ok (some event), decoder)
  | none =>
    match decoder.pending with
    | [] => (.ok none, decoder)
    | .ok (event, path) :: rest =>
      (.ok (some event), { decoder with pending := rest, peeked := some (event, path) })
    | .error error :: rest => (.error (.stream error), { decoder with pending := rest })

def peek : Reader ε Event := do
  match ← fetch with
  | some event => return event
  | none => fail .endOfInput

def consume : Reader ε Unit := fun decoder =>
  match decoder.peeked with
  | some (_, path) => (.ok (), { decoder with peeked := none, consumed := path })
  | none => (.ok (), decoder)

def next : Reader ε Event := do
  let event ← peek
  consume
  return event

def expect (expected : Event) : Reader ε Unit := do
  let event ← next
  if event = expected then return ()
  else fail (.mismatch expected.describe event)

def primitive (expected : String) : Reader ε String := do
  match ← next with
  | .primitive text => return text
  | event => fail (.mismatch expected event)

def finish : Reader ε Unit := do
  match ← fetch with
  | none => return ()
  | some event => fail (.trailing event)

/-- Runs a reader that may go one round for each item that remains, and one more. -/
def bounded (reader : Nat → Reader ε α) : Reader ε α := fun decoder =>
  reader (decoder.remaining + 1) decoder

def iterateWithin (step : σ → Reader ε (Option σ)) : Nat → σ → Reader ε σ
  | 0, _ => fail .endOfInput
  | rounds + 1, state => fun decoder =>
    match step state decoder with
    | (.ok (some following), rest) => iterateWithin step rounds following rest
    | (.ok none, rest) => (.ok state, rest)
    | (.error failure, rest) => (.error failure, rest)

/-- Runs a step from a state until it gives no new state. Every step that gives one consumes an
event, so the rounds never run out. -/
def iterate (step : σ → Reader ε (Option σ)) (state : σ) : Reader ε σ :=
  bounded fun rounds => iterateWithin step rounds state

def collect (next? : Reader ε (Option α)) : Reader ε (List α) := do
  let newestFirst ← iterate (fun found => do return (← next?).map (· :: found)) []
  return newestFirst.reverse

/-- How many containers are open after one more event of a value, given how many were before it;
`none` when the value is complete, by a primitive or a close that leaves none open. -/
def depthAfter (depth : Nat) : Event → Except Cause (Option Nat)
  | .objectOpen | .arrayOpen => .ok (some (depth + 1))
  | .key _ | .typeTag _ => .ok (some depth)
  | .primitive _ => .ok (if depth = 0 then none else some depth)
  | .objectClose | .arrayClose =>
    match depth with
    | 0 => .error .unbalancedClose
    | 1 => .ok none
    | outer + 2 => .ok (some (outer + 1))

def skipEvent (depth : Nat) : Reader ε (Option Nat) := do
  ofExcept (depthAfter depth (← next))

def skip : Reader ε Unit := do
  let _ ← iterate skipEvent 0
  return ()

/-- Consumes the empty value: null, or an object without entries. -/
def empty : Reader ε Unit := do
  match ← next with
  | .primitive text =>
    if text = "null" then return () else fail (.mismatch "unit" (.primitive text))
  | .objectOpen => expect .objectClose
  | event => fail (.mismatch "unit" event)

end Reader

end ConfigScript
