import ObjectModel.Heap.File
import ObjectModel.Session

/-!
# Iteration

Iterators read their source as they go. `next` asks for one item and answers
none when the iterator is exhausted; `fold` feeds the items to a step function,
which may stop early.
-/

namespace ObjectModel

/-- Iterating makes a new cursor, or uses the value itself. -/
def Value.hasIter : Value → Bool
  | .str .. | .bytes .. | .bytearray _ | .tuple .. | .list _ | .dict _ | .set _ | .range ..
  | .view .. | .cursor .. | .file .. => true
  | _ => false

/-- Values that repeat under multiplication. -/
def Value.isRepeatable : Value → Bool
  | .str .. | .list _ | .tuple .. | .bytes .. | .bytearray _ => true
  | _ => false

namespace Action

/-- The value that a file handle shows for the bytes it delivers. -/
def readWith (r : Ref .file) (reading : File → Except Cause (List UInt8) × File) : Action Value := do
  let f ← readFile r
  let (outcome, after) := reading f
  writeFile r after
  let raw ← (outcome : Except Cause (List UInt8))
  match f.mode with
  | .binary => newBytes raw
  | .text => newChars (← f.present raw)

def nextLine (r : Ref .file) : Action (Option Value) := do
  let line ← readWith r File.readLine
  match line with
  | .bytes _ [] => return none
  | .str _ t => return if t.isEmpty then none else some line
  | _ => return some line

/-- One item of each iterator, in order; stops at the first exhausted one. -/
def advanceRow (next : Value → Action (Option Value)) : List Value → Action (Option (List Value))
  | [] => return some []
  | it :: its => do
    match ← next it with
    | none => return none
    | some v =>
      match ← advanceRow next its with
      | none => return none
      | some vs => return some (v :: vs)

/-- One step of a cursor; `next` steps the iterators that it reads. -/
def advanceCursor (next : Value → Action (Option Value)) (r : Ref .cursor) :
    Action (Option Value) := do
  match ← readCursor r with
  | .list source position done =>
    if done then return none
    match ← readListItem? source position with
    | some v =>
      writeCursor r (.list source (position + 1) false)
      return some v
    | none =>
      writeCursor r (.list source position true)
      return none
  | .dict part source position done =>
    if done then return none
    match (← readDict source).entryAt? position with
    | some (k, v) =>
      writeCursor r (.dict part source (position + 1) false)
      match part with
      | .keys => return some k.value
      | .values => return some v
      | .items => return some (← newTuple [k.value, v])
    | none =>
      writeCursor r (.dict part source position true)
      return none
  | .items rest =>
    match rest with
    | [] => return none
    | v :: vs =>
      writeCursor r (.items vs)
      return some v
  | .bytes rest =>
    match rest with
    | [] => return none
    | b :: bs =>
      writeCursor r (.bytes bs)
      return some (← newByte b)
  | .text offset rest =>
    match rest with
    | [] => return none
    | c :: cs =>
      writeCursor r (.text (offset + c.utf8Size) cs)
      return some (← newText (.ofChar c))
  | .backwardText rest =>
    match rest with
    | [] => return none
    | c :: cs =>
      writeCursor r (.backwardText cs)
      return some (← newText (.ofChar c))
  | .range current step remaining =>
    match remaining with
    | 0 => return none
    | n + 1 =>
      writeCursor r (.range (current + step) step n)
      return some (← newInt current)
  | .backwardList source bound =>
    match bound with
    | 0 => return none
    | n + 1 =>
      match ← readListItem? source n with
      | some v =>
        writeCursor r (.backwardList source n)
        return some v
      | none =>
        writeCursor r (.backwardList source 0)
        return none
  | .backwardBytearray source bound =>
    match bound with
    | 0 => return none
    | n + 1 =>
      match ← readBytearrayItem? source n with
      | some b =>
        writeCursor r (.backwardBytearray source n)
        return some (← newByte b)
      | none =>
        writeCursor r (.backwardBytearray source 0)
        return none
  | .backwardRange source bound =>
    match bound with
    | 0 => return none
    | n + 1 =>
      writeCursor r (.backwardRange source n)
      return some (← newInt (source.nth n))
  | .zip inputs done =>
    if done || inputs.isEmpty then return none
    match ← advanceRow next inputs with
    | some row => return some (← newTuple row)
    | none =>
      writeCursor r (.zip inputs true)
      return none
  | .enumerate input counter =>
    match ← next input with
    | none => return none
    | some v =>
      match counter with
      | none => fail .overflow
      | some n =>
        writeCursor r (.enumerate input (Checked.narrow? (n.toInt + 1)))
        return some (← newTuple [← newInt n, v])

/-- One step of an iterator through at most `depth` cursors. -/
def advance : Nat → Value → Action (Option Value)
  | 0, _ => throw .unbounded
  | depth + 1, .cursor _ r => advanceCursor (advance depth) r
  | _ + 1, .file _ r => nextLine r
  | _ + 1, v => unimplemented "next" v.kind

/-- The next item. A cursor reads only cursors that are older than itself, so
their number bounds the depth. -/
def next (v : Value) : Action (Option Value) := do advance ((← heap).cursors.size + 1) v

/-- A cursor over a container, or the iterator itself. -/
def iter (v : Value) : Action Value := do
  match v with
  | .str _ t => newCursor .text (.text 0 t.chars)
  | .bytes _ data => newCursor .bytes (.bytes data)
  | .bytearray r => newCursor .bytearray (.bytes (← readBytearray r))
  | .tuple _ items => newCursor .tuple (.items items)
  | .list r => newCursor .list (.list r 0 false)
  | .dict r => newCursor (.dict .keys) (.dict .keys r 0 false)
  | .set r => newCursor .set (.items ((← readSet r).keys.map (·.value)))
  | .range _ r => newCursor .range (.range r.start r.step r.count)
  | .view _ part r => newCursor (.dict part) (.dict part r 0 false)
  | .cursor .. => return v
  | .file _ r => if (← readFile r).isOpen then return v else fail .closedFile
  | _ => fail (.notIterable v.kind)

end Action

/-- An upper bound on the items that an iterator still yields while its source
does not grow. -/
def Heap.remaining (h : Heap) : Nat → Value → Nat
  | 0, _ => 0
  | depth + 1, .cursor _ r =>
    match h.cursor r with
    | .list source position _ => (h.list source).length - position
    | .dict _ source position _ => (h.dict source).size - position
    | .items rest => rest.length
    | .bytes rest => rest.length
    | .text _ rest | .backwardText rest => rest.length
    | .range _ _ remaining => remaining
    | .backwardList _ bound | .backwardBytearray _ bound | .backwardRange _ bound => bound
    | .zip inputs _ => (inputs.head?.map (h.remaining depth)).getD 0
    | .enumerate input _ => h.remaining depth input
  | _ + 1, .file _ r => (h.file r).pending.length
  | _ + 1, _ => 0

/-- What a source may grow by while it is read. -/
def growthAllowance : Nat := 0x4000000000000000

/-- The number of items after which reading an iterator is given up. -/
def Heap.patience (h : Heap) (it : Value) : Nat :=
  h.remaining (h.cursors.size + 1) it + growthAllowance

namespace Action

variable {σ : Type}

/-- Feeds the items of an iterator to a step function. -/
def foldFrom (step : σ → Value → Action (ForInStep σ)) : Nat → Value → σ → Action σ
  | 0, _, _ => throw .unbounded
  | budget + 1, it, acc => do
    match ← next it with
    | none => return acc
    | some v =>
      match ← step acc v with
      | .done acc => return acc
      | .yield acc => foldFrom step budget it acc

/-- Feeds the items of an iterable value to a step function. -/
def fold (step : σ → Value → Action (ForInStep σ)) (v : Value) (acc : σ) : Action σ := do
  let it ← iter v
  foldFrom step ((← heap).patience it) it acc

/-- Collects items, last first. -/
def collect (acc : List Value) (x : Value) : Action (ForInStep (List Value)) :=
  return .yield (x :: acc)

/-- The items of an iterable value. -/
def items (v : Value) : Action (List Value) := do return (← fold collect v []).reverse

end Action

end ObjectModel
