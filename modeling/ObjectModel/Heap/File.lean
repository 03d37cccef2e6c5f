import ObjectModel.Encoding
import ObjectModel.Heap.Basic

/-!
# Reading files

A handle delivers the pending bytes in order. A device fault is met when a read
wants more bytes than are pending; the bytes read so far are then lost.
-/

namespace ObjectModel.File

/-- The bytes up to and including the first newline, and the rest. -/
def splitLine : List UInt8 → List UInt8 × List UInt8
  | [] => ([], [])
  | b :: bs =>
    if b = 0x0A then ([b], bs)
    else
      let (line, rest) := splitLine bs
      (b :: line, rest)

/-- Delivers bytes, unless the handle is closed or the device fails. -/
def deliver (f : File) (complete : Bool) (taken rest : List UInt8) :
    Except Cause (List UInt8) × File :=
  if !f.isOpen then (.error .closedFile, f)
  else
    match f.failure with
    | some message =>
      if complete then (.ok taken, { f with pending := rest })
      else (.error (.device message), { f with pending := [] })
    | none => (.ok taken, { f with pending := rest })

def readLine (f : File) : Except Cause (List UInt8) × File :=
  let (line, rest) := splitLine f.pending
  f.deliver (f.pending.contains 0x0A) line rest

/-- Up to `size` bytes, or all that are left. -/
def read (f : File) : Option Nat → Except Cause (List UInt8) × File
  | some size =>
    let taken := f.pending.take size
    f.deliver (taken.length = size) taken (f.pending.drop size)
  | none => f.deliver false f.pending []

def close (f : File) : File := { f with pending := [], isOpen := false }

/-- Replaces each `\r\n` by `\n`. -/
def foldNewlines : List Char → List Char
  | [] => []
  | '\r' :: '\n' :: cs => '\n' :: foldNewlines cs
  | c :: cs => c :: foldNewlines cs

/-- What a text handle shows for bytes it delivered. -/
def present (f : File) (raw : List UInt8) : Except Cause (List Char) :=
  (Encoding.decodeUtf8 raw).map fun cs => if f.foldsNewlines then foldNewlines cs else cs

/-- The spelling of the mode as an attribute. -/
def modeText : FileMode → String
  | .text => "r"
  | .binary => "rb"

/-- The modes that files can be opened in. -/
def parseMode? (mode : List Char) : Option FileMode :=
  if mode = ['r'] ∨ mode = ['r', 't'] then some .text
  else if mode = ['r', 'b'] ∨ mode = ['b', 'r'] then some .binary
  else none

end ObjectModel.File
