import StackText.Machine.Trap
import StackText.Prettify.Basic

/-!
# What is traced

The scanner, the prettifier, the machine and the codec report what they do as
events. An event is data; its message and its fields are the text that an observer
sees. Events that come with single bytes or opcodes are of the finest level.
-/
namespace StackText

/-- The part of the library that an event comes from. -/
inductive Component where
  | scanner | prettifier | machine | codec
  deriving DecidableEq, Repr

inductive TraceLevel where
  | trace | debug
  deriving DecidableEq, Repr

inductive Event where
  /-- The scanner passed over a byte, the one at this offset, that is no token. -/
  | fillerSkipped (byte : UInt8) (offset : Nat)
  /-- The prettifier is about to write an opcode differently, because of the one
  asked for before it. -/
  | expanding (last : Option Opcode) (op : Opcode)
  /-- A whole program was executed. -/
  | interpreted (executed depth : Nat)
  /-- Decoding ended at an opcode that could not be executed, after this many bytes. -/
  | decodeAborted (offset : Nat) (trap : Trap)
  /-- Decoding reached the end of its input. -/
  | decoded (bytes skipped executed : Nat)
  /-- A value was encoded and the sink flushed. -/
  | encoded (emitted : Nat) (mode : Mode)
  deriving DecidableEq, Repr

namespace Event

def component : Event → Component
  | .fillerSkipped .. => .scanner
  | .expanding .. => .prettifier
  | .interpreted .. => .machine
  | .decodeAborted .. | .decoded .. | .encoded .. => .codec

def level : Event → TraceLevel
  | .fillerSkipped .. | .expanding .. => .trace
  | .interpreted .. | .decodeAborted .. | .decoded .. | .encoded .. => .debug

def message : Event → String
  | .fillerSkipped .. => "skipping non-token byte"
  | .expanding .. => "rewriting opcode"
  | .interpreted .. => "interpreted opcode stream"
  | .decodeAborted .. => "decode aborted"
  | .decoded .. => "decoded value"
  | .encoded .. => "encoded value"

/-- The fields of an event with their texts, in a fixed order. -/
def fields : Event → List (String × String)
  | .fillerSkipped byte offset => [("byte", toString byte.toNat), ("offset", toString offset)]
  | .expanding last op =>
      let before := match last with
        | some l => "Some(" ++ l.mnemonic ++ ")"
        | none => "None"
      [("last", before), ("op", op.mnemonic)]
  | .interpreted executed depth =>
      [("executed", toString executed), ("depth", toString depth)]
  | .decodeAborted offset trap => [("offset", toString offset), ("error", trap.message)]
  | .decoded bytes skipped executed =>
      [("bytes", toString bytes), ("skipped", toString skipped), ("executed", toString executed)]
  | .encoded emitted mode => [("emitted", toString emitted), ("mode", mode.name)]

end Event

/-- A result together with the events on the way to it, in order. -/
structure Traced (α : Type) where
  result : α
  events : List Event
  deriving Repr

namespace Traced

/-- Puts earlier events in front. -/
def after {α : Type} (events : List Event) (t : Traced α) : Traced α :=
  ⟨t.result, events ++ t.events⟩

/-- Goes on with a result unless it is a failure, and collects the events of both. -/
def andThen {ε α β : Type} (t : Traced (Except ε α)) (next : α → Traced (Except ε β)) :
    Traced (Except ε β) :=
  match t.result with
  | .ok a => (next a).after t.events
  | .error e => ⟨.error e, t.events⟩

end Traced

/-- The expansions that happen when a program is prettified after `last`. -/
def expansionsAfter (mode : Mode) (last : Option Opcode) : List Opcode → List Event
  | [] => []
  | op :: rest =>
      (if mode.expands last op then [.expanding last op] else []) ++
        expansionsAfter mode (some op) rest

/-- Prettifies a program and tells which opcodes were expanded. -/
def prettifyTraced (mode : Mode) (program : List Opcode) : Traced (List Opcode) :=
  ⟨prettify mode program, expansionsAfter mode none program⟩

end StackText
