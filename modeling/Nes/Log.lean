import Nes.Cartridge.Basic
import Nes.Text.Hex

/-! The log of a machine: events that it reports while it works, each of a level.
Which levels are kept is set by a threshold; the log never changes what the machine
does. -/
namespace Nes

inductive Level where
  | warn
  | debug
  | trace
  deriving DecidableEq

namespace Level

def label : Level → String
  | warn => "WARN"
  | debug => "DEBUG"
  | trace => "TRACE"

/-- The rarer the events of a level, the lower its rank. -/
def rank : Level → Nat
  | warn => 0
  | debug => 1
  | trace => 2

end Level

inductive Event where
  /-- An image has been read. -/
  | parsed (c : Cartridge)
  | attached (c : Cartridge)
  | reset (pc : Address)
  /-- The instruction at this address stopped the CPU. -/
  | halted (pc : Address)
  /-- An instruction is about to be executed; the line describes it. -/
  | instruction (line : String)
  /-- A byte has been written in the picture unit's address space. -/
  | dataWrite (target : Address) (v : Byte)

namespace Event

def level : Event → Level
  | halted _ => .warn
  | parsed _ | attached _ | reset _ => .debug
  | instruction _ | dataWrite _ _ => .trace

def text : Event → String
  | parsed c =>
    "parsed iNES image: mapper=" ++ toString c.header.mapper.toNat ++
      " mirroring=" ++ c.mirroring.label ++ " trainer=" ++ toString c.header.hasTrainer ++
      " prg=" ++ toString c.prgRom.size ++ "B chr=" ++ toString c.chrRom.size ++ "B"
  | attached c =>
    "attaching cartridge: prg=" ++ toString c.prgRom.size ++ "B chr=" ++
      toString c.chrRom.size ++ "B mirroring=" ++ c.mirroring.label
  | reset pc => "cpu reset: pc=$" ++ Text.hexAddress pc
  | halted pc => "cpu halted at $" ++ Text.hexAddress pc
  | instruction line => line
  | dataWrite target v => "PPUDATA $" ++ Text.hexAddress target ++ " <- $" ++ Text.hexByte v

/-- The event as a record of the log. -/
def record (e : Event) : String := e.level.label ++ " " ++ e.text

end Event

structure Log where
  threshold : Option Level := none
  events : Array Event := #[]

namespace Log

/-- Whether events of a level are kept. -/
def admits (log : Log) (level : Level) : Bool :=
  log.threshold.any (level.rank ≤ ·.rank)

def note (log : Log) (e : Event) : Log :=
  if log.admits e.level then { log with events := log.events.push e } else log

end Log
end Nes
