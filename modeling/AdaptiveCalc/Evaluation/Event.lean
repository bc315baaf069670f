import AdaptiveCalc.Node.Text

/-!
# Events and records

An evaluation leaves a list of what it did to slots and sites, and a run adds where
its statements begin. Records are what a log shows of that: level, message and
fields. Reads and most writes are events without a record.
-/
namespace AdaptiveCalc

inductive Event where
  | begin (statements : Nat)
  /-- A statement before the last one begins. -/
  | statement (index : Nat) (node : Node)
  | resultStatement (node : Node)
  | read (slot : Nat) (value : Value)
  /-- A write, and whether it takes the slot from integers to decimals. -/
  | write (slot : Nat) (value : Value) (demotes : Bool)
  | settle (op : Operator) (failure : Fast.Failure)
  deriving DecidableEq, Repr

inductive Level where
  | span
  | debug
  | trace
  deriving DecidableEq, Repr

inductive Field where
  | flag (b : Bool)
  | count (n : Nat)
  | text (s : String)
  deriving DecidableEq, Repr

structure Record where
  level : Level
  message : String
  fields : List (String × Field)
  deriving DecidableEq, Repr

namespace Record

def demotion (slot : Nat) : Record :=
  ⟨.trace, "demoting slot to precise", [("slot", .count slot)]⟩

def classification (fast : Bool) (numeral : String) : Record :=
  ⟨.trace, "classified numeral", [("fast", .flag fast), ("numeral", .text numeral)]⟩

end Record

def Event.record? : Event → Option Record
  | begin statements => some ⟨.span, "run", [("statements", .count statements)]⟩
  | statement index node =>
    some ⟨.trace, "statement", [("index", .count index), ("statement", .text node.text)]⟩
  | resultStatement node =>
    some ⟨.trace, "result statement", [("statement", .text node.text)]⟩
  | read .. => none
  | write slot _ demotes => if demotes then some (Record.demotion slot) else none
  | settle op failure =>
    some ⟨.debug, "binary node settled on precise arithmetic",
      [("op", .text op.symbol.toString), ("failure", .text failure.message)]⟩

/-- What a log shows of some events. -/
def records (events : List Event) : List Record := events.filterMap Event.record?

end AdaptiveCalc
