import SegmentAssembler.Item
import SegmentAssembler.SymbolTable

/-!
# The state of the scan and what lines do to it

The scan goes through the program once and assigns addresses.  Between two
lines it remembers whether the one segment is still to come, open or closed,
the name of the segment, the address counter and the names declared so far.

What an accepted line does is an `Effect`.  The state after the line, the
address that the listing shows for it, the item that it contributes and the
name that it declares are all read off the effect and the state before it:

    opened     the segment begins here
    closed     the segment ends here
    moved      the counter goes to another address
    labelled   a name for the address here
    defined    named data here; the counter passes it
    collected  an instruction here; the counter passes it

A rejected line has no effect at all.
-/

namespace SegmentAssembler

/-- How far the segment has come. -/
inductive Phase where
  | pending
  | opened
  | closed
deriving DecidableEq, Repr

/-- The name of a segment that was not given a valid one. -/
def defaultSegmentName : Text := "SEGMENT".toList

/-- The highest address. -/
def topAddress : Nat := 65535

/-- What the scan knows between two lines. -/
structure State where
  phase : Phase := .pending
  segmentName : Text := defaultSegmentName
  counter : Nat := 0
  names : SymbolTable := {}
deriving DecidableEq, Repr

/-- What a line does. -/
inductive Effect where
  | rejected
  | opened (segmentName : Text)
  | closed
  | moved (address : Nat)
  | labelled (id : Text)
  | defined (id : Text) (type : DataType) (values : List (Option Int))
  | collected (m : Mnemonic) (i : Instruction)
deriving DecidableEq, Repr

/-- The data of a definition line.  It is known by the capital form of its name. -/
def Definition.ofLine (id : Text) (type : DataType) (values : List (Option Int)) : Definition :=
  ⟨Text.upper id, type, values⟩

namespace Effect

/-- The item that the line contributes. -/
def item? : Effect → Option Item
  | defined id type values => some (.data (.ofLine id type values))
  | collected _ i => some (.instruction i)
  | _ => none

/-- The name that the line declares. -/
def declared? : Effect → Option (Text × Symbol.Kind)
  | labelled id => some (id, .label)
  | defined id type _ => some (id, .ofDataType type)
  | _ => none

/-- The listing shows an address beside the line. -/
def hasAddress : Effect → Bool
  | rejected => false
  | moved _ => false
  | _ => true

/-- The bytes by which the line advances the counter. -/
def advance (e : Effect) : Nat := (e.item?.map Item.size).getD 0

end Effect

namespace State

/-- The names after a line with the given effect. -/
def namesAfter (s : State) (e : Effect) : SymbolTable :=
  match e.declared? with
  | some (id, kind) => s.names.declare id ⟨kind, s.counter⟩
  | none => s.names

/-- The counter after a line with the given effect. -/
def counterAfter (s : State) : Effect → Nat
  | .moved address => address
  | e => s.counter + e.advance

/-- The state after a line with the given effect. -/
def apply (s : State) : Effect → State
  | .rejected => s
  | .opened name => { s with phase := .opened, segmentName := name }
  | .closed => { s with phase := .closed }
  | e => { s with counter := s.counterAfter e, names := s.namesAfter e }

@[simp] theorem apply_rejected (s : State) : s.apply .rejected = s := rfl

/-- The counter of the next state, whatever the line did. -/
theorem counter_apply (s : State) (e : Effect) : (s.apply e).counter = s.counterAfter e := by
  cases e <;> simp [apply, counterAfter, Effect.advance, Effect.item?]

/-- The names of the next state, whatever the line did. -/
theorem names_apply (s : State) (e : Effect) : (s.apply e).names = s.namesAfter e := by
  cases e <;> simp [apply, namesAfter, Effect.declared?]

end State

end SegmentAssembler
