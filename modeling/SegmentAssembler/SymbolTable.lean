import SegmentAssembler.DataType
import SegmentAssembler.Text.Capital

/-!
# Symbols

A symbol is a declared name: it stands for data of some type, for a text, or
for a place in the code, and it has an address.  The table keeps the symbols of
a program in the order of declaration.  A name is filed under its capital form,
so names that differ only in letter case are one name, and the first
declaration wins: a second one is refused and the table stays as it is.
-/

namespace SegmentAssembler

/-- What a name of the program stands for. -/
inductive Symbol.Kind where
  | ascii
  | byte
  | word
  | label
deriving DecidableEq, Repr

namespace Symbol.Kind

/-- A name for data has the kind of its values. -/
def ofDataType : DataType → Symbol.Kind
  | .byte => byte
  | .word => word

/-- The name shown in the names table of the listing. -/
def name : Symbol.Kind → Text
  | ascii => "String".toList
  | byte => "Byte".toList
  | word => "Word".toList
  | label => "Label".toList

end Symbol.Kind

/-- What is known of a declared name. -/
structure Symbol where
  kind : Symbol.Kind
  address : Nat
deriving DecidableEq, Repr

/-- Declared names under their capital forms, in order of declaration. -/
structure SymbolTable where
  entries : List (Text × Symbol) := []
deriving DecidableEq, Repr

namespace SymbolTable

/-- The capital forms of the declared names. -/
def keys (t : SymbolTable) : List Text := t.entries.map Prod.fst

def size (t : SymbolTable) : Nat := t.entries.length

def isEmpty (t : SymbolTable) : Bool := t.entries.isEmpty

/-- What a name stands for. -/
def get? (t : SymbolTable) (name : Text) : Option Symbol := t.entries.lookup (Text.upper name)

/-- The name is declared. -/
def contains (t : SymbolTable) (name : Text) : Bool := (t.get? name).isSome

/-- Declare a name, or give back the key that is already taken. -/
def insert (t : SymbolTable) (name : Text) (symbol : Symbol) : Except Text SymbolTable :=
  if t.contains name then .error (Text.upper name)
  else .ok ⟨t.entries ++ [(Text.upper name, symbol)]⟩

/-- Declare a name unless it is taken. -/
def declare (t : SymbolTable) (name : Text) (symbol : Symbol) : SymbolTable :=
  match t.insert name symbol with
  | .ok extended => extended
  | .error _ => t

/-- A name that is taken is refused. -/
@[simp] theorem insert_of_contains {t : SymbolTable} {name : Text} {symbol : Symbol}
    (h : t.contains name = true) : t.insert name symbol = .error (Text.upper name) := by
  simp [insert, h]

/-- A name that is free is put behind the others, in capitals. -/
@[simp] theorem insert_of_not_contains {t : SymbolTable} {name : Text} {symbol : Symbol}
    (h : t.contains name = false) :
    t.insert name symbol = .ok ⟨t.entries ++ [(Text.upper name, symbol)]⟩ := by
  simp [insert, h]

/-- Declaring a name that is taken changes nothing. -/
theorem declare_of_contains {t : SymbolTable} {name : Text} {symbol : Symbol}
    (h : t.contains name = true) : t.declare name symbol = t := by
  simp [declare, h]

/-- A new name goes to the end of the table. -/
theorem entries_declare_of_not_contains {t : SymbolTable} {name : Text} {symbol : Symbol}
    (h : t.contains name = false) :
    (t.declare name symbol).entries = t.entries ++ [(Text.upper name, symbol)] := by
  simp [declare, h]

end SymbolTable

end SegmentAssembler
