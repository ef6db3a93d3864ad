import Liric.Source.Ir.Module
import Liric.Source.Ll.Lexer

/-!
# Names and types in dumps

Source: src/ir.c:1836-1969 (`type_name`, `print_type`, `print_struct_body`, `ir_name_is_plain`,
`print_ir_escaped_name`, `print_ir_symbol_ref`).

What is printed is the list of its bytes. No field of a type is null, as no constructor stores
one.
-/
namespace Liric.Source.Ir
open Ll (decimalName spelled)

def isPlainChar (c : UInt8) : Bool :=
  (97 ≤ c && c ≤ 122) || (65 ≤ c && c ≤ 90) || (48 ≤ c && c ≤ 57) || c == 95 || c == 46 || c == 36 ||
    c == 45

def irNameIsPlain (name : CStr) : Bool := !name.isEmpty && name.all isPlainChar

/-- A backslash stands in front of quotes and backslashes. -/
def escapeName : CStr → CStr
  | [] => []
  | c :: rest => if c = 34 ∨ c = 92 then 92 :: c :: escapeName rest else c :: escapeName rest

def printIrEscapedName (name : CStr) : CStr := 34 :: (escapeName name ++ [34])

/-- A `sigil` of 0 is not printed, and `?` stands for the empty name. -/
def printIrSymbolRef (sigil : UInt8) (name : CStr) : CStr :=
  (if sigil ≠ 0 then [sigil] else []) ++
    if name.isEmpty then [63]
    else if irNameIsPlain name then name
    else printIrEscapedName name

def typeName : ScalarKind → CStr
  | .void => spelled "void"
  | .i1 => spelled "i1"
  | .i8 => spelled "i8"
  | .i16 => spelled "i16"
  | .i32 => spelled "i32"
  | .i64 => spelled "i64"
  | .float => spelled "float"
  | .double => spelled "double"
  | .x86Fp80 => spelled "x86_fp80"
  | .fp128 => spelled "fp128"

/-- The name that a struct is printed with. -/
def structName (name : Option CStr) : Option CStr := name.filter fun n => !n.isEmpty

/-- `...` behind the parameters. -/
def printVararg (params : List LrType) (vararg : Bool) : CStr :=
  if vararg then (if params.isEmpty then [] else spelled ", ") ++ spelled "..." else []

/-- The braces of a struct, and the angle brackets of a packed one. -/
def braced (packed : Bool) (fields : CStr) : CStr :=
  (if packed then spelled "<" else []) ++ spelled "\x7b " ++ fields ++ spelled " \x7d" ++
    (if packed then spelled ">" else [])

mutual
/-- `print_type`; only definitions of named structs are expanded. -/
def printType : LrType → CStr
  | .scalar _ kind => typeName kind
  | .ptr .. => spelled "ptr"
  | .array _ elem count =>
    spelled "[" ++ decimalName count.toNat ++ spelled " x " ++ printType elem ++ spelled "]"
  | .vector _ elem count =>
    spelled "<" ++ decimalName count.toNat ++ spelled " x " ++ printType elem ++ spelled ">"
  | .struct _ fields packed name =>
    match structName name with
    | some n => printIrSymbolRef 37 n
    | none => braced packed (printTypes fields)
  | .func _ ret params vararg =>
    printType ret ++ spelled " (" ++ printTypes params ++ printVararg params vararg ++ spelled ")"

/-- Types with `, ` between them. -/
def printTypes : List LrType → CStr
  | [] => []
  | [type] => printType type
  | type :: rest => printType type ++ spelled ", " ++ printTypes rest
end

def printStructBody (fields : List LrType) (packed : Bool) : CStr := braced packed (printTypes fields)

end Liric.Source.Ir
