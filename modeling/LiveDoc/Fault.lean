import LiveDoc.Fragment.Tree
import LiveDoc.Value

/-!
Why the running of a fragment stops. A fault has a cause, and from the cause follow the name of
the exception and its message. What a fragment raises on its own brings its name with it.
-/
namespace LiveDoc

open Fragment (BinaryOp UnaryOp CompareOp)

inductive Fault where
  | unboundName (name : String)
  | integerOverflow
  | infiniteInteger
  | undefinedInteger
  /-- A division of whole or of floating-point numbers by zero. -/
  | zeroDivisor (op : BinaryOp) (whole : Bool)
  | sequenceTooLarge
  | rangeTooLarge
  | badOperand (op : UnaryOp) (operand : Kind)
  | badOperands (op : BinaryOp) (left right : Kind)
  | notOrdered (op : CompareOp) (left right : Kind)
  | notCallable (object : Kind)
  | notIterable (object : Kind)
  | noItems (object : Kind)
  | fixedItems (object : Kind)
  | notAContainer (object : Kind)
  | notASubstring (object : Kind)
  | noAttribute (object : Kind) (name : String)
  | badPosition (container position : Kind)
  | outOfRange (container : Kind)
  | outOfRangeToSet
  | missingKey (written : String)
  | badKey (key : Kind)
  | notAnException (object : Kind)
  | nothingRaised
  | raised (name message : String)
  | assertion (message : String)
  | failed (message : String)
  | tooManyArguments (function : String) (most given : Nat)
  | unknownKeyword (function keyword : String)
  | repeatedArgument (function keyword : String)
  | missingArgument (function parameter : String)
  | notAnInteger (written : String)
  | notAFloat (written : String)
  | noIntegerOf (object : Kind)
  | noFloatOf (object : Kind)
  | noLength (object : Kind)
  | noIndexOf (object : Kind)
  | rangeArguments (given : Nat)
  | zeroStep
  | badMethodArgument (m : StringMethod) (argument : Kind)
  | missingMethodArgument (m : StringMethod)
  | emptySeparator
  | nothingToJoin
  | badJoinItem (place : Nat) (item : Kind)
deriving DecidableEq, Repr

namespace Fault

/-- The name of the exception. -/
def exception : Fault → String
  | unboundName _ => "NameError"
  | integerOverflow => "OverflowError"
  | infiniteInteger => "OverflowError"
  | undefinedInteger => "ValueError"
  | zeroDivisor _ _ => "ZeroDivisionError"
  | sequenceTooLarge => "MemoryError"
  | rangeTooLarge => "MemoryError"
  | noAttribute _ _ => "AttributeError"
  | outOfRange _ => "IndexError"
  | outOfRangeToSet => "IndexError"
  | missingKey _ => "KeyError"
  | nothingRaised => "RuntimeError"
  | raised name _ => name
  | assertion _ => "AssertionError"
  | failed _ => "Fail"
  | notAnInteger _ => "ValueError"
  | notAFloat _ => "ValueError"
  | zeroStep => "ValueError"
  | emptySeparator => "ValueError"
  | _ => "TypeError"

def inQuotes (text : String) : String := "'" ++ text ++ "'"

/-- How messages speak of an object of some type. -/
def anObject (k : Kind) : String := inQuotes k.name ++ " object"

def unarySymbol : UnaryOp → String
  | .neg => "-"
  | .pos => "+"
  | .not => "not"

def zeroDivisorMessage (whole : Bool) : BinaryOp → String
  | .floorDiv => if whole then "integer division or modulo by zero"
    else "float floor division by zero"
  | .mod => if whole then "integer modulo by zero" else "float modulo"
  | _ => if whole then "division by zero" else "float division by zero"

def message : Fault → String
  | unboundName name => "name " ++ inQuotes name ++ " is not defined"
  | integerOverflow => "integer overflow"
  | infiniteInteger => "cannot convert float infinity to integer"
  | undefinedInteger => "cannot convert float NaN to integer"
  | zeroDivisor op whole => zeroDivisorMessage whole op
  | sequenceTooLarge => "sequence too large"
  | rangeTooLarge => "range too large"
  | badOperand op operand =>
    "bad operand type for unary " ++ unarySymbol op ++ ": " ++ inQuotes operand.name
  | badOperands op left right =>
    "unsupported operand type(s) for " ++ op.symbol ++ ": " ++ inQuotes left.name ++ " and " ++
      inQuotes right.name
  | notOrdered op left right =>
    inQuotes op.symbol ++ " not supported between instances of " ++ inQuotes left.name ++
      " and " ++ inQuotes right.name
  | notCallable object => anObject object ++ " is not callable"
  | notIterable object => anObject object ++ " is not iterable"
  | noItems object => anObject object ++ " is not subscriptable"
  | fixedItems object => anObject object ++ " does not support item assignment"
  | notAContainer object => "argument of type " ++ inQuotes object.name ++ " is not iterable"
  | notASubstring object =>
    "'in <string>' requires string as left operand, not " ++ object.name
  | noAttribute object name => anObject object ++ " has no attribute " ++ inQuotes name
  | badPosition container position =>
    container.name ++ " indices must be integers, not " ++ position.name
  | outOfRange .str => "string index out of range"
  | outOfRange container => container.name ++ " index out of range"
  | outOfRangeToSet => "list assignment index out of range"
  | missingKey written => written
  | badKey key => "dict keys must be str, not " ++ key.name
  | notAnException object => "exceptions must derive from BaseException, not " ++ object.name
  | nothingRaised => "No active exception to reraise"
  | raised _ message => message
  | assertion message => message
  | failed message => message
  | tooManyArguments function most given =>
    function ++ "() takes at most " ++ most.repr ++ (if most = 1 then " argument" else " arguments")
      ++ " (" ++ given.repr ++ " given)"
  | unknownKeyword function keyword =>
    function ++ "() got an unexpected keyword argument " ++ inQuotes keyword
  | repeatedArgument function keyword =>
    function ++ "() got multiple values for argument " ++ inQuotes keyword
  | missingArgument function parameter =>
    function ++ "() missing required argument " ++ inQuotes parameter
  | notAnInteger written => "invalid literal for int() with base 10: " ++ written
  | notAFloat written => "could not convert string to float: " ++ written
  | noIntegerOf object =>
    "int() argument must be a string or a number, not " ++ inQuotes object.name
  | noFloatOf object =>
    "float() argument must be a string or a number, not " ++ inQuotes object.name
  | noLength object => "object of type " ++ inQuotes object.name ++ " has no len()"
  | noIndexOf object => anObject object ++ " cannot be interpreted as an integer"
  | rangeArguments given => "range expected 1 to 3 arguments, got " ++ given.repr
  | zeroStep => "range() arg 3 must not be zero"
  | badMethodArgument m argument =>
    m.name ++ "() argument must be str, not " ++ argument.name
  | missingMethodArgument m => m.name ++ "() missing required argument"
  | emptySeparator => "empty separator"
  | nothingToJoin => "join() takes exactly one argument"
  | badJoinItem place item =>
    "sequence item " ++ place.repr ++ ": expected str instance, " ++ item.name ++ " found"

end Fault

end LiveDoc
