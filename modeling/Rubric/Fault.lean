import Rubric.Text.Quoted

/-!
# Faults

Everything that can go wrong, by cause.  Each group of causes has its wording in one function
`message` and its class in one function `kind`; `Fault` is the sum of the groups.  Values that a
message shows are carried as the text they are shown as.
-/

namespace Rubric

open Rubric.Text

/-! ## Classes of faults -/

/-- The class of a fault, as reports name it. -/
inductive FaultKind where
  | typeError | valueError | attributeError | keyError | indexError | nameError
  | zeroDivisionError | overflowError | runtimeError | recursionError | memoryError
  | frozenInstanceError | unknownBindingError | duplicateBindingError | compilationError
  | shapeIntrospectionError | interpreterFault | scriptSyntaxError | divisionGuardError
  | fileNotFoundError | isADirectoryError | jsonDecodeError
  deriving DecidableEq, Repr

/-- The name of a class of faults. -/
def FaultKind.name : FaultKind → String
  | typeError => "TypeError"
  | valueError => "ValueError"
  | attributeError => "AttributeError"
  | keyError => "KeyError"
  | indexError => "IndexError"
  | nameError => "NameError"
  | zeroDivisionError => "ZeroDivisionError"
  | overflowError => "OverflowError"
  | runtimeError => "RuntimeError"
  | recursionError => "RecursionError"
  | memoryError => "MemoryError"
  | frozenInstanceError => "FrozenInstanceError"
  | unknownBindingError => "UnknownBindingError"
  | duplicateBindingError => "DuplicateBindingError"
  | compilationError => "CompilationError"
  | shapeIntrospectionError => "ShapeIntrospectionError"
  | interpreterFault => "InterpreterFault"
  | scriptSyntaxError => "ScriptSyntaxError"
  | divisionGuardError => "DivisionGuardError"
  | fileNotFoundError => "FileNotFoundError"
  | isADirectoryError => "IsADirectoryError"
  | jsonDecodeError => "JSONDecodeError"

/-! ## Operands of the wrong type -/

/-- A value of a type that an operation does not take. -/
inductive TypeFault where
  /-- A binary operator without meaning for the two types. -/
  | operands (operator left right : String)
  /-- An order comparison of values without a common order. -/
  | unordered (operator left right : String)
  | negation (type : String)
  | magnitude (type : String)
  | rounding (type : String)
  /-- Joining a sequence of one type with something else. -/
  | joining (sequence other : String)
  /-- Repeating a sequence a number of times that is no integer. -/
  | repetition (type : String)
  | iteration (type : String)
  | subscript (type : String)
  /-- A position in a sequence that is no integer. -/
  | position (sequence type : String)
  | membership (type : String)
  | substring (type : String)
  | length (type : String)
  | unhashable (type : String)
  | integer (type : String)
  | decimal (type : String)
  | notASelector (shown : String)
  | notCallable (name : String)
  /-- An entry of an update sequence that is no sequence itself. -/
  | updateEntry (index : Nat)
  | pathText (type : String)
  | jsonKey (type : String)
  deriving DecidableEq, Repr

/-- The wording of a fault about types. -/
def TypeFault.message : TypeFault → String
  | operands operator left right =>
    s!"unsupported operand type(s) for {operator}: '{left}' and '{right}'"
  | unordered operator left right =>
    s!"'{operator}' not supported between instances of '{left}' and '{right}'"
  | negation type => s!"bad operand type for unary -: '{type}'"
  | magnitude type => s!"bad operand type for abs(): '{type}'"
  | rounding type => s!"type {type} doesn't define __round__ method"
  | joining sequence other =>
    s!"can only concatenate {sequence} (not \"{other}\") to {sequence}"
  | repetition type => s!"can't multiply sequence by non-int of type '{type}'"
  | iteration type => s!"'{type}' object is not iterable"
  | subscript type => s!"'{type}' object is not subscriptable"
  | position sequence type =>
    if sequence = "string" then s!"string indices must be integers, not '{type}'"
    else s!"{sequence} indices must be integers or slices, not {type}"
  | membership type => s!"argument of type '{type}' is not iterable"
  | substring type => s!"'in <string>' requires string as left operand, not {type}"
  | length type => s!"object of type '{type}' has no len()"
  | unhashable type => s!"unhashable type: '{type}'"
  | integer type =>
    s!"int() argument must be a string, a bytes-like object or a real number, not '{type}'"
  | decimal type => s!"float() argument must be a string or a real number, not '{type}'"
  | notASelector shown => s!"Not a selector: {shown}"
  | notCallable name => s!"{name} is not callable"
  | updateEntry index =>
    s!"cannot convert dictionary update sequence element #{index} to a sequence"
  | pathText type => s!"expected str, bytes or os.PathLike object, not {type}"
  | jsonKey type => s!"keys must be str, int, float, bool or None, not {type}"

/-! ## Calls with the wrong number of arguments -/

/-- A call that does not fit the parameters of what is called. -/
inductive CallFault where
  | missing (callee : String) (parameters : List String)
  /-- `least` to `most` arguments are taken and `given` were passed. -/
  | surplus (callee : String) (least most given : Nat)
  deriving DecidableEq, Repr

/-- Names in quotes, the last two joined by a conjunction. -/
def enumerated : List String → String
  | [] => ""
  | [a] => s!"'{a}'"
  | [a, b] => s!"'{a}' and '{b}'"
  | names =>
    let last := names.getLast?.getD ""
    join ", " (names.dropLast.map fun a => s!"'{a}'") ++ s!", and '{last}'"

/-- The wording of a fault about arguments. -/
def CallFault.message : CallFault → String
  | missing callee parameters =>
    let plural := if parameters.length = 1 then "" else "s"
    s!"{callee}() missing {parameters.length} required positional argument{plural}: " ++
      enumerated parameters
  | surplus callee least most given =>
    let taken := if least = most then s!"{most}" else s!"from {least} to {most}"
    let plural := if least = most && most = 1 then "" else "s"
    let verb := if given = 1 then "was" else "were"
    s!"{callee}() takes {taken} positional argument{plural} but {given} {verb} given"

/-! ## Values out of range -/

/-- A number or a text that an operation cannot use. -/
inductive NumberFault where
  | divisionByZero
  | moduloByZero
  /-- A share of a total that is zero only once it is read as a decimal. -/
  | shareOfZero
  /-- An integer beyond every double. -/
  | integerTooLarge
  | quotientTooLarge
  | roundedTooLarge
  | infinityToInteger
  | notANumberToInteger
  | malformedInteger (shown : String)
  | tooManyDigits (limit count : Nat)
  | malformedDecimal (shown : String)
  | indexTooLarge
  | countTooLarge
  | repeatedTooLong
  | outOfMemory
  | missingPrecision
  /-- An entry of an update sequence that is no pair. -/
  | entryLength (index length : Nat)
  deriving DecidableEq, Repr

/-- The wording of a fault about numbers. -/
def NumberFault.message : NumberFault → String
  | divisionByZero => "Division by zero"
  | moduloByZero => "Modulo by zero"
  | shareOfZero => "float division by zero"
  | integerTooLarge => "int too large to convert to float"
  | quotientTooLarge => "integer division result too large for a float"
  | roundedTooLarge => "rounded value too large to represent"
  | infinityToInteger => "cannot convert float infinity to integer"
  | notANumberToInteger => "cannot convert float NaN to integer"
  | malformedInteger shown =>
    s!"invalid literal for int() with base 10: {String.ofList (shown.toList.take 200)}"
  | tooManyDigits limit count =>
    s!"Exceeds the limit ({limit} digits) for integer string conversion: value has {count} " ++
      "digits; use sys.set_int_max_str_digits() to increase the limit"
  | malformedDecimal shown => s!"could not convert string to float: {shown}"
  | indexTooLarge => "cannot fit 'int' into an index-sized integer"
  | countTooLarge => "cannot fit 'int' into an index-sized integer"
  | repeatedTooLong => "repeated string is too long"
  | outOfMemory => ""
  | missingPrecision => "Format specifier missing precision"
  | entryLength index length =>
    s!"dictionary update sequence element #{index} has length {length}; 2 is required"

/-- The class of a fault about numbers. -/
def NumberFault.kind : NumberFault → FaultKind
  | divisionByZero | moduloByZero | shareOfZero => .zeroDivisionError
  | integerTooLarge | quotientTooLarge | roundedTooLarge | infinityToInteger | countTooLarge
  | repeatedTooLong => .overflowError
  | notANumberToInteger | malformedInteger _ | tooManyDigits _ _ | malformedDecimal _
  | missingPrecision | entryLength _ _ => .valueError
  | indexTooLarge => .indexError
  | outOfMemory => .memoryError

/-! ## Text templates -/

/-- A template that cannot be filled with its values. -/
inductive TemplateFault where
  | notEnough
  | notAllUsed
  | needsMapping
  | incomplete
  | incompleteKey
  | starNeedsInteger
  | widthTooBig
  | precisionTooBig
  | starWidthTooBig
  | starPrecisionTooBig
  | unsupported (conversion : Char) (index : Nat)
  | needsNumber (conversion : Char) (type : String)
  | needsInteger (conversion : Char) (type : String)
  | needsReal (type : String)
  | needsCharacter
  | characterRange
  deriving DecidableEq, Repr

/-- The wording of a fault about templates. -/
def TemplateFault.message : TemplateFault → String
  | notEnough => "not enough arguments for format string"
  | notAllUsed => "not all arguments converted during string formatting"
  | needsMapping => "format requires a mapping"
  | incomplete => "incomplete format"
  | incompleteKey => "incomplete format key"
  | starNeedsInteger => "* wants int"
  | widthTooBig => "width too big"
  | precisionTooBig => "precision too big"
  | starWidthTooBig => "Python int too large to convert to C ssize_t"
  | starPrecisionTooBig => "Python int too large to convert to C int"
  | unsupported conversion index =>
    let shown := if 0x1f ≤ conversion.toNat && conversion.toNat < 0x7f then conversion else '?'
    let code := String.ofList (Nat.toDigits 16 conversion.toNat)
    s!"unsupported format character '{shown}' (0x{code}) at index {index}"
  | needsNumber conversion type =>
    s!"%{conversion} format: a real number is required, not {type}"
  | needsInteger conversion type =>
    s!"%{conversion} format: an integer is required, not {type}"
  | needsReal type => s!"must be real number, not {type}"
  | needsCharacter => "%c requires int or char"
  | characterRange => "%c arg not in range(0x110000)"

/-- The class of a fault about templates. -/
def TemplateFault.kind : TemplateFault → FaultKind
  | incomplete | incompleteKey | widthTooBig | precisionTooBig | unsupported _ _ => .valueError
  | characterRange | starWidthTooBig | starPrecisionTooBig => .overflowError
  | _ => .typeError

/-! ## Access to the parts of a value -/

/-- A part of a value that is not there or cannot be written. -/
inductive AccessFault where
  | noAttribute (type name : String)
  | setOnNone (name : String)
  | setThroughNone (path parent : String)
  | notAssignable (expression : String)
  | privateAttribute (name : String)
  | readOnly
  | frozen (name : String)
  /-- A key, as it is shown, that a mapping lacks. -/
  | missingKey (shown : String)
  | outOfRange (sequence : String)
  | changedDuringIteration
  deriving DecidableEq, Repr

/-- The wording of a fault about access. -/
def AccessFault.message : AccessFault → String
  | noAttribute type name => s!"'{type}' object has no attribute '{name}'"
  | setOnNone name => s!"Cannot set '{name}' on None"
  | setThroughNone path parent => s!"Cannot set '{path}': '{parent}' is None"
  | notAssignable expression => s!"Target {quoted expression} is not assignable"
  | privateAttribute name => s!"Access to private attribute '{name}' is not allowed"
  | readOnly => "can't set attribute"
  | frozen name => s!"cannot assign to field {quoted name}"
  | missingKey shown => shown
  | outOfRange sequence => s!"{sequence} index out of range"
  | changedDuringIteration => "dictionary changed size during iteration"

/-- The class of a fault about access. -/
def AccessFault.kind : AccessFault → FaultKind
  | frozen _ => .frozenInstanceError
  | missingKey _ => .keyError
  | outOfRange _ => .indexError
  | changedDuringIteration => .runtimeError
  | _ => .attributeError

/-! ## Names of a script -/

/-- A name that a script uses and that does not stand for what it takes it for. -/
inductive NameFault where
  | undefinedVariable (name : String)
  | unknownName (name : String)
  | unknownFunction (name : String)
  | assignToBinding (name : String)
  | unboundTarget (name : String)
  | shadowing (name : String)
  | unboundPredicate
  | unknownComparison (operator : String)
  | compositeWidth (width : Nat) (shown : String)
  deriving DecidableEq, Repr

/-- The wording of a fault about names. -/
def NameFault.message : NameFault → String
  | undefinedVariable name => s!"Undefined variable {name}"
  | unknownName name => s!"Unknown name {name}"
  | unknownFunction name => s!"Unknown function {name}"
  | assignToBinding name => s!"Cannot assign to bound name {name}"
  | unboundTarget name => s!"{name} is not bound to a record field"
  | shadowing name => s!"FOREACH variable {name} shadows a binding"
  | unboundPredicate => "$pkAll is not bound"
  | unknownComparison operator => s!"Unknown comparison operator: {operator}"
  | compositeWidth width shown => s!"Composite target expects {width} values, got {shown}"

/-- The class of a fault about names. -/
def NameFault.kind : NameFault → FaultKind
  | undefinedVariable _ | unknownName _ | unknownFunction _ => .nameError
  | _ => .valueError

/-! ## Selectors and shapes -/

/-- A selector expression that does not fit the shape of the records. -/
inductive SelectorFault where
  | emptyExpression
  | malformedPath (shown : String)
  | unknownAttribute (name shown shape : String)
  | unknownChild (child parent shown : String)
  | emptyComposite
  | emptyTarget
  | unsupportedExpression (shown : String)
  | unsupportedTarget (shown : String)
  | computedTarget (shown : String)
  | unboundResultKey
  deriving DecidableEq, Repr

/-- The wording of a fault about selectors. -/
def SelectorFault.message : SelectorFault → String
  | emptyExpression => "Empty selector expression"
  | malformedPath shown => s!"Malformed selector path: {shown}"
  | unknownAttribute name shown shape =>
    s!"Unknown attribute '{name}' in selector {shown} for {shape}"
  | unknownChild child parent shown =>
    s!"Unknown attribute '{child}' of '{parent}' in selector {shown}"
  | emptyComposite => "Empty composite selector"
  | emptyTarget => "Empty composite target"
  | unsupportedExpression shown => s!"Unsupported selector expression: {shown}"
  | unsupportedTarget shown => s!"Unsupported assignment target: {shown}"
  | computedTarget shown => s!"Cannot assign through computed selector {shown}"
  | unboundResultKey =>
    "resultKey is not bound; pass result_key, call bind_result_key() or do a full run first"

/-- A record type whose attributes cannot be told. -/
inductive ShapeFault where
  | noAttributes (shown : String)
  | unresolvedTypes (shown missing : String)
  | noSamples
  | sampleType (index : Nat) (type : String)
  | duplicateName (name : String)
  deriving DecidableEq, Repr

/-- The wording of a fault about shapes. -/
def ShapeFault.message : ShapeFault → String
  | noAttributes shown => s!"{shown} has no introspectable attributes"
  | unresolvedTypes shown missing =>
    s!"Cannot resolve attribute types of {shown}: name '{missing}' is not defined"
  | noSamples => "Cannot describe mapping records without samples"
  | sampleType index type => s!"Sample {index} is {type}, expected a mapping"
  | duplicateName name => s!"Duplicate attribute name after flattening: {name}"

/-! ## Script text -/

/-- A place in a text: line and column, both counted from one. -/
structure Position where
  line : Nat
  column : Nat
  deriving DecidableEq, Repr, Inhabited

/-- A script text that is not in the language. -/
inductive SyntaxFault where
  /-- A token that cannot stand where it stands. -/
  | unexpectedToken (position : Position) (lexeme : String)
  | unexpectedEnd (position : Position)
  | unexpectedCharacter (position : Position) (character : Char)
  /-- An integer literal with more digits than integers are read with. -/
  | oversizedNumber (count : Nat)
  deriving DecidableEq, Repr

/-- The place of a syntax fault; an oversized number has none. -/
def SyntaxFault.position? : SyntaxFault → Option Position
  | unexpectedToken position _ => some position
  | unexpectedEnd position => some position
  | unexpectedCharacter position _ => some position
  | oversizedNumber _ => none

/-- The lexeme of a token on one line, in quotes. -/
def shownLexeme (lexeme : String) : String :=
  quoted (String.ofList (lexeme.toList.flatMap fun c => if c = '\n' then ['\\', 'n'] else [c]))

/-- The wording of a syntax fault. -/
def SyntaxFault.message : SyntaxFault → String
  | unexpectedToken position lexeme =>
    s!"Syntax error at line {position.line}, column {position.column}: " ++
      s!"unexpected {shownLexeme lexeme}"
  | unexpectedEnd position =>
    s!"Syntax error at line {position.line}, column {position.column}: unexpected end of script"
  | unexpectedCharacter position character =>
    s!"Syntax error at line {position.line}, column {position.column}: " ++
      s!"unexpected character {quoted character.toString}"
  | oversizedNumber count => s!"Invalid script: {(NumberFault.tooManyDigits 4300 count).message}"

/-! ## Configurations and files -/

/-- A run profile configuration that cannot be used. -/
inductive ProfileFault where
  | missingProfiles (path : String)
  | noProfiles (path : String)
  | notAMapping (name path : String)
  | missingItemKey (name path : String)
  | unknownMode (name mode : String)
  | missingFields (name : String) (fields : List String)
  | missingScript (name : String)
  | noScript (name : String)
  | unknownDefault (name available : String)
  deriving DecidableEq, Repr

/-- The wording of a fault about profiles. -/
def ProfileFault.message : ProfileFault → String
  | missingProfiles path => s!"Invalid run profile config: missing 'profiles' key in {path}"
  | noProfiles path => s!"No profiles defined in {path}"
  | notAMapping name path => s!"Invalid profile '{name}' in {path}: expected a mapping"
  | missingItemKey name path => s!"Profile '{name}' in {path} is missing 'item_key'"
  | unknownMode name mode =>
    s!"Profile '{name}' has unknown mode '{mode}' (expected one of ('full', 'simple'))"
  | missingFields name fields =>
    let listed := join ", " fields
    s!"Full-run profile '{name}' is missing: {listed}"
  | missingScript name => s!"Profile '{name}' needs 'script' or 'script_path'"
  | noScript name => s!"Profile '{name}' has neither script nor script_path"
  | unknownDefault name available =>
    s!"Default profile '{name}' not found in profiles: {available}"

/-- A file that is not there or not what it should be. -/
inductive FileFault where
  | configMissing (path : String)
  | scriptMissing (profile path : String)
  /-- A file that was to be opened. -/
  | missing (path : String)
  | directory (path : String)
  | notAList (path : String)
  | circular
  /-- A data file that is not in the data format. -/
  | malformedData (cause : String) (line column offset : Nat)
  deriving DecidableEq, Repr

/-- The wording of a fault about files. -/
def FileFault.message : FileFault → String
  | configMissing path => s!"Run profile config not found: {path}"
  | scriptMissing profile path => s!"Script not found for profile '{profile}': {path}"
  | missing path => s!"[Errno 2] No such file or directory: {quoted path}"
  | directory path => s!"[Errno 21] Is a directory: {quoted path}"
  | notAList path => s!"{path}: expected a JSON list of objects"
  | circular => "Circular reference detected"
  | malformedData cause line column offset =>
    s!"{cause}: line {line} column {column} (char {offset})"

/-- The class of a fault about files. -/
def FileFault.kind : FileFault → FaultKind
  | configMissing _ | scriptMissing _ _ | missing _ => .fileNotFoundError
  | directory _ => .isADirectoryError
  | notAList _ | circular => .valueError
  | malformedData _ _ _ _ => .jsonDecodeError

/-! ## The sum -/

/-- Everything that can go wrong. -/
inductive Fault where
  | type (cause : TypeFault)
  | call (cause : CallFault)
  | number (cause : NumberFault)
  | template (cause : TemplateFault)
  | access (cause : AccessFault)
  | name (cause : NameFault)
  | selector (cause : SelectorFault)
  | shape (cause : ShapeFault)
  | profile (cause : ProfileFault)
  | file (cause : FileFault)
  | malformed (cause : SyntaxFault)
  | unknownBinding (name : String)
  | duplicateBinding (name : String)
  /-- A share of nothing was asked for. -/
  | emptyTotal
  /-- A profile, named in the message, that the configuration lacks. -/
  | unknownProfile (message : String)
  /-- A supplied function refused its arguments. -/
  | refused (message : String)
  /-- A hook stopped the run. -/
  | stopped (message : String)
  /-- A value nested in itself where a finite value is needed. -/
  | tooDeep
  /-- A fault of a statement: the line of the innermost statement and what went wrong there. -/
  | atLine (line : Nat) (cause : Fault)
  deriving DecidableEq, Repr

namespace Fault

/-- The class of a fault. -/
def kind : Fault → FaultKind
  | type _ | call _ => .typeError
  | number cause => cause.kind
  | template cause => cause.kind
  | access cause => cause.kind
  | name cause => cause.kind
  | selector _ => .compilationError
  | shape _ => .shapeIntrospectionError
  | profile _ => .valueError
  | file cause => cause.kind
  | malformed _ => .scriptSyntaxError
  | unknownBinding _ => .unknownBindingError
  | duplicateBinding _ => .duplicateBindingError
  | emptyTotal => .divisionGuardError
  | unknownProfile _ => .keyError
  | refused _ => .valueError
  | stopped _ => .runtimeError
  | tooDeep => .recursionError
  | atLine _ _ => .interpreterFault

/-- What a statement's fault says after its line, given the wording of the fault: a missing key is
named as one, and a fault without words is named by its class. -/
def reasonOf (fault : Fault) (message : String) : String :=
  match fault with
  | access (.missingKey shown) => s!"Key not found: {shown}"
  | unknownBinding _ => s!"Key not found: {quoted message}"
  | _ => if message.isEmpty then fault.kind.name else message

/-- The wording of a fault. -/
def message : Fault → String
  | type cause => cause.message
  | call cause => cause.message
  | number cause => cause.message
  | template cause => cause.message
  | access cause => cause.message
  | name cause => cause.message
  | selector cause => cause.message
  | shape cause => cause.message
  | profile cause => cause.message
  | file cause => cause.message
  | malformed cause => cause.message
  | unknownBinding bound => s!"Unknown binding: {bound}"
  | duplicateBinding bound => s!"Binding already exists: {bound}"
  | emptyTotal => "Cannot compute percentage of zero distinct items"
  | unknownProfile message => quoted message
  | refused message => message
  | stopped message => message
  | tooDeep => "maximum recursion depth exceeded"
  | atLine line cause => s!"Line {line}: {cause.reasonOf cause.message}"

/-- The line that a fault of a script carries; zero where none is known. -/
def line : Fault → Nat
  | atLine line _ => line
  | malformed cause => (cause.position?.map Position.line).getD 0
  | _ => 0

/-- Faults that a script run reports as they are: they already name their line. -/
def isScriptFault : Fault → Bool
  | atLine _ _ => true
  | malformed _ => true
  | _ => false

/-- The fault as the statement on a line reports it; a fault that names its line is kept. -/
def located (line : Nat) (fault : Fault) : Fault :=
  if fault.isScriptFault then fault else atLine line fault

end Fault

end Rubric
