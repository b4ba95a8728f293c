import Whereabouts.Argument

/-!
# Message templates

A template is a text with directives: a percent sign, an optional name, flags, a width, a precision
and the letter of a conversion. `fillFrom` puts the arguments into the directives from left to
right; the first fault ends it. A width or a precision may be taken from the arguments too; a width
has at most sixty-three bits, a precision thirty-one. Two percent signs stand for one.
-/

namespace Whereabouts

inductive TemplateFault where
  | tooFew
  | tooMany
  | mappingNeeded
  | nameCut
  | cut
  | nameMissing (name : String)
  | wholeWidthNeeded
  | widthTooBig
  | precisionTooBig
  /-- A width that was taken from the arguments does not fit. -/
  | takenWidthTooBig
  | takenPrecisionTooBig
  | digitsTooMany
  /-- A whole number is too large to be taken for one of sixty-four bits. -/
  | realTooBig
  | wholeNeeded (conversion : Char) (found : String)
  | numberNeeded (conversion : Char) (found : String)
  | realNeeded (found : String)
  | charNeeded
  | charRange
  | infiniteWhole
  | unknown (conversion : Char) (index : Nat)
deriving DecidableEq, Repr

namespace TemplateFault

def message : TemplateFault → String
  | tooFew => "not enough arguments for format string"
  | tooMany => "not all arguments converted during string formatting"
  | mappingNeeded => "format requires a mapping"
  | nameCut => "incomplete format key"
  | cut => "incomplete format"
  | nameMissing name => quoted name
  | wholeWidthNeeded => "* wants int"
  | widthTooBig => "width too big"
  | precisionTooBig => "precision too big"
  | takenWidthTooBig => "Python int too large to convert to C ssize_t"
  | takenPrecisionTooBig => "Python int too large to convert to C int"
  | digitsTooMany => "precision too large"
  | realTooBig => "int too large to convert to float"
  | wholeNeeded c found => s!"%{c} format: an integer is required, not {found}"
  | numberNeeded c found => s!"%{c} format: a real number is required, not {found}"
  | realNeeded found => s!"must be real number, not {found}"
  | charNeeded => "%c requires int or char"
  | charRange => "%c arg not in range(0x110000)"
  | infiniteWhole => "cannot convert float infinity to integer"
  | unknown c index =>
    let shown := if 31 ≤ c.toNat ∧ c.toNat ≤ 126 then c else '?'
    let code := String.ofList (Nat.toDigits 16 c.toNat)
    s!"unsupported format character '{shown}' (0x{code}) at index {index}"

end TemplateFault

namespace Template

/-- A width or a precision: written in the template, or taken from the arguments. -/
inductive Size where
  | absent
  | written (n : Nat)
  | taken
deriving DecidableEq, Repr

structure Flags where
  left : Bool := false
  plus : Bool := false
  blank : Bool := false
  alternate : Bool := false
  zero : Bool := false
deriving Repr

/-- What stands behind a percent sign. Nothing for the conversion means that the template ends
inside the directive. -/
structure Directive where
  flags : Flags
  width : Size
  precision : Size
  conversion : Option Char
deriving Repr

def maxWidth : Nat := Nat.pow 2 63 - 1

def maxPrecision : Nat := Nat.pow 2 31 - 1

def maxDigits : Nat := maxPrecision - 3

/-! ## Reading directives -/

def readFlags : Flags → List Char → Flags × List Char
  | f, '-' :: cs => readFlags { f with left := true } cs
  | f, '+' :: cs => readFlags { f with plus := true } cs
  | f, ' ' :: cs => readFlags { f with blank := true } cs
  | f, '#' :: cs => readFlags { f with alternate := true } cs
  | f, '0' :: cs => readFlags { f with zero := true } cs
  | f, cs => (f, cs)

def numberOf (ds : List Char) : Nat := ds.foldl (fun n d => 10 * n + (d.toNat - 48)) 0

def readWidth : List Char → Size × List Char
  | '*' :: cs => (.taken, cs)
  | cs =>
    match cs.takeWhile Char.isDigit with
    | [] => (.absent, cs)
    | ds => (.written (numberOf ds), cs.dropWhile Char.isDigit)

/-- A precision without digits is zero. -/
def readPrecision : List Char → Size × List Char
  | '.' :: '*' :: cs => (.taken, cs)
  | '.' :: cs => (.written (numberOf (cs.takeWhile Char.isDigit)), cs.dropWhile Char.isDigit)
  | cs => (.absent, cs)

/-- Without a letter that once told the size of the argument. -/
def dropSize : List Char → List Char
  | c :: cs => if c = 'h' ∨ c = 'l' ∨ c = 'L' then cs else c :: cs
  | [] => []

/-- The directive behind a percent sign and what follows it. -/
def readDirective (cs : List Char) : Directive × List Char :=
  let (flags, cs) := readFlags {} cs
  let (width, cs) := readWidth cs
  let (precision, cs) := readPrecision cs
  match dropSize cs with
  | [] => ({ flags, width, precision, conversion := none }, [])
  | c :: cs => ({ flags, width, precision, conversion := some c }, cs)

/-- The name up to the parenthesis that closes it, `depth` more being open, and what follows. -/
def readName : Nat → List Char → Option (List Char × List Char)
  | _, [] => none
  | 0, ')' :: cs => some ([], cs)
  | depth + 1, ')' :: cs => (readName depth cs).map fun r => (')' :: r.1, r.2)
  | depth, '(' :: cs => (readName (depth + 1) cs).map fun r => ('(' :: r.1, r.2)
  | depth, c :: cs => (readName depth cs).map fun r => (c :: r.1, r.2)

/-! ## Layout of one conversion -/

/-- A field of at least the width: to the left, or to the right behind blanks. -/
def pad (left : Bool) (width : Nat) (cs : List Char) : List Char :=
  let blanks := List.replicate (width - cs.length) ' '
  if left then cs ++ blanks else blanks ++ cs

def signOf (f : Flags) (negative : Bool) : List Char :=
  if negative then ['-'] else if f.plus then ['+'] else if f.blank then [' '] else []

/-- A sign, a mark for the base and the digits; zeros stand between the mark and the digits. -/
def layNumber (f : Flags) (width : Nat) (sign mark digits : List Char) : List Char :=
  let room := width - (sign.length + mark.length)
  if f.zero && !f.left then
    sign ++ mark ++ List.replicate (room - digits.length) '0' ++ digits
  else pad f.left width (sign ++ mark ++ digits)

def baseDigits (conversion : Char) (n : Nat) : List Char :=
  if conversion = 'o' then Nat.toDigits 8 n
  else if conversion = 'x' then Nat.toDigits 16 n
  else if conversion = 'X' then (Nat.toDigits 16 n).map Char.toUpper
  else Nat.toDigits 10 n

def baseMark (f : Flags) (conversion : Char) : List Char :=
  if f.alternate && (conversion = 'o' || conversion = 'x' || conversion = 'X') then
    ['0', conversion]
  else []

/-- A whole number; the precision is the least number of digits. -/
def layWhole (f : Flags) (width : Nat) (precision : Option Nat) (conversion : Char) (n : Int) :
    List Char :=
  let ds := baseDigits conversion n.natAbs
  let ds := List.replicate (precision.getD 0 - ds.length) '0' ++ ds
  layNumber f width (signOf f (n < 0)) (baseMark f conversion) ds

def realDigits (f : Flags) (precision : Nat) (style : Char) (m : Nat) (e : Int) : List Char :=
  let (n, d) := Binary64.fraction m e
  if style = 'e' then Binary64.scientificText f.alternate n d precision
  else if style = 'f' then Binary64.fixedText f.alternate n d precision
  else Binary64.generalText f.alternate n d precision

def layReal (f : Flags) (width : Nat) (precision : Option Nat) (conversion : Char) (x : Binary64) :
    List Char :=
  let (negative, ds) := match x with
    | .finite negative m e =>
      (negative, realDigits f (precision.getD 6) conversion.toLower m e)
    | .infinite negative => (negative, ['i', 'n', 'f'])
  layNumber f width (signOf f negative) [] (if conversion.isUpper then ds.map Char.toUpper else ds)

def layText (f : Flags) (width : Nat) (precision : Option Nat) (cs : List Char) : List Char :=
  pad f.left width (match precision with
    | some p => cs.take p
    | none => cs)

/-- A text that keeps ASCII characters alone and escapes the others. -/
def asciiOnly (s : String) : List Char :=
  s.toList.flatMap fun c => if c.toNat < 128 then [c] else numericEscape c

def wholeOf (conversion : Char) (a : Argument) : Except TemplateFault Int :=
  match a, a.whole? with
  | _, some n => .ok n
  | .real x, none =>
    if conversion = 'o' ∨ conversion = 'x' ∨ conversion = 'X' then
      .error (.wholeNeeded conversion a.typeName)
    else match x.truncate? with
      | some n => .ok n
      | none => .error .infiniteWhole
  | _, none =>
    if conversion = 'o' ∨ conversion = 'x' ∨ conversion = 'X' then
      .error (.wholeNeeded conversion a.typeName)
    else .error (.numberNeeded conversion a.typeName)

/-- A whole number, unless the precision asks for too many digits. -/
def wholeText (f : Flags) (width : Nat) (precision : Option Nat) (conversion : Char) (n : Int) :
    Except TemplateFault (List Char) :=
  if maxDigits < precision.getD 0 then .error .digitsTooMany
  else .ok (layWhole f width precision conversion n)

def realOf (a : Argument) : Except TemplateFault Binary64 :=
  match a, a.real? with
  | .real x, _ => .ok x
  | _, some (.infinite _) => .error .realTooBig
  | _, some x => .ok x
  | _, none => .error (.realNeeded a.typeName)

def charOf : Argument → Except TemplateFault Char
  | .text s =>
    match s.toList with
    | [c] => .ok c
    | _ => .error .charNeeded
  | a =>
    match a.whole? with
    | some n => if 0 ≤ n ∧ n < 0x110000 then .ok (Char.ofNat n.toNat) else .error .charRange
    | none => .error .charNeeded

/-- One value under a directive. `index` is where the conversion stands in the template. -/
def lay (d : Directive) (width : Nat) (precision : Option Nat) (conversion : Char) (index : Nat)
    (a : Argument) : Except TemplateFault (List Char) :=
  if conversion = 's' then .ok (layText d.flags width precision a.message.toList)
  else if conversion = 'r' then .ok (layText d.flags width precision a.literal.toList)
  else if conversion = 'a' then .ok (layText d.flags width precision (asciiOnly a.literal))
  else if conversion ∈ ['d', 'i', 'u', 'o', 'x', 'X'] then
    (wholeOf conversion a).bind (wholeText d.flags width precision conversion)
  else if conversion ∈ ['e', 'E', 'f', 'F', 'g', 'G'] then
    (realOf a).map (layReal d.flags width precision conversion)
  else if conversion = 'c' then (charOf a).map fun c => pad d.flags.left width [c]
  else .error (.unknown conversion index)

/-! ## Filling a template -/

/-- What the directives take their values from: arguments in order, or one record by name. -/
inductive Source where
  | positional (left : List Argument)
  | named (fields : List (String × Argument)) (unused : Bool)
deriving Repr

/-- The next argument. A record is an argument itself, once. -/
def Source.next : Source → Except TemplateFault (Argument × Source)
  | .positional (a :: as) => .ok (a, .positional as)
  | .positional [] => .error .tooFew
  | .named fields true => .ok (.record fields, .named fields false)
  | .named _ false => .error .tooFew

def Source.nextWhole (src : Source) : Except TemplateFault (Int × Source) := do
  let (a, src) ← src.next
  match a.whole? with
  | some n => pure (n, src)
  | none => throw .wholeWidthNeeded

/-- The flags and the width of a directive; a negative width from the arguments means to the
left. -/
def takeWidth (d : Directive) (src : Source) :
    Except TemplateFault (Directive × Nat × Source) := do
  match d.width with
  | .absent => pure (d, 0, src)
  | .written n => if maxWidth < n then throw .widthTooBig else pure (d, n, src)
  | .taken =>
    let (n, src) ← src.nextWhole
    if n < -(maxWidth + 1) ∨ maxWidth < n then throw .takenWidthTooBig
    let d := if n < 0 then { d with flags := { d.flags with left := true } } else d
    pure (d, n.natAbs, src)

/-- The precision of a directive; a negative one from the arguments means zero. -/
def takePrecision (d : Directive) (src : Source) :
    Except TemplateFault (Option Nat × Source) := do
  match d.precision with
  | .absent => pure (none, src)
  | .written n => if maxPrecision < n then throw .precisionTooBig else pure (some n, src)
  | .taken =>
    let (n, src) ← src.nextWhole
    if n < -(maxPrecision + 1) ∨ maxPrecision < n then throw .takenPrecisionTooBig
    pure (some n.toNat, src)

/-- The source behind a value by name: the record itself is no argument any more. -/
def Source.afterName : Source → Source
  | .named fields _ => .named fields false
  | src => src

/-- The text of one directive. A value by name is all that its directive can take. -/
def fillDirective (d : Directive) (index : Nat) (byName : Option Argument) (src : Source) :
    Except TemplateFault (List Char × Source) := do
  let own := match byName with
    | some a => Source.positional [a]
    | none => src
  let (d, width, own) ← takeWidth d own
  let (precision, own) ← takePrecision d own
  match d.conversion with
  | none => throw .cut
  | some c =>
    let (a, own) ← own.next
    let cs ← lay d width precision c index a
    pure (cs, if byName.isSome then src.afterName else own)

/-- The name that a directive begins with, the value of that name, and what follows. -/
def takeName (src : Source) : List Char → Except TemplateFault (Option Argument × List Char)
  | '(' :: cs =>
    match src with
    | .positional _ => .error .mappingNeeded
    | .named fields _ =>
      match readName 0 cs with
      | none => .error .nameCut
      | some (name, cs) =>
        match fields.lookup (String.ofList name) with
        | some a => .ok (some a, cs)
        | none => .error (.nameMissing (String.ofList name))
  | cs => .ok (none, cs)

/-- The template with its directives filled. `length` is that of the whole template, and at most
`fuel` characters of it are left. -/
def fillFrom (length : Nat) : Nat → List Char → Source → Except TemplateFault (List Char)
  | _, [], .positional (_ :: _) => .error .tooMany
  | _, [], _ => .ok []
  | 0, _ :: _, _ => .ok []
  | fuel + 1, '%' :: '%' :: cs, src => do pure ('%' :: (← fillFrom length fuel cs src))
  | fuel + 1, '%' :: cs, src => do
    let (byName, cs) ← takeName src cs
    let (d, rest) := readDirective cs
    let (filled, src) ← fillDirective d (length - rest.length - 1) byName src
    pure (filled ++ (← fillFrom length fuel rest src))
  | fuel + 1, c :: cs, src => do pure (c :: (← fillFrom length fuel cs src))

end Template

/-- The template with its directives filled by the arguments. Without arguments it is taken as it
is, and a single record with fields gives its values by name. -/
def fillTemplate (template : String) : List Argument → Except TemplateFault String
  | [] => .ok template
  | [.record (f :: fs)] => run (.named (f :: fs) true)
  | args => run (.positional args)
where
  run (src : Template.Source) : Except TemplateFault String :=
    let cs := template.toList
    (Template.fillFrom cs.length cs.length cs src).map String.ofList

end Whereabouts
