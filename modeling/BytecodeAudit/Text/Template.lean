import BytecodeAudit.Text.Basic

/-!
# Message templates

A template is text with directives. A directive starts with a percent sign, carries layout flags, an
optional argument index in brackets, a width and a precision, and ends in a verb that says how its
argument is written.

A template is read into segments. Reading depends on the number of arguments and, for a width or
precision given as `*`, on which of them are integers. What does not fit becomes a `Fault` segment.
-/

namespace BytecodeAudit.Text.Template

structure Layout where
  /-- `#`: alternate form. -/
  alternate : Bool := false
  /-- `0`: pad with zeros. -/
  zeroPad : Bool := false
  /-- `+`: always write a sign, escape everything beyond ASCII. -/
  sign : Bool := false
  /-- `-`: pad on the right. -/
  leftAlign : Bool := false
  /-- A blank: leave room for an elided sign, separate bytes. -/
  blankSign : Bool := false
  /-- `#` before the general verb: write the value as a literal. -/
  literal : Bool := false
  /-- `+` before the general verb. -/
  detailed : Bool := false
  width : Option Nat := none
  precision : Option Nat := none
deriving DecidableEq, Repr

inductive Fault where
  /-- The argument index of the directive is malformed or out of range. -/
  | badIndex (verb : Char)
  | missing (verb : Char)
  | noVerb
  | badWidth
  | badPrecision
  /-- The arguments from this index on are not used. -/
  | extra (index : Nat)
deriving DecidableEq, Repr

inductive Segment where
  | text (chars : List Char)
  | argument (index : Nat) (layout : Layout) (verb : Char)
  | fault (cause : Fault)
deriving DecidableEq, Repr

/-- What reading a template needs to know of its arguments: their number, and the integers among
them. -/
structure Supply where
  count : Nat
  integer? : Nat → Option Int

structure Cursor where
  rest : List Char
  next : Nat
  /-- Whether an argument index directly precedes the position. -/
  afterIndex : Bool := false
  goodIndex : Bool := true
  reordered : Bool := false

def numberBound : Nat := 1000000

/-- Reads decimal digits. A number that grows past the bound swallows the rest of the template. -/
def number (acc : Option Nat) : List Char → Option Nat × List Char
  | [] => (acc, [])
  | c :: cs =>
    if c.isDigit then
      if numberBound < acc.getD 0 then (none, [])
      else number (some (acc.getD 0 * 10 + (c.toNat - '0'.toNat))) cs
    else (acc, c :: cs)

theorem length_number_le (acc : Option Nat) (cs : List Char) :
    (number acc cs).2.length ≤ cs.length := by
  induction cs generalizing acc with
  | nil => simp [number]
  | cons c cs ih =>
    rw [number]
    split
    · split
      · simp
      · exact Nat.le_succ_of_le (ih _)
    · simp

/-- An argument index between brackets, from one, with the text after it. `none` in the first place
marks a malformed index; without a closing bracket only the opening one is skipped. -/
def bracketed (cs : List Char) : Option Nat × List Char :=
  if cs.length < 2 then (none, cs)
  else
    match cs.dropWhile (· != ']') with
    | [] => (none, cs)
    | _ :: after =>
      match number none (cs.takeWhile (· != ']')) with
      | (some n, []) => (some n, after)
      | _ => (none, after)

theorem length_bracketed_le (cs : List Char) : (bracketed cs).2.length ≤ cs.length := by
  have h := (cs.dropWhile_sublist (· != ']')).length_le
  unfold bracketed
  split
  · simp
  · split
    · simp
    · rename_i after eq
      rw [eq] at h
      simp only [List.length_cons] at h
      split <;> simp <;> omega

def Cursor.index (count : Nat) (c : Cursor) : Cursor :=
  match c.rest with
  | '[' :: cs =>
    match bracketed cs with
    | (some n, rest) =>
      if 1 ≤ n && n ≤ count then
        { c with rest, next := n - 1, afterIndex := true, reordered := true }
      else { c with rest, afterIndex := true, goodIndex := false, reordered := true }
    | (none, rest) => { c with rest, afterIndex := false, goodIndex := false, reordered := true }
  | _ => { c with afterIndex := false }

theorem Cursor.length_index_le (count : Nat) (c : Cursor) :
    (c.index count).rest.length ≤ c.rest.length := by
  unfold Cursor.index
  split
  · rename_i cs eq
    have h := length_bracketed_le cs
    split <;> rename_i eq' <;> rw [eq'] at h <;> (try split) <;> simp [eq] <;> simp at h <;> omega
  · simp

def flags (l : Layout) : List Char → Layout × List Char
  | '#' :: cs => flags { l with alternate := true } cs
  | '0' :: cs => flags { l with zeroPad := true } cs
  | '+' :: cs => flags { l with sign := true } cs
  | '-' :: cs => flags { l with leftAlign := true } cs
  | ' ' :: cs => flags { l with blankSign := true } cs
  | cs => (l, cs)

theorem length_flags_le (l : Layout) (cs : List Char) : (flags l cs).2.length ≤ cs.length := by
  fun_induction flags l cs <;> simp_all <;> omega

/-- Widths and precisions taken from arguments are limited like those in the template. -/
def integerArgument (s : Supply) (i : Nat) : Option Int :=
  (s.integer? i).filter fun n => n.natAbs ≤ numberBound

/-- The position behind a `*`, which uses up an argument if there is one. -/
def Cursor.behindStar (s : Supply) (rest : List Char) (c : Cursor) : Cursor :=
  { c with rest, next := if c.next < s.count then c.next + 1 else c.next, afterIndex := false }

@[simp] theorem Cursor.rest_behindStar (s : Supply) (rest : List Char) (c : Cursor) :
    (c.behindStar s rest).rest = rest := rfl

/-- The layout with a width taken from an argument; a negative one asks to pad on the right. -/
def Layout.withWidth (l : Layout) (n : Int) : Layout :=
  if n < 0 then { l with width := some n.natAbs, leftAlign := true, zeroPad := false }
  else { l with width := some n.natAbs }

def Cursor.width (s : Supply) (l : Layout) (c : Cursor) : List Segment × Layout × Cursor :=
  match c.rest with
  | '*' :: rest =>
    match integerArgument s c.next with
    | some n => ([], l.withWidth n, c.behindStar s rest)
    | none => ([.fault .badWidth], l, c.behindStar s rest)
  | cs =>
    match number none cs with
    | (some n, rest) =>
      ([], { l with width := some n }, { c with rest, goodIndex := c.goodIndex && !c.afterIndex })
    | (none, rest) => ([], l, { c with rest })

theorem Cursor.length_width_le (s : Supply) (l : Layout) (c : Cursor) :
    (c.width s l).2.2.rest.length ≤ c.rest.length := by
  unfold Cursor.width
  split
  · rename_i rest eq
    split <;> simp [eq]
  · have h := length_number_le none c.rest
    split <;> rename_i eq' <;> rw [eq'] at h <;> simpa using h

/-- Reads the precision of a directive, if there is one. A point without digits asks for zero. -/
def Cursor.precision (s : Supply) (l : Layout) (c : Cursor) : List Segment × Layout × Cursor :=
  match c.rest with
  | '.' :: cs =>
    let c := Cursor.index s.count { c with rest := cs, goodIndex := c.goodIndex && !c.afterIndex }
    match c.rest with
    | '*' :: rest =>
      match (integerArgument s c.next).filter (0 ≤ ·) with
      | some n => ([], { l with precision := some n.natAbs }, c.behindStar s rest)
      | none => ([.fault .badPrecision], l, c.behindStar s rest)
    | cs =>
      match number none cs with
      | (n, rest) => ([], { l with precision := some (n.getD 0) }, { c with rest })
  | _ => ([], l, c)

theorem Cursor.length_precision_le (s : Supply) (l : Layout) (c : Cursor) :
    (c.precision s l).2.2.rest.length ≤ c.rest.length := by
  unfold Cursor.precision
  split
  · rename_i cs eq
    have h := Cursor.length_index_le s.count
      { c with rest := cs, goodIndex := c.goodIndex && !c.afterIndex }
    simp only at h
    generalize Cursor.index s.count
      { c with rest := cs, goodIndex := c.goodIndex && !c.afterIndex } = d at h
    simp only
    split
    · rename_i rest eq'
      rw [eq'] at h
      simp only [List.length_cons] at h
      split <;> simp [eq] <;> omega
    · have h' := length_number_le none d.rest
      simp [eq]
      omega
  · simp

/-- The general verb turns the alternate and sign flags into flags of its own. -/
def Layout.forVerb (l : Layout) (verb : Char) : Layout :=
  if verb == 'v' || verb == 'w' then
    { l with literal := l.alternate, alternate := false, detailed := l.sign, sign := false }
  else l

def directive (s : Supply) (c : Cursor) : List Segment × Cursor :=
  let (l, rest) := flags {} c.rest
  let c := Cursor.index s.count { c with rest, goodIndex := true }
  let (ws, l, c) := c.width s l
  let (ps, l, c) := c.precision s l
  let c := if c.afterIndex then c else c.index s.count
  let faults := ws ++ ps
  match c.rest with
  | [] => (faults ++ [.fault .noVerb], c)
  | verb :: rest =>
    let c' := { c with rest }
    if verb == '%' then (faults ++ [.text ['%']], c')
    else if !c.goodIndex then (faults ++ [.fault (.badIndex verb)], c')
    else if s.count ≤ c.next then (faults ++ [.fault (.missing verb)], c')
    else (faults ++ [.argument c.next (l.forVerb verb) verb], { c' with next := c.next + 1 })

theorem length_directive_le (s : Supply) (c : Cursor) :
    (directive s c).2.rest.length ≤ c.rest.length := by
  unfold directive
  simp only
  have h₁ := length_flags_le {} c.rest
  generalize flags {} c.rest = f at h₁
  have h₂ := Cursor.length_index_le s.count { c with rest := f.2, goodIndex := true }
  simp only at h₂
  generalize Cursor.index s.count { c with rest := f.2, goodIndex := true } = c₂ at h₂
  have h₃ := Cursor.length_width_le s f.1 c₂
  generalize c₂.width s f.1 = w at h₃
  have h₄ := Cursor.length_precision_le s w.2.1 w.2.2
  generalize w.2.2.precision s w.2.1 = p at h₄
  have h₅ : (if p.2.2.afterIndex then p.2.2 else p.2.2.index s.count).rest.length ≤
      p.2.2.rest.length := by
    split
    · exact Nat.le_refl _
    · exact Cursor.length_index_le _ _
  generalize (if p.2.2.afterIndex then p.2.2 else p.2.2.index s.count) = c₅ at h₅
  split
  · rename_i eq
    simp [eq]
  · rename_i verb rest eq
    rw [eq] at h₅
    simp only [List.length_cons] at h₅
    split
    · simp; omega
    · split
      · simp; omega
      · split <;> simp <;> omega

/-- Reads a template from between directives. Arguments left over are a fault unless some directive
named its argument. -/
def segmentsFrom (s : Supply) (c : Cursor) : List Segment :=
  match _h : c.rest with
  | [] => if !c.reordered && c.next < s.count then [.fault (.extra c.next)] else []
  | '%' :: cs =>
    let d := directive s { c with rest := cs }
    d.1 ++ segmentsFrom s d.2
  | ch :: cs => .text [ch] :: segmentsFrom s { c with rest := cs }
termination_by c.rest.length
decreasing_by
  · have := length_directive_le s { c with rest := cs }
    simp only at this
    simp only [_h, List.length_cons]
    omega
  · simp [_h]

def segments (s : Supply) (template : String) : List Segment :=
  segmentsFrom s { rest := template.toList, next := 0 }

/-! ### Writing templates

How each kind of argument is written under each verb. A verb that does not suit its argument, like
every other misfit, leaves a mark that starts with `%!`. -/

inductive Arg where
  | text (s : String)
  | int (n : Int)
  | bool (b : Bool)
  | null
deriving DecidableEq, Repr

def Arg.kind : Arg → String
  | .text _ => "string"
  | .int _ => "int"
  | .bool _ => "bool"
  | .null => "<nil>"

def Arg.integer? : Arg → Option Int
  | .int n => some n
  | _ => none

def Supply.ofArgs (args : List Arg) : Supply where
  count := args.length
  integer? i := args[i]?.bind Arg.integer?

def Layout.fill (l : Layout) (n : Nat) : String :=
  String.ofList (List.replicate n (if l.zeroPad && !l.leftAlign then '0' else ' '))

def Layout.pad (l : Layout) (s : String) : String :=
  let missing := l.width.getD 0 - s.length
  if l.leftAlign then s ++ l.fill missing else l.fill missing ++ s

def Layout.cut (l : Layout) (s : String) : String :=
  match l.precision with
  | some n => String.ofList (s.toList.take n)
  | none => s

def Layout.plain (l : Layout) (s : String) : String := l.pad (l.cut s)

/-- Text in quotes: backquotes in the alternate form if they hold it, double quotes otherwise. -/
def Layout.quote (l : Layout) (s : String) : String :=
  let s := l.cut s
  if l.alternate && fitsBackquotes s then l.pad (String.ofList ['\x60'] ++ s ++ String.ofList ['\x60'])
  else l.pad (quotedWith l.sign '"' s)

def digitsOf (base : Nat) (capital : Bool) (n : Nat) : List Char :=
  let ds := Nat.toDigits base n
  if capital then ds.map Char.toUpper else ds

def Layout.hexBytes (l : Layout) (capital : Bool) (s : String) : String :=
  let bytes := toBytes s
  let bytes := match l.precision with
    | some n => bytes.take n
    | none => bytes
  let mark := if l.alternate then (if capital then "0X" else "0x") else ""
  let byte (b : UInt8) : String :=
    String.ofList (digitsOf 16 capital (b.toNat / 16) ++ digitsOf 16 capital (b.toNat % 16))
  let body :=
    if bytes.isEmpty then ""
    else if l.blankSign then String.intercalate " " (bytes.map fun b => mark ++ byte b)
    else mark ++ String.join (bytes.map byte)
  l.pad body

def Layout.integer (l : Layout) (base : Nat) (verb : Char) (n : Int) : String :=
  let spaced := { l with zeroPad := false }
  let size := n.natAbs
  if l.precision == some 0 && size == 0 then spaced.pad ""
  else
    let signed := n < 0 || l.sign || l.blankSign
    let least := match l.precision with
      | some p => p
      | none =>
        if l.zeroPad && !l.leftAlign then l.width.getD 0 - (if signed then 1 else 0) else 0
    let digits := digitsOf base (verb == 'X') size
    let digits := List.replicate (least - digits.length) '0' ++ digits
    let mark :=
      if !l.alternate then ""
      else if base == 2 then "0b"
      else if base == 8 then (if digits.head? == some '0' then "" else "0")
      else if base == 16 then (if verb == 'X' then "0X" else "0x")
      else ""
    let mark := if verb == 'O' then "0o" ++ mark else mark
    let sign := if n < 0 then "-" else if l.sign then "+" else if l.blankSign then " " else ""
    spaced.pad (sign ++ mark ++ String.ofList digits)

def characterOf (n : Int) : Char :=
  if 0 ≤ n && n.toNat.isValidChar then Char.ofNat n.toNat else '�'

/-- An integer as a code point in the form `U+0041`, in the alternate form with the character. -/
def Layout.codePoint (l : Layout) (n : Int) : String :=
  let word := if n < 0 then (n + Word.span 64).toNat else n.toNat
  let digits := digitsOf 16 true word
  let least := max 4 (l.precision.getD 0)
  let shown := if l.alternate && word.isValidChar && isPrintable (Char.ofNat word) then
      " '" ++ String.singleton (Char.ofNat word) ++ "'"
    else ""
  Layout.pad { l with zeroPad := false }
    ("U+" ++ String.ofList (List.replicate (least - digits.length) '0' ++ digits) ++ shown)

def Layout.text? (l : Layout) (verb : Char) (s : String) : Option String :=
  match verb with
  | 'v' => some (if l.literal then l.quote s else l.plain s)
  | 's' => some (l.plain s)
  | 'q' => some (l.quote s)
  | 'x' => some (l.hexBytes false s)
  | 'X' => some (l.hexBytes true s)
  | _ => none

def Layout.int? (l : Layout) (verb : Char) (n : Int) : Option String :=
  match verb with
  | 'v' | 'd' => some (l.integer 10 verb n)
  | 'b' => some (l.integer 2 verb n)
  | 'o' | 'O' => some (l.integer 8 verb n)
  | 'x' | 'X' => some (l.integer 16 verb n)
  | 'c' => some (l.pad (String.singleton (characterOf n)))
  | 'q' => some (l.pad (quotedWith l.sign '\'' (String.singleton (characterOf n))))
  | 'U' => some (l.codePoint n)
  | _ => none

/-- Writes an argument under a verb; `none` if the verb does not suit it. The verb `T` writes the
argument's kind. -/
def Arg.write? (l : Layout) (verb : Char) : Arg → Option String
  | .null => if verb == 'v' || verb == 'T' then some (l.pad "<nil>") else none
  | .text s => if verb == 'T' then some (l.plain "string") else l.text? verb s
  | .int n => if verb == 'T' then some (l.plain "int") else l.int? verb n
  | .bool b =>
    if verb == 'T' then some (l.plain "bool")
    else if verb == 't' || verb == 'v' then some (l.pad (if b then "true" else "false"))
    else none

/-- The mark that a verb leaves on an argument it does not suit. -/
def Arg.misfit (l : Layout) (verb : Char) (a : Arg) : String :=
  let shown := match a with
    | .null => "<nil>"
    | a => a.kind ++ "=" ++ (a.write? l 'v').getD ""
  "%!" ++ String.singleton verb ++ "(" ++ shown ++ ")"

def Arg.write (l : Layout) (verb : Char) (a : Arg) : String :=
  (a.write? l verb).getD (a.misfit l verb)

def Arg.listed : Arg → String
  | .null => "<nil>"
  | a => a.kind ++ "=" ++ a.write {} 'v'

def Fault.mark (args : List Arg) : Fault → String
  | .badIndex verb => "%!" ++ String.singleton verb ++ "(BADINDEX)"
  | .missing verb => "%!" ++ String.singleton verb ++ "(MISSING)"
  | .noVerb => "%!(NOVERB)"
  | .badWidth => "%!(BADWIDTH)"
  | .badPrecision => "%!(BADPREC)"
  | .extra i => "%!(EXTRA " ++ String.intercalate ", " ((args.drop i).map Arg.listed) ++ ")"

def Segment.write (args : List Arg) : Segment → String
  | .text cs => String.ofList cs
  | .argument i l verb => (args[i]?.getD .null).write l verb
  | .fault f => f.mark args

def render (template : String) (args : List Arg) : String :=
  String.join ((segments (.ofArgs args) template).map (Segment.write args))

def Segment.fits (args : List Arg) : Segment → Bool
  | .text _ => true
  | .argument i l verb => ((args[i]?.getD .null).write? l verb).isSome
  | .fault _ => false

/-- Whether a template fits its arguments: nothing in it leaves a mark. -/
def fits (template : String) (args : List Arg) : Bool :=
  (segments (.ofArgs args) template).all (Segment.fits args)

def Layout.directive (l : Layout) (verb : Char) : String :=
  "%" ++ (if l.blankSign then " " else "") ++ (if l.sign || l.detailed then "+" else "") ++
    (if l.leftAlign then "-" else "") ++ (if l.alternate || l.literal then "#" else "") ++
    (if l.zeroPad && !l.leftAlign then "0" else "") ++
    (match l.width with | some w => toString w | none => "") ++
    (match l.precision with | some p => "." ++ toString p | none => "") ++
    String.singleton verb

/-! ### Trying a template on blanks

A template from a database is tried first: every argument is replaced by a blank that writes
nothing, so that its text cannot be mistaken for a mark. -/

/-- Whether a directive, written by itself, marks its argument as a misfit. -/
def Arg.refuses (l : Layout) (verb : Char) (a : Arg) : Bool :=
  let start := match a with
    | .null => "%!" ++ String.singleton verb ++ "(<nil>)"
    | a => "%!" ++ String.singleton verb ++ "(" ++ a.kind ++ "="
  start.toList.isPrefixOf (render (l.directive verb) [a]).toList

/-- What a segment writes when its argument is blank. Only the verb for the kind writes something,
and two verbs suit no blank at all. -/
def Segment.writeBlank (args : List Arg) : Segment → String
  | .argument _ l 'T' => l.plain "blank"
  | .argument _ _ 'p' => "%!p(blank)"
  | .argument _ _ 'w' => "%!w(blank)"
  | .argument _ _ _ => ""
  | s => s.write args

def Segment.refused (args : List Arg) : Segment → Bool
  | .argument i l verb =>
    !(verb == 'T' || verb == 'p' || verb == 'w') && (args[i]?.getD .null).refuses l verb
  | _ => false

def hasMark : List Char → Bool
  | '%' :: '!' :: _ => true
  | _ :: cs => hasMark cs
  | [] => false

/-- Whether a template passes the trial: the text over blanks holds no mark and no argument refuses
its directive. -/
def passesTrial (template : String) (args : List Arg) : Bool :=
  let blanks : Supply := { count := args.length, integer? := fun _ => none }
  let parts := segments blanks template
  !hasMark (String.join (parts.map (Segment.writeBlank args))).toList &&
    !parts.any (Segment.refused args)

end BytecodeAudit.Text.Template
