/-!
# YAML nodes

A YAML document as a tree that remembers how it was written: scalar styles, comments, anchors and
tags. An alias carries the node it stands for; an alias inside the very node it names is a knot.
-/

namespace BytecodeAudit.Yaml

inductive ScalarStyle where
  | plain
  | singleQuoted
  | doubleQuoted
  | literal
  | folded
deriving DecidableEq, Repr, Inhabited

/-- The comments around a node, with their number signs and line breaks. -/
structure Comments where
  head : String := ""
  line : String := ""
  foot : String := ""
deriving DecidableEq, Repr, Inhabited

structure Trim where
  /-- The tag in its short form, such as `!!str`; empty when none is known. -/
  tag : String := ""
  isTagged : Bool := false
  anchor : String := ""
  comments : Comments := {}
  /-- The line of the first character, from one; zero when it was not read from text. -/
  line : Nat := 0
deriving DecidableEq, Repr, Inhabited

/-- A node. Collections are written in flow style, between brackets, or as indented blocks. -/
inductive Node where
  | scalar (trim : Trim) (style : ScalarStyle) (text : String)
  | sequence (trim : Trim) (isFlow : Bool) (items : List Node)
  | mapping (trim : Trim) (isFlow : Bool) (entries : List (Node × Node))
  | alias (trim : Trim) (name : String) (target : Node)
  | knot (trim : Trim) (name : String)
deriving Repr, Inhabited

/-- A document: comments before and behind it, and its node if it has one. -/
structure Document where
  head : String := ""
  foot : String := ""
  root : Option Node := none
deriving Repr, Inhabited

def tagStr : String := "!!str"
def tagMap : String := "!!map"
def tagSeq : String := "!!seq"
def tagNull : String := "!!null"
def tagBool : String := "!!bool"
def tagInt : String := "!!int"
def tagFloat : String := "!!float"
def tagTime : String := "!!timestamp"
def tagBinary : String := "!!binary"
def tagMerge : String := "!!merge"

def tagSpace : String := "tag:yaml.org,2002:"

def shortTag (tag : String) : String :=
  if tag.startsWith tagSpace then "!!" ++ (tag.drop tagSpace.length).toString else tag

def longTag (tag : String) : String :=
  if tag.startsWith "!!" then tagSpace ++ (tag.drop 2).toString else tag

namespace Node

def trim : Node → Trim
  | .scalar t _ _ => t
  | .sequence t _ _ => t
  | .mapping t _ _ => t
  | .alias t _ _ => t
  | .knot t _ => t

def mapTrim (f : Trim → Trim) : Node → Node
  | .scalar t style text => .scalar (f t) style text
  | .sequence t isFlow items => .sequence (f t) isFlow items
  | .mapping t isFlow entries => .mapping (f t) isFlow entries
  | .alias t name target => .alias (f t) name target
  | .knot t name => .knot (f t) name

/-- The text of a scalar, the name of an alias; collections have none. -/
def text : Node → String
  | .scalar _ _ text => text
  | .alias _ name _ => name
  | .knot _ name => name
  | _ => ""

def foot (n : Node) : String := n.trim.comments.foot

def withFoot (n : Node) (foot : String) : Node :=
  n.mapTrim fun t => { t with comments := { t.comments with foot } }

/-- Whether two nodes are keys that cannot stand in one mapping: nodes of one kind with one text. -/
def sameKey (a b : Node) : Bool :=
  let kind : Node → Nat
    | .scalar .. => 0
    | .sequence .. => 1
    | .mapping .. => 2
    | .alias .. | .knot .. => 3
  kind a == kind b && a.text == b.text

def emptyMapping : Node := .mapping { tag := tagMap } false []

def stringKey (text : String) : Node := .scalar { tag := tagStr } .plain text

/-- Makes a node a plain scalar; its anchor and comments stay. -/
def toPlainScalar (n : Node) (text : String) : Node :=
  .scalar { n.trim with tag := "", isTagged := false } .plain text

end Node

end BytecodeAudit.Yaml
