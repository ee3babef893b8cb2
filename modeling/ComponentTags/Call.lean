import ComponentTags.Block
import ComponentTags.Text.Blank
import ComponentTags.Text.Delimited
import ComponentTags.Text.Quoted

/-!
# Component calls

The text that replaces a block: a call of the `component` function of the template language. It
passes the lowercased name, the attributes, an identifier made of the name and the block's number,
and the form of the block. The body of a block with an end tag is captured in a variable first.
-/

namespace ComponentTags

namespace Call

def functionName : Text :=
  ['c', 'o', 'm', 'p', 'o', 'n', 'e', 'n', 't']

/-- Removes one white space control sign in front. -/
def dropSign : Text → Text
  | '-' :: s => s
  | '+' :: s => s
  | s => s

/-- The expression inside a value that is exactly one `{{ … }}`. -/
def singleExpression? (value : Text) : Option Text := do
  let inner ← Text.afterBeginning? ['\x7b', '\x7b'] value
  let inner ← Text.beforeEnding? ['\x7d', '\x7d'] inner
  let inner := Text.trim (dropSign (dropSign inner).reverse).reverse
  if inner.isEmpty || Text.contains ['\x7b', '\x7b'] inner || Text.contains ['\x7d', '\x7d'] inner
  then none
  else some inner

/-- Removes the backslash in front of every `quote`. -/
def unescape (quote : Char) : Text → Text
  | [] => []
  | [c] => [c]
  | c :: d :: s =>
    if c = '\\' ∧ d = quote then quote :: unescape quote s
    else c :: unescape quote (d :: s)

/-- An attribute value as an expression: a single expression is passed live, anything else is a
literal. -/
def valueExpression (value : Text) : Text :=
  match singleExpression? value with
  | some e => '(' :: e ++ [')']
  | none => Text.quote (unescape '\'' (unescape '"' value))

/-- The map literal of the attributes. -/
def attributeMap (attributes : Attributes) : Text :=
  '\x7b' :: Text.join ", ".toList (attributes.map entry) ++ ['\x7d']
where
  entry (a : Text × Text) : Text :=
    Text.quote a.1 ++ ": ".toList ++ valueExpression a.2

/-- The identifier of the block with the given number. -/
def identifier (name : Text) (number : Nat) : Text :=
  Text.lower name ++ '-' :: Text.ofNat number

/-- The variable that captures the body of the block with the given number. -/
def bodyVariable (number : Nat) : Text :=
  Delimited.reserved ("tagplate_body_".toList ++ Text.ofNat number)

/-- The function call up to the arguments that tell the form of the block. -/
def opening (number : Nat) (block : Block) : Text :=
  functionName ++ '(' :: Text.quote (Text.lower block.name) ++ ", ".toList ++
    attributeMap block.attributes ++ ", id=".toList ++ Text.quote (identifier block.name number)

/-- The body of the block with the given number, captured in its variable. -/
def capture (number : Nat) (body : Text) : Text :=
  Delimited.statement ("set ".toList ++ bodyVariable number) ++ body ++
    Delimited.statement "endset".toList

/-- The text that replaces the block with the given number. -/
def ofBlock (number : Nat) (block : Block) : Text :=
  if block.isSelfClosing then
    Delimited.output (opening number block ++ ", self_closing=true, is_end=false)".toList)
  else
    capture number block.body ++
      Delimited.output (opening number block ++ ", self_closing=false, is_end=true, body=".toList ++
        bodyVariable number ++ [')'])

end Call

end ComponentTags
