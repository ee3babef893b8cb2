import ComponentTags.Text.Basic

/-!
# Delimited text

The two forms that the template language runs, between their delimiters, and the names that are kept
for generated text.
-/

namespace ComponentTags.Delimited

def statement (words : Text) : Text :=
  ['\x7b', '%', ' '] ++ words ++ [' ', '%', '\x7d']

/-- An expression whose value is output. -/
def output (expression : Text) : Text :=
  ['\x7b', '\x7b', ' '] ++ expression ++ [' ', '\x7d', '\x7d']

def reserved (name : Text) : Text :=
  ['_', '_'] ++ name

end ComponentTags.Delimited
