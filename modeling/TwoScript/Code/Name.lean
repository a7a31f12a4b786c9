/-!
# Names in generated code

Some names of the language are reserved words of JavaScript. They are bound with a
dollar sign in front, which no name of the language holds, and so are the
temporaries of selections.
-/

namespace TwoScript

/-- Words that JavaScript reserves and that are plain names here. -/
def reservedWords : List String :=
  ["break", "case", "continue", "debugger", "delete", "do", "enum", "export", "extends",
   "for", "implements", "import", "in", "instanceof", "interface", "new", "package",
   "private", "protected", "public", "static", "switch", "throw", "typeof", "void",
   "while", "with", "yield"]

def bindingName (name : String) : String :=
  if reservedWords.contains name then "$" ++ name else name

/-- The temporary that holds the subject of the selection with this number. -/
def temporary (number : Nat) : String :=
  "$match_" ++ toString number

end TwoScript
