import TwoScript.Token.Kind

/-!
# Spellings of words

Every keyword has a native spelling in Devanagari and romanized ones, and many
operators have an uppercase mnemonic. A word is looked up in that order, letter case
counts, and a word in none of the tables is a plain name.
-/

namespace TwoScript

/-- The table in which a spelling stands. -/
inductive Script where
  | native
  | romanized
  | symbolic
deriving DecidableEq, Repr

namespace Script

def name : Script → String
  | native => "Native"
  | romanized => "Romanized"
  | symbolic => "Symbolic"

/-- Every script, in the order of look-up. -/
def all : List Script :=
  [native, romanized, symbolic]

def spellings : Script → List (String × Kind)
  | native =>
    [("कार्य", .functionWord), ("वर्ग", .classWord), ("यदि", .ifWord),
     ("अन्यथा", .elseWord), ("प्रयास", .tryWord), ("पकड़ो", .catchWord),
     ("अंततः", .finallyWord), ("लौटाओ", .returnWord), ("स्थिर", .constWord),
     ("चर", .letWord), ("असमकालिक", .asyncWord), ("प्रतीक्षा", .awaitWord),
     ("मिलान", .matchWord), ("अन्य", .defaultWord), ("सत्य", .trueWord),
     ("असत्य", .falseWord), ("शून्य", .nullWord)]
  | romanized =>
    [("karya", .functionWord), ("function", .functionWord), ("varga", .classWord),
     ("class", .classWord), ("yadi", .ifWord), ("if", .ifWord), ("anyatha", .elseWord),
     ("else", .elseWord), ("prayas", .tryWord), ("try", .tryWord), ("pakdo", .catchWord),
     ("catch", .catchWord), ("antatah", .finallyWord), ("finally", .finallyWord),
     ("lautao", .returnWord), ("return", .returnWord), ("sthir", .constWord),
     ("const", .constWord), ("char", .letWord), ("let", .letWord), ("var", .letWord),
     ("asamakalik", .asyncWord), ("async", .asyncWord), ("pratiksha", .awaitWord),
     ("await", .awaitWord), ("milan", .matchWord), ("match", .matchWord),
     ("anya", .defaultWord), ("default", .defaultWord), ("satya", .trueWord),
     ("true", .trueWord), ("asatya", .falseWord), ("false", .falseWord),
     ("shunya", .nullWord), ("null", .nullWord)]
  | symbolic =>
    [("YOGA", .plus), ("VIYOGA", .minus), ("GUNA", .star), ("BHAGA", .slash),
     ("SHESHA", .percent), ("SAMA", .equalEqual), ("ASAMA", .bangEqual), ("LAGHU", .less),
     ("LAGHUSAMA", .lessEqual), ("ADHIKA", .greater), ("ADHIKASAMA", .greaterEqual),
     ("CHA", .andAnd), ("VA", .orOr), ("NA", .bang)]

end Script

def lookup? (word : String) : Option (Script × Kind) :=
  Script.all.findSome? fun script =>
    (script.spellings.lookup word).map fun kind => (script, kind)

def keyword? (word : String) : Option Kind :=
  (lookup? word).map (·.2)

/-- Every spelling of a kind, native ones first. -/
def Kind.spellings (kind : Kind) : List String :=
  ((Script.all.flatMap Script.spellings).filter (·.2 == kind)).map (·.1)

end TwoScript
