import Mathlib.Data.List.Infix

/-!
# Patterns in a text

Regular expressions of character classes without nested repetition, and the test whether one is
found in a text.
-/
namespace DhKit.TextPatterns

inductive Pattern where
 | one (accepts : Char → Bool)
 /-- One or more characters of the class. -/
 | many (accepts : Char → Bool)
 | optional (accepts : Char → Bool)
 | done
 | seq (first second : Pattern)
 | alt (first second : Pattern)

namespace Pattern

def oneRest (accepts : Char → Bool) : List Char → List (List Char)
 | [] => []
 | c::text => if accepts c then [text] else []

def manyRests (accepts : Char → Bool) : List Char → List (List Char)
 | [] => []
 | c::text => if accepts c then text::manyRests accepts text else []

def rests : Pattern → List Char → List (List Char)
 | one accepts,text => oneRest accepts text
 | many accepts,text => manyRests accepts text
 | optional accepts,text => text::oneRest accepts text
 | done,text => [text]
 | seq first second,text => (rests first text).flatMap (rests second)
 | alt first second,text => rests first text++rests second text

def test (pattern : Pattern) (text : String) : Bool :=
 text.toList.tails.any fun tail => !(pattern.rests tail).isEmpty

def word (text : String) : Pattern :=
 text.toList.foldr (fun c rest => seq (one fun d => d.toLower = c) rest) done

def anyOf (first : Pattern) (others : List Pattern) : Pattern := others.foldl alt first

end Pattern

def isSpaceCharacter (c : Char) : Bool :=
 (9 ≤ c.toNat && c.toNat ≤ 13) || (0x2000 ≤ c.toNat && c.toNat ≤ 0x200A) ||
  c.toNat ∈ [0x20,0xA0,0x1680,0x2028,0x2029,0x202F,0x205F,0x3000,0xFEFF]

def trim (text : String) : String :=
 String.ofList (((text.toList.dropWhile isSpaceCharacter).reverse.dropWhile
  isSpaceCharacter).reverse)

def Contains (part text : String) : Prop := part.toList <:+: text.toList

instance (part text : String) : Decidable (Contains part text) :=
 inferInstanceAs (Decidable (part.toList <:+: text.toList))

def StartsWith (part text : String) : Prop := part.toList <+: text.toList

instance (part text : String) : Decidable (StartsWith part text) :=
 inferInstanceAs (Decidable (part.toList <+: text.toList))

end DhKit.TextPatterns
