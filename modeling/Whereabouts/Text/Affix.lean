/-!
# Parts of a text

Whether one text begins another or stands somewhere in it.
-/

namespace Whereabouts

def beginsWith (s part : String) : Bool := part.toList.isPrefixOf s.toList

def occursIn (part : List Char) : List Char → Bool
  | [] => part.isEmpty
  | c :: cs => part.isPrefixOf (c :: cs) || occursIn part cs

end Whereabouts
