/-! Substring replacement: the leftmost occurrences that do not overlap. -/

namespace TextPipeline.Text

/-- Replaces the occurrences of `find` that start after the next `skip` characters, which belong
to an occurrence already replaced. -/
def replaceFrom (find new : List Char) : Nat → List Char → List Char
  | _, [] => []
  | skip + 1, _ :: rest => replaceFrom find new skip rest
  | 0, c :: rest =>
    if find.isPrefixOf (c :: rest) then new ++ replaceFrom find new (find.length - 1) rest
    else c :: replaceFrom find new 0 rest

/-- `s` with every occurrence of `find` replaced by `new`. The empty text occurs before every
character and at the end. -/
def replace (find new s : List Char) : List Char :=
  if find.isEmpty then new ++ s.flatMap fun c => c :: new
  else replaceFrom find new 0 s

/-- `replace` on strings. -/
def replaceString (find new s : String) : String :=
  String.ofList (replace find.toList new.toList s.toList)

end TextPipeline.Text
