import CodeHabits.Digest.Sha1

/-!
# `CodeHabits.Pattern.Id`: ids of patterns

The id of a pattern is made from its language and signature, so the same
pattern gets the same id in every session.
-/

set_option autoImplicit false

namespace CodeHabits

/-- The id of the pattern with a language and a signature: twelve digits of
the digest of the two texts with a null character between them. -/
def patternId (language signature : String) : String :=
  let bytes := (language ++ "\x00" ++ signature).toUTF8.toList
  "pat_" ++ String.ofList ((Digest.sha1Hex bytes).take 12)

end CodeHabits
